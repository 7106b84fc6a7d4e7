/-
# Filling in distances at the end is assembling in two passes

A builder writes zeros where it does not know a distance yet, and fills them in when all labels are
bound.  The same can be done without writing over anything, in two passes over the program:

| pass | builder | two passes |
| --- | --- | --- |
| addresses of labels | noted at each `bind`, in `labels` | `Program.labels` |
| a label bound twice | the first error, kept in `error` | `Program.firstRepeated?` |
| distances | zeros, then `patch` for each entry of `fixups` | `Directive.block`, at once |

`Program.assemble_eq_assembleInPasses` says that this comes to the same, errors included.  What a
call does to each part of the builder is said once, and followed through all calls: the code is the
program's *draft*, with zeros for distances, and the fixups are its branches with their addresses
(`toList_code_calls`, `toList_fixups_calls`, `labels_calls`, `error_calls`).

For `build` the invariant is on the bytes.  When the branches up to some point of the program have
been patched, the code is what the program comes to up to there, and its draft from there on
(`foldlM_patch`).  So the next patch finds its own zeros behind its opcode, whole and untouched: the
places noted are in range, no two overlap, and no other byte is written over.
-/

import MethodMachine.Assembly

namespace MethodMachine

/-! ### The two passes -/

/-- The number of bytes a distance takes after a branch opcode. -/
def Opcode.distanceSize (op : Opcode) : Nat := if op.isWideBranch then 4 else 2

namespace Directive

/-- The number of bytes the directive appends. -/
def size : Directive → Nat
  | op _ => 1
  | opByte .. => 2
  | opSignedByte .. => 2
  | opShort .. => 3
  | increment .. => 3
  | raw bytes => bytes.length
  | bind _ => 0
  | branch opcode _ => 1 + opcode.distanceSize

/-- The branch to `target`, if the distance fits. -/
def branchBytes (opcode : Opcode) (origin target : Nat) : Except AssemblyError (List UInt8) :=
  let count := opcode.distanceSize
  let distance : Int := target - origin
  if -(wordCount count) ≤ 2 * distance ∧ 2 * distance < wordCount count then
    .ok (opcode :: bigEndian count distance)
  else .error (.distanceOutOfRange origin target)

/-- What the directive comes to at an address. -/
def block (labels : LabelTable) (address : Nat) : Directive → Except AssemblyError (List UInt8)
  | op opcode => .ok [opcode]
  | opByte opcode operand => .ok [opcode, operand]
  | opSignedByte opcode operand => .ok [opcode, operand.toUInt8]
  | opShort opcode operand => .ok (opcode :: bigEndian 2 operand.toInt)
  | increment index delta => .ok [0x84, index, delta.toUInt8]
  | raw bytes => .ok bytes
  | bind _ => .ok []
  | branch opcode label =>
    match labels.lookup label with
    | none => .error (.unboundLabel label)
    | some target => branchBytes opcode address target

end Directive

namespace Program

/-- The number of bytes that a program comes to. -/
def size : Program → Nat
  | [] => 0
  | d :: rest => d.size + size rest

/-- The labels bound by a program that starts at an address, in order. -/
def labels (address : Nat) : Program → LabelTable
  | [] => []
  | .bind label :: rest => (label, address) :: labels address rest
  | d :: rest => labels (address + d.size) rest

/-- The first label that was bound before. -/
def firstRepeated? (seen : List Label) : LabelTable → Option Label
  | [] => none
  | (label, _) :: rest =>
    if label ∈ seen then some label else firstRepeated? (label :: seen) rest

/-- The bytes of a program that starts at an address, for given label addresses. -/
def blocks (table : LabelTable) (address : Nat) : Program → Except AssemblyError (List UInt8)
  | [] => .ok []
  | d :: rest =>
    match d.block table address with
    | .error e => .error e
    | .ok first => (blocks table (address + d.size) rest).map (first ++ ·)

/-- The code of a program, in two passes: one for the labels and one for the bytes. -/
def assembleInPasses (program : Program) : Except AssemblyError Code :=
  let table := program.labels 0
  match firstRepeated? [] table with
  | some label => .error (.duplicateLabel label)
  | none => (program.blocks table 0).map List.toArray

end Program

/-! ### What the calls leave behind -/

/-- The bytes that a call appends: zeros stand for a distance. -/
def Directive.draft : Directive → List UInt8
  | op opcode => [opcode]
  | opByte opcode operand => [opcode, operand]
  | opSignedByte opcode operand => [opcode, operand.toUInt8]
  | opShort opcode operand => opcode :: bigEndian 2 operand.toInt
  | increment index delta => [0x84, index, delta.toUInt8]
  | raw bytes => bytes
  | bind _ => []
  | branch opcode _ => opcode :: List.replicate opcode.distanceSize 0

/-- The bytes that the calls of a program append. -/
def Program.draft (program : Program) : List UInt8 := program.flatMap Directive.draft

/-- The branches of a program that starts at an address. -/
def Program.fixups (address : Nat) : Program → List Fixup
  | [] => []
  | .branch opcode label :: rest =>
    ⟨address, label, opcode.isWideBranch⟩ ::
      fixups (address + (Directive.branch opcode label).size) rest
  | d :: rest => fixups (address + d.size) rest

/-- Zeros take as many bytes as the distance they keep the place of. -/
theorem Directive.length_draft (d : Directive) : d.draft.length = d.size := by
  cases d with
  | branch opcode label => simp [draft, size, Nat.add_comm]
  | opShort opcode operand => simp [draft, size]
  | _ => rfl

/-- A directive takes the bytes that the first pass has counted for it. -/
theorem Directive.length_block {d : Directive} {table : LabelTable} {address : Nat}
    {bytes : List UInt8} (h : d.block table address = .ok bytes) : bytes.length = d.size := by
  cases d with
  | opShort opcode operand =>
    cases h
    rw [List.length_cons, length_bigEndian]
    rfl
  | branch opcode label =>
    rw [block] at h
    cases hlookup : table.lookup label with
    | none =>
      rw [hlookup] at h
      cases h
    | some target =>
      simp only [hlookup, branchBytes] at h
      split at h
      · cases h
        rw [List.length_cons, length_bigEndian, size, Nat.add_comm]
      · cases h
  | _ =>
    cases h
    rfl

/-- A branch is noted with as many bytes for its distance as its opcode takes. -/
@[simp] theorem Fixup.width_branch (origin : Nat) (label : Label) (opcode : Opcode) :
    (Fixup.mk origin label opcode.isWideBranch).width = opcode.distanceSize := by
  rw [Fixup.width, Opcode.distanceSize]

namespace LabelTable

variable {table : LabelTable} {label : Label} {address : Nat}

/-- A label is found if it is in the table. -/
theorem isSome_lookup_iff : (table.lookup label).isSome = true ↔ label ∈ table.map Prod.fst := by
  cases hlookup : table.lookup label with
  | none =>
    have hnone := List.lookup_eq_none_iff.1 hlookup
    simp only [Option.isSome_none, Bool.false_eq_true, List.mem_map, false_iff]
    rintro ⟨entry, hmem, rfl⟩
    simpa using hnone entry hmem
  | some target =>
    obtain ⟨before, after, rfl, -⟩ := List.lookup_eq_some_iff.1 hlookup
    simp

/-- In a table without repeated labels, what is found is all there is. -/
theorem lookup_eq_some_iff_mem (hnodup : (table.map Prod.fst).Nodup) :
    table.lookup label = some address ↔ (label, address) ∈ table := by
  constructor
  · intro hlookup
    obtain ⟨before, after, rfl, -⟩ := List.lookup_eq_some_iff.1 hlookup
    exact List.mem_append_right _ (List.mem_cons_self ..)
  · intro hmem
    obtain ⟨before, after, rfl⟩ := List.append_of_mem hmem
    rw [List.map_append, List.map_cons, List.nodup_append] at hnodup
    refine List.lookup_eq_some_iff.2 ⟨before, after, rfl, fun entry hentry => ?_⟩
    have hne := hnodup.2.2 _ (List.mem_map_of_mem hentry) _ (List.mem_cons_self ..)
    simpa using hne.symm

/-- Without repeated labels it does not matter in which order a table is searched. -/
theorem lookup_reverse (hnodup : (table.map Prod.fst).Nodup) (label : Label) :
    List.lookup label table.reverse = table.lookup label := by
  have hreverse : (table.reverse.map Prod.fst).Nodup :=
    ((List.reverse_perm table).map Prod.fst).symm.nodup hnodup
  refine Option.ext fun address => ?_
  rw [lookup_eq_some_iff_mem hreverse, lookup_eq_some_iff_mem hnodup, List.mem_reverse]

end LabelTable

/-- If no label is met again, each is in the table once, and none was met before. -/
theorem Program.nodup_of_firstRepeated? {seen : List Label} {table : LabelTable}
    (h : firstRepeated? seen table = none) :
    (table.map Prod.fst).Nodup ∧ ∀ label ∈ table.map Prod.fst, label ∉ seen := by
  fun_induction firstRepeated? seen table with
  | case1 seen => exact ⟨List.nodup_nil, fun _ hmem => nomatch hmem⟩
  | case2 seen label address rest hseen => cases h
  | case3 seen label address rest hseen ih =>
    obtain ⟨hnodup, hfresh⟩ := ih h
    rw [List.map_cons, List.nodup_cons, List.forall_mem_cons]
    refine ⟨⟨fun hmem => ?_, hnodup⟩, hseen, fun other hother => ?_⟩
    · exact hfresh label hmem (List.mem_cons_self ..)
    · exact fun hmem => hfresh other hother (List.mem_cons_of_mem _ hmem)

namespace Builder

variable (b : Builder) (d : Directive) (program : Program)

/-- A call appends the draft of its directive to the code. -/
theorem toList_code_call : (b.call d).code.toList = b.code.toList ++ d.draft := by
  cases d with
  | bind label => exact (List.append_nil _).symm
  | branch opcode label => simp [call, branch, Directive.draft]
  | _ => simp [call, append, Directive.draft]

/-- The code grows by the bytes of the directive. -/
theorem size_code_call : (b.call d).code.size = b.code.size + d.size := by
  have hbytes := congrArg List.length (toList_code_call b d)
  rwa [List.length_append, Directive.length_draft] at hbytes

/-- The first call comes first. -/
theorem calls_cons : b.calls (d :: program) = (b.call d).calls program := rfl

/-- **The code of a builder is the draft of the calls.** -/
theorem toList_code_calls : (b.calls program).code.toList = b.code.toList ++ program.draft := by
  induction program generalizing b with
  | nil => exact (List.append_nil _).symm
  | cons d rest ih =>
    rw [calls_cons, ih, toList_code_call, List.append_assoc, Program.draft, Program.draft,
      List.flatMap_cons]

/-- After the calls of a program the code has grown by the bytes of the program. -/
theorem size_code_calls : (b.calls program).code.size = b.code.size + program.size := by
  induction program generalizing b with
  | nil => rfl
  | cons d rest ih => rw [calls_cons, ih, size_code_call, Program.size, Nat.add_assoc]

/-- **The fixups of a builder are the branches**, with the addresses they stand at. -/
theorem toList_fixups_calls :
    (b.calls program).fixups.toList = b.fixups.toList ++ program.fixups b.code.size := by
  induction program generalizing b with
  | nil => exact (List.append_nil _).symm
  | cons d rest ih =>
    rw [calls_cons, ih, size_code_call]
    cases d with
    | branch opcode label => simp [call, branch, Program.fixups]
    | _ => rfl

/-- **The labels of a builder are those that are bound**, the latest first. -/
theorem labels_calls :
    (b.calls program).labels = (program.labels b.code.size).reverse ++ b.labels := by
  induction program generalizing b with
  | nil => rfl
  | cons d rest ih =>
    rw [calls_cons, ih, size_code_call]
    cases d with
    | bind label => simp [call, bind, Program.labels, Directive.size]
    | _ => rfl

/-- **The error of a builder is the first label that is bound again**, if there was none before. -/
theorem error_calls :
    (b.calls program).error = b.error.or
      ((Program.firstRepeated? (b.labels.map Prod.fst) (program.labels b.code.size)).map
        .duplicateLabel) := by
  induction program generalizing b with
  | nil => exact (Option.or_none ..).symm
  | cons d rest ih =>
    rw [calls_cons, ih, size_code_call]
    cases d with
    | bind label =>
      have hagain : (b.labels.lookup label).isSome = true ↔ label ∈ b.labels.map Prod.fst :=
        LabelTable.isSome_lookup_iff
      by_cases hmem : label ∈ b.labels.map Prod.fst
      · cases herror : b.error <;>
          simp [call, bind, Program.labels, Program.firstRepeated?, hagain.2 hmem, hmem, herror]
      · have hfresh : (b.labels.lookup label).isSome = false :=
          Bool.eq_false_iff.2 (mt hagain.1 hmem)
        simp [call, bind, Program.labels, Program.firstRepeated?, hfresh, hmem, Directive.size]
    | _ => rfl

end Builder

/-! ### The places that are noted -/

/-- A byte belongs to the distance of a branch that is noted. -/
def Fixup.Covers (fixup : Fixup) (i : Nat) : Prop :=
  fixup.origin < i ∧ i ≤ fixup.origin + fixup.width

/-- The distances noted in a builder lie in its code, each behind the one before. -/
structure Builder.Orderly (b : Builder) : Prop where
  inside : ∀ fixup ∈ b.fixups.toList, fixup.origin + fixup.width < b.code.size
  apart : b.fixups.toList.Pairwise fun earlier later =>
    earlier.origin + earlier.width < later.origin

namespace Builder

/-- A call keeps the noted distances in order: a branch is noted behind all code before it. -/
theorem Orderly.call {b : Builder} (h : b.Orderly) (d : Directive) : (b.call d).Orderly := by
  cases d with
  | branch opcode label =>
    have hsize : (b.call (.branch opcode label)).code.size =
        b.code.size + (1 + opcode.distanceSize) := size_code_call ..
    have hfixups : (b.branch opcode label).fixups.toList =
        b.fixups.toList ++ [⟨b.code.size, label, opcode.isWideBranch⟩] := Array.toList_push
    constructor
    · intro fixup hmem
      rw [hsize]
      rcases List.mem_append.1 (hfixups ▸ hmem) with hmem | hmem
      · have hinside := h.inside fixup hmem
        omega
      · obtain rfl := List.mem_singleton.1 hmem
        simp only [Fixup.width_branch]
        omega
    · rw [Builder.call, hfixups, List.pairwise_append]
      refine ⟨h.apart, List.pairwise_singleton .., fun earlier hearlier later hlater => ?_⟩
      rw [List.mem_singleton.1 hlater]
      exact h.inside earlier hearlier
  | _ =>
    refine ⟨fun fixup hmem => Nat.lt_of_lt_of_le (h.inside fixup hmem) ?_, h.apart⟩
    rw [size_code_call]
    exact Nat.le_add_right ..

/-- **The notes of a builder stay orderly** through all calls. -/
theorem orderly_calls {b : Builder} (h : b.Orderly) (program : Program) :
    (b.calls program).Orderly := by
  induction program generalizing b with
  | nil => exact h
  | cons d rest ih => exact ih (h.call d)

/-- A new builder has no notes. -/
theorem orderly_new : new.Orderly where
  inside := fun _ hmem => nomatch hmem
  apart := .nil

end Builder

/-! ### The patches -/

/-- Writing over bytes neither adds nor removes any. -/
theorem Code.size_overwrite (code : Code) (address : Nat) (bytes : List UInt8) :
    (code.overwrite address bytes).size = code.size := by
  induction bytes generalizing code address with
  | nil => rfl
  | cons byte rest ih => rw [overwrite, ih, Array.size_setIfInBounds]

/-- Writing over bytes leaves those before and behind. -/
theorem Code.getElem?_overwrite {code : Code} {address i : Nat} {bytes : List UInt8}
    (h : i < address ∨ address + bytes.length ≤ i) :
    (code.overwrite address bytes)[i]? = code[i]? := by
  induction bytes generalizing code address with
  | nil => rfl
  | cons byte rest ih =>
    rw [List.length_cons] at h
    rw [overwrite, ih (by omega), Array.getElem?_setIfInBounds_ne (by omega)]

/-- Writing over bytes in the middle of code leaves the others. -/
theorem Code.toList_overwrite {code : Code} {front old back bytes : List UInt8}
    (hcode : code.toList = front ++ (old ++ back)) (hlength : bytes.length = old.length) :
    (code.overwrite front.length bytes).toList = front ++ (bytes ++ back) := by
  induction bytes generalizing code front old with
  | nil =>
    cases old with
    | nil => exact hcode
    | cons _ _ => cases hlength
  | cons byte rest ih =>
    cases old with
    | nil => cases hlength
    | cons first others =>
      have hset : (code.setIfInBounds front.length byte).toList =
          (front ++ [byte]) ++ (others ++ back) := by
        simp [hcode]
      have hrest := ih hset (Nat.succ.inj hlength)
      rw [List.length_append] at hrest
      rw [overwrite]
      simpa using hrest

namespace Builder

variable {labels table : LabelTable}

/-- A patch writes the distance over the zeros behind the opcode, or fails as the second pass would
at this branch. -/
theorem patch_branch (hlookup : ∀ label, labels.lookup label = table.lookup label)
    {opcode : Opcode} {label : Label} {code : Code} {before after : List UInt8}
    (hcode : code.toList = before ++ ((Directive.branch opcode label).draft ++ after)) :
    patch labels code ⟨before.length, label, opcode.isWideBranch⟩ =
      ((Directive.branch opcode label).block table before.length).map
        fun bytes => (before ++ (bytes ++ after)).toArray := by
  rw [patch, Directive.block, hlookup label]
  cases table.lookup label with
  | none => rfl
  | some target =>
    simp only [Directive.branchBytes, Fixup.width_branch]
    split
    · have hsplit : code.toList =
          (before ++ [opcode]) ++ (List.replicate opcode.distanceSize 0 ++ after) := by
        rw [hcode, Directive.draft, List.append_assoc]
        rfl
      have hlength : (bigEndian opcode.distanceSize (target - before.length)).length =
          (List.replicate opcode.distanceSize (0 : UInt8)).length := by
        rw [length_bigEndian, List.length_replicate]
      have hpatched := Code.toList_overwrite hsplit hlength
      rw [List.length_append, List.length_singleton] at hpatched
      refine congrArg Except.ok (Array.toList_inj.1 ?_)
      simpa using hpatched
    · rfl

/-- A patch writes over the distance of its branch and over nothing else. -/
theorem patch_keeps {code code' : Code} {fixup : Fixup} (h : patch labels code fixup = .ok code') :
    code'.size = code.size ∧ ∀ i, ¬fixup.Covers i → code'[i]? = code[i]? := by
  rw [patch] at h
  cases hlookup : labels.lookup fixup.label with
  | none =>
    rw [hlookup] at h
    cases h
  | some target =>
    simp only [hlookup] at h
    split at h
    · cases h
      refine ⟨Code.size_overwrite .., fun i hi => Code.getElem?_overwrite ?_⟩
      rw [length_bigEndian]
      unfold Fixup.Covers at hi
      omega
    · cases h

/-- Patches one after the other change no byte but those that one of the notes covers. -/
theorem foldlM_patch_keeps {fixups : List Fixup} {code code' : Code}
    (h : fixups.foldlM (patch labels) code = .ok code') :
    code'.size = code.size ∧
      ∀ i, (∀ fixup ∈ fixups, ¬fixup.Covers i) → code'[i]? = code[i]? := by
  induction fixups generalizing code with
  | nil =>
    cases h
    exact ⟨rfl, fun _ _ => rfl⟩
  | cons fixup rest ih =>
    rw [List.foldlM_cons] at h
    cases hpatch : patch labels code fixup with
    | error e =>
      rw [hpatch] at h
      cases h
    | ok patched =>
      rw [hpatch] at h
      obtain ⟨hsize, hkeeps⟩ := patch_keeps hpatch
      obtain ⟨hsizeRest, hkeepsRest⟩ := ih h
      refine ⟨hsizeRest.trans hsize, fun i hi => ?_⟩
      obtain ⟨hfirst, hothers⟩ := List.forall_mem_cons.1 hi
      rw [hkeepsRest i hothers, hkeeps i hfirst]

/-- **Building keeps every byte that belongs to no distance** as the calls have appended it. -/
theorem build_keeps {b : Builder} {code : Code} (h : b.build = .ok code) :
    code.size = b.code.size ∧
      ∀ i, (∀ fixup ∈ b.fixups.toList, ¬fixup.Covers i) → code[i]? = b.code[i]? := by
  rw [build] at h
  cases herror : b.error with
  | some e =>
    rw [herror] at h
    cases h
  | none =>
    simp only [herror, ← Array.foldlM_toList] at h
    exact foldlM_patch_keeps h

/-- **The patches fill in what the second pass writes at once.**  Code that is finished up to some
point of the program, and the draft from there on, is finished by the fixups from there on. -/
theorem foldlM_patch (hlookup : ∀ label, labels.lookup label = table.lookup label)
    (program : Program) (before : List UInt8) (code : Code)
    (hcode : code.toList = before ++ program.draft) :
    (program.fixups before.length).foldlM (patch labels) code =
      (program.blocks table before.length).map fun bytes => (before ++ bytes).toArray := by
  induction program generalizing before code with
  | nil =>
    refine congrArg Except.ok (Array.toList_inj.1 ?_)
    simpa [Program.draft] using hcode
  | cons d rest ih =>
    rw [Program.draft, List.flatMap_cons] at hcode
    -- once `d` is finished, the invariant holds behind it
    have hrest : ∀ (first : List UInt8) (code' : Code), d.block table before.length = .ok first →
        code'.toList = before ++ (first ++ Program.draft rest) →
        (Program.fixups (before.length + d.size) rest).foldlM (patch labels) code' =
          (Program.blocks table before.length (d :: rest)).map
            fun bytes => (before ++ bytes).toArray := by
      intro first code' hblock hcode'
      have hfinish := ih (before ++ first) code' (by rw [hcode', List.append_assoc])
      rw [List.length_append, Directive.length_block hblock] at hfinish
      rw [hfinish, Program.blocks, hblock]
      cases Program.blocks table (before.length + d.size) rest with
      | error e => rfl
      | ok bytes => simp [Except.map]
    cases d with
    | branch opcode label =>
      rw [Program.fixups, List.foldlM_cons, patch_branch hlookup hcode]
      cases hblock : (Directive.branch opcode label).block table before.length with
      | error e =>
        rw [Program.blocks, hblock]
        rfl
      | ok first => exact hrest first _ hblock rfl
    | _ =>
      -- all other directives are finished as they are, and leave no note
      exact hrest _ code rfl hcode

end Builder

namespace Program

/-- **Filling in distances at the end is assembling in two passes.**  The builder gives the code
that the two passes give, or the same error. -/
theorem assemble_eq_assembleInPasses (program : Program) :
    program.assemble = program.assembleInPasses := by
  have hcode : (Builder.new.calls program).code.toList = [] ++ program.draft :=
    Builder.toList_code_calls .new program
  have hfixups : (Builder.new.calls program).fixups.toList = program.fixups 0 :=
    Builder.toList_fixups_calls .new program
  have hlabels : (Builder.new.calls program).labels = (program.labels 0).reverse :=
    (Builder.labels_calls .new program).trans (List.append_nil _)
  have herror : (Builder.new.calls program).error =
      (firstRepeated? [] (program.labels 0)).map .duplicateLabel :=
    Builder.error_calls .new program
  rw [assemble, assembleInPasses, Builder.build, herror]
  cases hrepeated : firstRepeated? [] (program.labels 0) with
  | some label => rfl
  | none =>
    have hlookup : ∀ label, (Builder.new.calls program).labels.lookup label =
        (program.labels 0).lookup label := by
      intro label
      rw [hlabels]
      exact LabelTable.lookup_reverse (nodup_of_firstRepeated? hrepeated).1 label
    have hpatches := Builder.foldlM_patch hlookup program [] _ hcode
    rw [List.length_nil, ← hfixups, Array.foldlM_toList] at hpatches
    exact hpatches

variable {program : Program} {label : Label} {code : Code}

/-- A label that is bound twice is the error, whatever else is wrong with the program. -/
theorem build_of_repeated (h : firstRepeated? [] (program.labels 0) = some label) :
    (Builder.new.calls program).build = .error (.duplicateLabel label) := by
  have hpasses := assemble_eq_assembleInPasses program
  simp only [assembleInPasses, h] at hpasses
  exact hpasses

/-- Without such a label, the code or the error is that of the second pass. -/
theorem build_of_not_repeated (h : firstRepeated? [] (program.labels 0) = none) :
    (Builder.new.calls program).build =
      (program.blocks (program.labels 0) 0).map List.toArray := by
  have hpasses := assemble_eq_assembleInPasses program
  simp only [assembleInPasses, h] at hpasses
  exact hpasses

/-- Code that is built is what the second pass writes, and no label is bound twice. -/
theorem build_eq_ok (h : (Builder.new.calls program).build = .ok code) :
    firstRepeated? [] (program.labels 0) = none ∧
      program.blocks (program.labels 0) 0 = .ok code.toList := by
  cases hrepeated : firstRepeated? [] (program.labels 0) with
  | some label =>
    rw [build_of_repeated hrepeated] at h
    cases h
  | none =>
    rw [build_of_not_repeated hrepeated] at h
    cases hblocks : program.blocks (program.labels 0) 0 with
    | error e =>
      rw [hblocks] at h
      cases h
    | ok bytes =>
      rw [hblocks] at h
      cases h
      exact ⟨rfl, rfl⟩

end Program

end MethodMachine
