/-
# What a builder refuses, and what it writes

A builder that is given the calls of a program (`calls`) and asked for the code (`build`) may refuse
it, for the first call that is at fault in one of two passes over the program:

| pass | directive at fault | error |
| --- | --- | --- |
| first | a `bind` of a label that was bound before (`Repeats`) | `duplicateLabel` |
| second | a branch to a label that is never bound | `unboundLabel` |
| second | a branch to an address that is too far away | `distanceOutOfRange` |

A fault of the first pass is reported whatever the second would find, and in the second pass the two
kinds of faults have no precedence but the order of the program (`First`).  Where nothing is at
fault (`Nowhere`), the code is what the directives write, one after the other (`Emits`).  A
directive is at the address where the builder stands when the call is made (`position`), which is
where the bytes before it end, and so is a label; so the distances are those of the code that is
written.
-/

import MethodMachine.Proofs.RoundTrip

namespace MethodMachine

namespace Program

/-- No directive of a program has a property, which may depend on what stands before it. -/
def Nowhere (P : Program → Directive → Prop) (program : Program) : Prop :=
  ∀ before d after, program = before ++ d :: after → ¬P before d

/-- A directive is the first of a program with a property, which may depend on what stands before
it. -/
structure First (P : Program → Directive → Prop) (program before : Program) (d : Directive) :
    Prop where
  stands : ∃ after, program = before ++ d :: after
  meets : P before d
  earlier : Nowhere P before

section

variable {P : Program → Directive → Prop} {rest before : Program} {d d' : Directive}

/-- A program without directives has nothing at fault. -/
theorem nowhere_nil : Nowhere P [] := by
  intro before d after heq
  simp at heq

/-- Nothing is at fault if neither the first directive nor one of the others is. -/
theorem nowhere_cons (hd : ¬P [] d) (h : Nowhere (fun before => P (d :: before)) rest) :
    Nowhere P (d :: rest) := by
  intro before d' after heq
  cases before with
  | nil =>
    cases heq
    exact hd
  | cons first before =>
    cases heq
    exact h before d' after rfl

/-- A first directive that is at fault is the first at fault. -/
theorem first_head (h : P [] d) : First P (d :: rest) [] d :=
  ⟨⟨rest, rfl⟩, h, nowhere_nil⟩

/-- If the first directive is not at fault, the first at fault is that of the others. -/
theorem First.cons (hd : ¬P [] d) (h : First (fun before => P (d :: before)) rest before d') :
    First P (d :: rest) (d :: before) d' := by
  obtain ⟨after, rfl⟩ := h.stands
  exact ⟨⟨after, rfl⟩, h.meets, nowhere_cons hd h.earlier⟩

end

/-! ### The first pass -/

/-- A directive binds a label that was bound before. -/
def Repeats (before : Program) (d : Directive) : Prop := ∃ label, d = .bind label ∧ d ∈ before

/-- A turn of the first pass: what is seen after it are the labels that are bound up to there. -/
theorem firstRepeated?_step {done rest : Program} {d : Directive} {seen : List Label} (start : Nat)
    (hseen : ∀ label, label ∈ seen ↔ .bind label ∈ done) (h : ¬Repeats done d) :
    ∃ seen' start', firstRepeated? seen (labels start (d :: rest)) =
        firstRepeated? seen' (labels start' rest) ∧
      ∀ label, label ∈ seen' ↔ .bind label ∈ done ++ [d] := by
  by_cases hbind : ∃ label, d = .bind label
  · obtain ⟨label, rfl⟩ := hbind
    have hfresh : label ∉ seen := fun hmem => h ⟨label, rfl, (hseen label).1 hmem⟩
    refine ⟨label :: seen, start, if_neg hfresh, fun other => ?_⟩
    simp [hseen other, or_comm]
  · refine ⟨seen, start + d.size, ?_, fun other => ?_⟩
    · cases d with
      | bind label => exact absurd ⟨label, rfl⟩ hbind
      | _ => rfl
    · have hne : .bind other ≠ d := fun heq => hbind ⟨other, heq.symm⟩
      simp [hseen other, hne]

/-- **The first pass finds the first label that is bound again**, where `seen` has the labels that
are bound in `done`, before the program. -/
theorem firstRepeated?_cases (done program : Program) (start : Nat) (seen : List Label)
    (hseen : ∀ label, label ∈ seen ↔ .bind label ∈ done) :
    (firstRepeated? seen (program.labels start) = none ∧
      Nowhere (fun before => Repeats (done ++ before)) program) ∨
    ∃ label before, firstRepeated? seen (program.labels start) = some label ∧
      First (fun before => Repeats (done ++ before)) program before (.bind label) := by
  induction program generalizing done start seen with
  | nil => exact .inl ⟨rfl, nowhere_nil⟩
  | cons d rest ih =>
    by_cases hrepeats : Repeats done d
    · obtain ⟨label, rfl, hmem⟩ := hrepeats
      refine .inr ⟨label, [], if_pos ((hseen label).2 hmem), first_head ⟨label, rfl, ?_⟩⟩
      rw [List.append_nil]
      exact hmem
    · obtain ⟨seen', start', hstep, hseen'⟩ := firstRepeated?_step start hseen hrepeats
      have hscan := ih (done ++ [d]) start' seen' hseen'
      simp only [List.append_assoc, List.singleton_append] at hscan
      rw [← List.append_nil done] at hrepeats
      rw [hstep]
      rcases hscan with ⟨hnone, hnowhere⟩ | ⟨label, before, hsome, hfirst⟩
      · exact .inl ⟨hnone, nowhere_cons hrepeats hnowhere⟩
      · exact .inr ⟨label, d :: before, hsome, hfirst.cons hrepeats⟩

variable {program before : Program} {label : Label}

/-- A program that repeats no label binds each at most once. -/
theorem count_le_one_of_nowhere (h : Nowhere Repeats program) (label : Label) :
    program.count (.bind label) ≤ 1 := by
  refine Nat.le_of_not_lt fun htwice => ?_
  have hpair : List.Sublist (List.replicate 2 (.bind label)) program :=
    List.replicate_sublist_iff.2 htwice
  obtain ⟨front, back, rfl, hfront, hback⟩ := List.cons_sublist_iff.1 hpair
  obtain ⟨between, after, rfl⟩ := List.append_of_mem (List.singleton_sublist.1 hback)
  refine h (front ++ between) (.bind label) after (List.append_assoc ..).symm ?_
  exact ⟨label, rfl, List.mem_append_left _ hfront⟩

/-- A label that is repeated is bound more than once. -/
theorem one_lt_count_of_first (h : First Repeats program before (.bind label)) :
    1 < program.count (.bind label) := by
  obtain ⟨after, rfl⟩ := h.stands
  obtain ⟨_, -, hmem⟩ := h.meets
  have hpos := List.count_pos_iff.2 hmem
  rw [List.count_append, List.count_cons_self]
  omega

end Program

/-! ### The second pass -/

/-- A branch opcode can hold a distance: it fits in 32 bits for `goto_w` and `jsr_w`, and in 16 bits
for all others. -/
def Opcode.Reaches (op : Opcode) (distance : Int) : Prop :=
  if op.isWideBranch then -0x80000000 ≤ distance ∧ distance < 0x80000000
  else -0x8000 ≤ distance ∧ distance < 0x8000

/-- A distance is in reach of an opcode if it is one of the numbers that fit the bytes after it. -/
theorem Opcode.reaches_iff (op : Opcode) (distance : Int) :
    op.Reaches distance ↔
      -(wordCount op.distanceSize) ≤ 2 * distance ∧ 2 * distance < wordCount op.distanceSize := by
  have hnarrow : wordCount 2 = 0x10000 := rfl
  have hwide : wordCount 4 = 0x100000000 := rfl
  unfold Reaches distanceSize
  split <;> omega

namespace Directive

/-- A directive at an address of a program is at fault. -/
inductive Refused (program : Program) (address : Nat) : Directive → AssemblyError → Prop where
  | unbound {opcode : Opcode} {label : Label} : .bind label ∉ program →
    Refused program address (.branch opcode label) (.unboundLabel label)
  | far {opcode : Opcode} {label : Label} {target : Nat} : program.Binds label target →
    ¬opcode.Reaches (target - address) →
    Refused program address (.branch opcode label) (.distanceOutOfRange address target)

/-- A directive at an address of a program writes some bytes. -/
def Writes (program : Program) (address : Nat) (d : Directive) (bytes : List UInt8) : Prop :=
  match d with
  | op opcode => bytes = [opcode]
  | opByte opcode operand => bytes = [opcode, operand]
  | opSignedByte opcode operand => ∃ b, bytes = [opcode, b] ∧ signedWord [b] = operand.toInt
  | opShort opcode operand => ∃ operands, bytes = opcode :: operands ∧ operands.length = 2 ∧
    signedWord operands = operand.toInt
  | increment index delta => ∃ b, bytes = [0x84, index, b] ∧ signedWord [b] = delta.toInt
  | raw given => bytes = given
  | bind _ => bytes = []
  | branch opcode label => ∃ target operands, program.Binds label target ∧
    bytes = opcode :: operands ∧ operands.length = (if opcode.isWideBranch then 4 else 2) ∧
    signedWord operands = (target : Int) - address

end Directive

namespace LabelTable

/-- A table has all labels that a program binds. -/
def Covers (table : LabelTable) (program : Program) : Prop :=
  ∀ label, table.lookup label = none → .bind label ∉ program

/-- The first pass notes all labels. -/
theorem covers_labels (program : Program) : Covers (program.labels 0) program := by
  intro label hlookup hmem
  obtain ⟨(before : Program), (after : Program), rfl⟩ := List.append_of_mem hmem
  have hnoted : (label, before.position) ∈ Program.labels 0 (before ++ .bind label :: after) :=
    Program.mem_labels_iff.2 ⟨_, ⟨before, after, rfl, rfl⟩, (Nat.zero_add _).symm⟩
  have hne := List.lookup_eq_none_iff.1 hlookup _ hnoted
  simp at hne

end LabelTable

namespace Directive

variable {whole : Program} {table : LabelTable} {address : Nat} {d : Directive}
  {block : List UInt8}

/-- A directive writes the bytes that are counted for it. -/
theorem Writes.length_eq (h : d.Writes whole address block) : block.length = d.size := by
  cases d with
  | op | opByte | raw | bind =>
    cases h
    rfl
  | opSignedByte | increment =>
    obtain ⟨b, rfl, -⟩ := h
    rfl
  | opShort =>
    obtain ⟨operands, rfl, hlength, -⟩ := h
    rw [List.length_cons, hlength]
    rfl
  | branch =>
    obtain ⟨target, operands, -, rfl, hlength, -⟩ := h
    rw [List.length_cons, hlength, Nat.add_comm]
    rfl

/-- **A directive writes its bytes, or it is refused**, and never both. -/
theorem block_cases (hresolves : table.Resolves whole) (hcovers : table.Covers whole)
    (address : Nat) (d : Directive) :
    (∃ bytes, d.block table address = .ok bytes ∧ d.Writes whole address bytes ∧
      ∀ e, ¬d.Refused whole address e) ∨
    ∃ e, d.block table address = .error e ∧ d.Refused whole address e := by
  cases d with
  | branch opcode label =>
    cases hlookup : table.lookup label with
    | none =>
      refine .inr ⟨.unboundLabel label, ?_, .unbound (hcovers label hlookup)⟩
      simp only [block, hlookup]
    | some target =>
      have hbinds := hresolves label target hlookup
      by_cases hreaches : opcode.Reaches (target - address)
      · have hfits := (opcode.reaches_iff _).1 hreaches
        refine .inl ⟨opcode :: bigEndian opcode.distanceSize (target - address), ?_, ?_, ?_⟩
        · simp only [block, hlookup, branchBytes, if_pos hfits]
        · exact ⟨target, _, (hbinds target).2 rfl, rfl, length_bigEndian ..,
            signedWord_bigEndian hfits.1 hfits.2⟩
        · intro e hrefused
          cases hrefused with
          | unbound hnot =>
            obtain ⟨before, after, rfl, -⟩ := (hbinds target).2 rfl
            exact hnot (List.mem_append_right _ (List.mem_cons_self ..))
          | far hother hfar =>
            rw [(hbinds _).1 hother] at hfar
            exact hfar hreaches
      · refine .inr ⟨.distanceOutOfRange address target, ?_, .far ((hbinds target).2 rfl) hreaches⟩
        simp only [block, hlookup, branchBytes, if_neg (mt (opcode.reaches_iff _).2 hreaches)]
  | opSignedByte opcode operand =>
    refine .inl ⟨_, rfl, ⟨_, rfl, signedWord_toUInt8 operand⟩, ?_⟩
    rintro e ⟨⟩
  | opShort opcode operand =>
    refine .inl ⟨_, rfl, ⟨_, rfl, length_bigEndian .., signedWord_bigEndian_int16 operand⟩, ?_⟩
    rintro e ⟨⟩
  | increment index delta =>
    refine .inl ⟨_, rfl, ⟨_, rfl, signedWord_toUInt8 delta⟩, ?_⟩
    rintro e ⟨⟩
  | _ =>
    refine .inl ⟨_, rfl, rfl, ?_⟩
    rintro e ⟨⟩

end Directive

namespace Program

/-- A directive of a program is refused, after the calls before it. -/
def Refuses (whole before : Program) (d : Directive) : Prop :=
  ∃ e, d.Refused whole before.position e

/-- Part of a program, at an address, writes some bytes: what its directives write, one after the
other. -/
inductive Emits (whole : Program) : Nat → Program → List UInt8 → Prop where
  | nil {address : Nat} : Emits whole address [] []
  | cons {address : Nat} {d : Directive} {rest : Program} {block bytes : List UInt8} :
    d.Writes whole address block → Emits whole (address + block.length) rest bytes →
    Emits whole address (d :: rest) (block ++ bytes)

variable {program whole before after : Program} {table : LabelTable} {address : Nat}
  {bytes : List UInt8} {label : Label}

/-- So does a program. -/
theorem Emits.length_eq (h : Emits whole address program bytes) :
    bytes.length = program.size := by
  induction h with
  | nil => rfl
  | cons hwrites _ ih => rw [List.length_append, hwrites.length_eq, ih, size]

/-- What the first directives of a program write comes first. -/
theorem Emits.take (h : Emits whole address (before ++ after) bytes) :
    Emits whole address before (bytes.take before.size) := by
  induction before generalizing address bytes with
  | nil => exact .nil
  | cons d before ih =>
    cases h with
    | cons hwrites hrest =>
      rw [size, ← hwrites.length_eq, List.take_length_add_append]
      exact .cons hwrites (ih hrest)

/-- One call more moves the builder by the bytes of its directive. -/
theorem position_append_singleton (done : Program) (d : Directive) :
    position (done ++ [d]) = done.position + d.size := by
  rw [position, Builder.calls, List.foldl_append]
  exact Builder.size_code_call ..

/-- **The second pass writes the program, or stops at the first directive that is refused**, where
`done` are the calls before the program. -/
theorem blocks_cases (hresolves : table.Resolves whole) (hcovers : table.Covers whole)
    (done program : Program) :
    (∃ bytes, program.blocks table done.position = .ok bytes ∧
      Emits whole done.position program bytes ∧
      Nowhere (fun before => Refuses whole (done ++ before)) program) ∨
    ∃ before d e, program.blocks table done.position = .error e ∧
      First (fun before => Refuses whole (done ++ before)) program before d ∧
      d.Refused whole (position (done ++ before)) e := by
  induction program generalizing done with
  | nil => exact .inl ⟨[], rfl, .nil, nowhere_nil⟩
  | cons d rest ih =>
    rcases Directive.block_cases hresolves hcovers done.position d with
      ⟨first, hblock, hwrites, haccepted⟩ | ⟨e, hblock, hrefused⟩
    · have hd : ¬Refuses whole (done ++ []) d := by
        rw [List.append_nil]
        exact fun ⟨e, hrefused⟩ => haccepted e hrefused
      have hscan := ih (done ++ [d])
      simp only [position_append_singleton, List.append_assoc, List.singleton_append] at hscan
      rcases hscan with ⟨bytes, hrest, hemits, hnowhere⟩ | ⟨before, d', e, hrest, hfirst, hrefused⟩
      · refine .inl ⟨first ++ bytes, ?_, ?_, nowhere_cons hd hnowhere⟩
        · rw [blocks, hblock, hrest]
          rfl
        · rw [← hwrites.length_eq] at hemits
          exact .cons hwrites hemits
      · refine .inr ⟨d :: before, d', e, ?_, hfirst.cons hd, hrefused⟩
        rw [blocks, hblock, hrest]
        rfl
    · rw [← List.append_nil done] at hrefused
      refine .inr ⟨[], d, e, ?_, first_head ⟨e, hrefused⟩, hrefused⟩
      rw [blocks, hblock]

/-! ### Both passes -/

/-- The first pass over a whole program. -/
theorem firstRepeated?_whole (program : Program) :
    (firstRepeated? [] (program.labels 0) = none ∧ Nowhere Repeats program) ∨
    ∃ label before, firstRepeated? [] (program.labels 0) = some label ∧
      First Repeats program before (.bind label) :=
  firstRepeated?_cases [] program 0 [] fun _ => iff_of_false List.not_mem_nil List.not_mem_nil

/-- A program that binds no label twice comes to what its second pass comes to. -/
theorem build_cases (h : ∀ label, program.count (.bind label) ≤ 1) :
    (∃ code, (Builder.new.calls program).build = .ok code ∧ Emits program 0 program code.toList ∧
      Nowhere (Refuses program) program) ∨
    ∃ before d e, (Builder.new.calls program).build = .error e ∧
      First (Refuses program) program before d ∧ d.Refused program before.position e := by
  rcases firstRepeated?_whole program with ⟨hnone, -⟩ | ⟨label, before, -, hfirst⟩
  · rw [build_of_not_repeated hnone]
    rcases blocks_cases (LabelTable.resolves_labels hnone) (LabelTable.covers_labels program)
      [] program with ⟨bytes, hblocks, hemits, hnowhere⟩ | ⟨before, d, e, hblocks, hfirst, hrefused⟩
    · exact .inl ⟨bytes.toArray, congrArg (Except.map List.toArray) hblocks, hemits, hnowhere⟩
    · exact .inr ⟨before, d, e, congrArg (Except.map List.toArray) hblocks, hfirst, hrefused⟩
  · exact absurd (one_lt_count_of_first hfirst) (Nat.not_lt.2 (h label))

/-- **What a builder refuses, and what it writes.**  If some label is bound more than once, the
calls are refused for the first label that is bound again, whatever else is at fault.  Otherwise, if
some branch is to a label that is never bound or to an address too far away, the calls are refused
for the first such branch.  Otherwise there is code, and it is what the directives write, one after
the other: where the builder stood before a call, which is the address of a label that is bound
there, is where the bytes of the calls before it end.  The places noted for distances lie in the
code and do not overlap, and all other bytes are those that the calls appended. -/
theorem assembler_refuses_first_fault (program : Program) :
    (Builder.new.calls program).Orderly ∧
    ((∃ label, 1 < program.count (.bind label)) →
      ∃ before label, First Repeats program before (.bind label) ∧
        (Builder.new.calls program).build = .error (.duplicateLabel label)) ∧
    ((∀ label, program.count (.bind label) ≤ 1) → ¬Nowhere (Refuses program) program →
      ∃ before d e, First (Refuses program) program before d ∧
        d.Refused program before.position e ∧ (Builder.new.calls program).build = .error e) ∧
    ((∀ label, program.count (.bind label) ≤ 1) → Nowhere (Refuses program) program →
      ∃ code, (Builder.new.calls program).build = .ok code ∧ Emits program 0 program code.toList ∧
        (∀ before after, program = before ++ after →
          Emits program 0 before (code.toList.take before.position) ∧
            (code.toList.take before.position).length = before.position) ∧
        code.size = (Builder.new.calls program).code.size ∧
        ∀ i, (∀ fixup ∈ (Builder.new.calls program).fixups.toList, ¬fixup.Covers i) →
          code[i]? = (Builder.new.calls program).code[i]?) := by
  refine ⟨Builder.orderly_calls Builder.orderly_new program, ?_, ?_, ?_⟩
  · rintro ⟨label, htwice⟩
    rcases firstRepeated?_whole program with ⟨-, hnowhere⟩ | ⟨again, before, hsome, hfirst⟩
    · exact absurd htwice (Nat.not_lt.2 (count_le_one_of_nowhere hnowhere label))
    · exact ⟨before, again, hfirst, build_of_repeated hsome⟩
  · intro honce hsomewhere
    rcases build_cases honce with ⟨code, -, -, hnowhere⟩ | ⟨before, d, e, herror, hfirst, hrefused⟩
    · exact absurd hnowhere hsomewhere
    · exact ⟨before, d, e, hfirst, hrefused, herror⟩
  · intro honce hnowhere
    rcases build_cases honce with ⟨code, hcode, hemits, -⟩ | ⟨before, d, e, -, hfirst, -⟩
    · refine ⟨code, hcode, hemits, ?_, Builder.build_keeps hcode⟩
      rintro before after rfl
      rw [position_eq_size]
      exact ⟨hemits.take, hemits.take.length_eq⟩
    · obtain ⟨after, hprogram⟩ := hfirst.stands
      exact absurd hfirst.meets (hnowhere before d after hprogram)

/-- A label that is bound twice is reported, though the first branch is to no label at all. -/
example : (Builder.new.calls [.branch 0xA7 1, .bind 2, .op 0x00, .bind 2, .bind 3, .bind 3]).build =
    .error (.duplicateLabel 2) := by decide +kernel

end Program

end MethodMachine
