/-
# What hexadecimal text stands for, whatever its layout

The characters of a text that count (`Hex.stripped`) are found line by line: a comment is cut off
from its `#` on, and of what stands before it the blanks are dropped.  The reader does not look at
lines.  It goes over the text once and remembers whether it is inside a comment
(`Hex.opensComment`), and the two ways leave the same characters (`significant_eq_stripped`).

What is left is read in pairs (`Hex.pairs`), and the reader fails for the first of these reasons:

| reason | error |
| --- | --- |
| a character has no partner | `oddDigits` |
| a pair is no byte (`IsByte`), and none before it | `invalidByte` |

A pair of hexadecimal digits is a byte, and so is a plus sign with a digit.  The second kind makes
the reader accept more than hexadecimal text; without plus signs it accepts that and nothing else.
-/

import MethodMachine.Text.Hex

namespace MethodMachine

namespace Hex

/-! ### Comments and blanks -/

/-- The characters that count, line by line: those before the first `#` that are not blank. -/
def ofLine (line : List Char) : List Char :=
  (line.takeWhile (· ≠ '#')).filter fun c => !Text.isBlank c

theorem ofLine_cons (c : Char) (line : List Char) :
    ofLine (c :: line) =
      if c = '#' then [] else [c].filter (fun c => !Text.isBlank c) ++ ofLine line := by
  by_cases hcomment : c = '#'
  · simp [ofLine, hcomment]
  · simp [ofLine, hcomment, ← List.filter_append]

/-- The characters of a text that count. -/
def stripped (text : String) : List Char := (text.toList.splitOn '\n').flatMap ofLine

/-- The characters after the last newline. -/
def lastLine (text : List Char) : List Char := (text.reverse.takeWhile (· ≠ '\n')).reverse

/-- Whether a comment is open after a character. -/
def opensComment (inside : Bool) (c : Char) : Bool := c ≠ '\n' && (inside || c = '#')

theorem withoutComments_cons (inside : Bool) (c : Char) (rest : List Char) :
    withoutComments inside (c :: rest) =
      (if opensComment inside c then [] else [c]) ++
        withoutComments (opensComment inside c) rest := by
  by_cases hnewline : c = '\n'
  · simp [withoutComments, opensComment, hnewline]
  · cases hcomment : inside || c = '#' <;>
      simp [withoutComments, opensComment, hnewline, hcomment]

/-- A text is read piece by piece; what goes on into the next piece is whether a comment is open. -/
theorem withoutComments_append (inside : Bool) (a b : List Char) :
    withoutComments inside (a ++ b) =
      withoutComments inside a ++ withoutComments (a.foldl opensComment inside) b := by
  induction a generalizing inside with
  | nil => rfl
  | cons c rest ih => simp only [List.cons_append, withoutComments_cons, ih, List.foldl_cons,
      List.append_assoc]

theorem significant_append (a b : List Char) :
    significant (a ++ b) = significant a ++
      (withoutComments (a.foldl opensComment false) b).filter fun c => !Text.isBlank c := by
  simp only [significant, withoutComments_append, List.filter_append]

/-- A comment is open at the end of a text exactly if its last line has a `#`. -/
theorem foldl_opensComment (text : List Char) :
    text.foldl opensComment false = decide ('#' ∈ lastLine text) := by
  rw [← List.reverse_reverse text, List.foldl_reverse, lastLine, List.reverse_reverse]
  induction text.reverse with
  | nil => rfl
  | cons c rest ih =>
    rw [List.foldr_cons, ih]
    by_cases hnewline : c = '\n'
    · simp [opensComment, hnewline]
    · simp [opensComment, hnewline, Bool.or_comm, eq_comm]

/-- A comment drops all characters up to the end of its line. -/
theorem withoutComments_of_no_newline {c : List Char} (hc : '\n' ∉ c) (b : List Char) :
    withoutComments true (c ++ '\n' :: b) = '\n' :: withoutComments false b := by
  induction c with
  | nil => rfl
  | cons x rest ih =>
    have hx : x ≠ '\n' := fun h => hc (h ▸ List.mem_cons_self)
    have hrest : '\n' ∉ rest := fun h => hc (List.mem_cons_of_mem x h)
    simp [withoutComments, hx, ih hrest]

/-- What is kept from some place on: of the current line nothing if a comment is open, and else what
the line keeps, and then what the other lines keep. -/
theorem filter_withoutComments {cs : List Char} (inside : Bool) {line : List Char}
    {others : List (List Char)} (hsplit : cs.splitOn '\n' = line :: others) :
    (withoutComments inside cs).filter (fun c => !Text.isBlank c) =
      (if inside then [] else ofLine line) ++ others.flatMap ofLine := by
  induction cs generalizing inside line others with
  | nil =>
    cases hsplit
    cases inside <;> rfl
  | cons c rest ih =>
    obtain ⟨next, more, hrest⟩ := List.exists_cons_of_ne_nil (List.splitOn_ne_nil '\n' rest)
    rw [List.splitOn_cons_eq_if_modifyHead, hrest] at hsplit
    rw [withoutComments_cons, List.filter_append, ih _ hrest]
    by_cases hnewline : c = '\n'
    · subst hnewline
      cases hsplit
      cases inside <;> rfl
    · rw [if_neg (by simpa using hnewline)] at hsplit
      cases hsplit
      cases inside <;> by_cases hcomment : c = '#' <;>
        simp [opensComment, ofLine_cons, hnewline, hcomment]

/-- **The one pass of the reader keeps what the lines of the text keep.** -/
theorem significant_eq_stripped (text : String) : significant text.toList = stripped text := by
  obtain ⟨line, others, hsplit⟩ :=
    List.exists_cons_of_ne_nil (List.splitOn_ne_nil '\n' text.toList)
  rw [significant, filter_withoutComments false hsplit, stripped, hsplit]
  rfl

/-- Blanks other than the newline may stand anywhere. -/
theorem significant_insert_blank (a b : List Char) {w : Char} (hblank : Text.isBlank w)
    (hnewline : w ≠ '\n') : significant (a ++ w :: b) = significant (a ++ b) := by
  have hcomment : w ≠ '#' := by
    rintro rfl
    exact absurd hblank (by decide)
  rw [significant_append, significant_append, withoutComments_cons]
  cases a.foldl opensComment false <;> simp [opensComment, hnewline, hcomment, hblank]

/-- A comment, with the newline that ends it, may stand wherever none is open. -/
theorem significant_insert_comment {a c : List Char} (b : List Char) (hc : '\n' ∉ c)
    (ha : '#' ∉ lastLine a) :
    significant (a ++ '#' :: (c ++ '\n' :: b)) = significant (a ++ b) := by
  have hblank : Text.isBlank '\n' = true := by decide
  rw [significant_append, significant_append, foldl_opensComment, decide_eq_false ha,
    withoutComments_cons]
  simp [opensComment, withoutComments_of_no_newline hc, hblank]

/-! ### Pairs -/

/-- A hexadecimal digit of either case. -/
def IsDigit (c : Char) : Prop :=
  '0' ≤ c ∧ c ≤ '9' ∨ 'a' ≤ c ∧ c ≤ 'f' ∨ 'A' ≤ c ∧ c ≤ 'F'

instance (c : Char) : Decidable (IsDigit c) := inferInstanceAs (Decidable (_ ∨ _))

/-- A pair of characters that stands for a byte. -/
def IsByte (pair : Char × Char) : Prop := (IsDigit pair.1 ∨ pair.1 = '+') ∧ IsDigit pair.2

instance (pair : Char × Char) : Decidable (IsByte pair) := inferInstanceAs (Decidable (_ ∧ _))

/-- The characters two by two; a last one without a partner is left out. -/
def pairs : List Char → List (Char × Char)
  | first :: second :: rest => (first, second) :: pairs rest
  | _ => []

/-- The first pair that is no byte. -/
def firstBad? (cs : List Char) : Option (Char × Char) :=
  (pairs cs).find? fun pair => !decide (IsByte pair)

theorem firstBad?_eq_none_iff {cs : List Char} :
    firstBad? cs = none ↔ ∀ pair ∈ pairs cs, IsByte pair := by
  simp [firstBad?]

theorem digit?_cases (c : Char) :
    (IsDigit c ∧ ∃ n, digit? c = some n) ∨ (¬IsDigit c ∧ digit? c = none) := by
  unfold digit? IsDigit
  split
  · exact .inl ⟨.inl ‹_›, _, rfl⟩
  · split
    · exact .inl ⟨.inr (.inl ‹_›), _, rfl⟩
    · split
      · exact .inl ⟨.inr (.inr ‹_›), _, rfl⟩
      · exact .inr ⟨by simp_all, rfl⟩

theorem byte?_cases (first second : Char) :
    (IsByte (first, second) ∧ ∃ byte, byte? first second = some byte) ∨
      (¬IsByte (first, second) ∧ byte? first second = none) := by
  unfold byte? IsByte
  rcases digit?_cases second with ⟨hsecond, low, hlow⟩ | ⟨hsecond, hlow⟩
  · by_cases hplus : first = '+'
    · exact .inl ⟨⟨.inr hplus, hsecond⟩, by simp [hplus, hlow]⟩
    · rcases digit?_cases first with ⟨hfirst, high, hhigh⟩ | ⟨hfirst, hhigh⟩
      · exact .inl ⟨⟨.inl hfirst, hsecond⟩, by simp [hplus, hlow, hhigh]⟩
      · exact .inr ⟨by simp [hfirst, hplus], by simp [hplus, hhigh]⟩
  · exact .inr ⟨fun h => hsecond h.2, by cases hfirst : digit? first <;> simp [hlow]⟩

/-- **Pairs are read up to the first that is no byte.** -/
theorem readPairs_cases (cs : List Char) (heven : cs.length % 2 = 0) :
    (firstBad? cs = none ∧ ∃ bytes, readPairs cs = .ok bytes) ∨
      (∃ pair, firstBad? cs = some pair ∧
        readPairs cs = .error (.invalidByte pair.1 pair.2)) := by
  fun_induction readPairs cs with
  | case1 => exact .inl ⟨rfl, [], rfl⟩
  | case2 => simp at heven
  | case3 first second rest hbyte =>
    rcases byte?_cases first second with ⟨-, byte, hsome⟩ | ⟨hbad, -⟩
    · simp [hsome] at hbyte
    · exact .inr ⟨(first, second), by simp [firstBad?, pairs, hbad], rfl⟩
  | case4 first second rest byte hbyte ih =>
    have hgood : IsByte (first, second) := by
      rcases byte?_cases first second with ⟨hgood, -⟩ | ⟨-, hnone⟩
      · exact hgood
      · simp [hnone] at hbyte
    have hfirst : firstBad? (first :: second :: rest) = firstBad? rest := by
      simp [firstBad?, pairs, hgood]
    have hrest : rest.length % 2 = 0 := by
      rw [List.length_cons, List.length_cons] at heven
      omega
    rw [hfirst]
    rcases ih hrest with ⟨hnone, bytes, hok⟩ | ⟨pair, hsome, herror⟩
    · exact .inl ⟨hnone, byte :: bytes, by rw [hok]; rfl⟩
    · exact .inr ⟨pair, hsome, by rw [herror]; rfl⟩

/-- **The reasons for which a text is refused, in their order.** -/
theorem read_cases (text : String) :
    ((stripped text).length % 2 = 1 ∧ read text = .error .oddDigits) ∨
    ((stripped text).length % 2 = 0 ∧ firstBad? (stripped text) = none ∧
      ∃ bytes, read text = .ok bytes) ∨
    ((stripped text).length % 2 = 0 ∧ ∃ pair, firstBad? (stripped text) = some pair ∧
      read text = .error (.invalidByte pair.1 pair.2)) := by
  rw [read, significant_eq_stripped]
  rcases Nat.mod_two_eq_zero_or_one (stripped text).length with heven | hodd
  · rw [if_neg (by omega)]
    rcases readPairs_cases (stripped text) heven with hgood | hbad
    · exact .inr (.inl ⟨heven, hgood⟩)
    · exact .inr (.inr ⟨heven, hbad⟩)
  · exact .inl ⟨hodd, if_pos hodd⟩

/-- What is read depends on the characters that count, and on nothing else. -/
theorem read_of_significant_eq {a b : String} (h : significant a.toList = significant b.toList) :
    read a = read b := by
  rw [read, read, h]

/-! ### Bytes written in hexadecimal -/

/-- The lower-case text of bytes, two digits each. -/
def ofBytes (bytes : List UInt8) : List Char :=
  bytes.flatMap fun b => [Nat.digitChar (b.toNat / 16), Nat.digitChar (b.toNat % 16)]

theorem IsDigit.toNat_mem {c : Char} (h : IsDigit c) :
    48 ≤ c.toNat ∧ c.toNat ≤ 57 ∨ 97 ≤ c.toNat ∧ c.toNat ≤ 102 ∨
      65 ≤ c.toNat ∧ c.toNat ≤ 70 := h

theorem isBlank_of_isDigit {c : Char} (h : IsDigit c) : Text.isBlank c = false := by
  have hrange := h.toNat_mem
  simp only [Text.isBlank, Bool.or_eq_false_iff, Bool.and_eq_false_imp, decide_eq_true_eq,
    decide_eq_false_iff_not]
  omega

/-- A character is its lower-case form or the upper-case one of that. -/
theorem eq_toLower_or_eq_toUpper (c : Char) : c = c.toLower ∨ c = c.toLower.toUpper := by
  by_cases hupper : 'A'.val ≤ c.val ∧ c.val ≤ 'Z'.val
  · right
    have hlow : 65 ≤ c.toNat := hupper.1
    have hhigh : c.toNat ≤ 90 := hupper.2
    have hlower : (97 : UInt32) ≤ c.val + 32 ∧ c.val + 32 ≤ 122 := by
      simp only [UInt32.le_iff_toNat_le, UInt32.toNat_add, Char.toNat_val, UInt32.reduceToNat]
      omega
    obtain ⟨hvalid, hlowered⟩ : ∃ h, c.toLower = ⟨c.val + ('a'.val - 'A'.val), h⟩ :=
      ⟨_, dif_pos hupper⟩
    rw [hlowered]
    refine Eq.trans ?_ (dif_pos hlower).symm
    apply Char.ext
    show c.val = c.val + ('a'.val - 'A'.val) + ('A'.val - 'a'.val)
    rw [UInt32.add_assoc]
    exact (UInt32.add_zero c.val).symm
  · have hlowered : c.toLower = c := dif_neg hupper
    exact .inl hlowered.symm

theorem digit?_digitChar : ∀ n : Fin 16,
    digit? (Nat.digitChar n) = some n.val ∧ digit? (Nat.digitChar n).toUpper = some n.val := by
  decide

/-- A digit of either case has the value of the lower-case one. -/
theorem digit?_of_toLower {c : Char} {n : Nat} (hn : n < 16) (h : c.toLower = Nat.digitChar n) :
    digit? c = some n := by
  obtain ⟨hlower, hupper⟩ := digit?_digitChar ⟨n, hn⟩
  rcases eq_toLower_or_eq_toUpper c with hc | hc
  · rw [hc, h]
    exact hlower
  · rw [hc, h]
    exact hupper

theorem isDigit_of_digit? {c : Char} {n : Nat} (h : digit? c = some n) : IsDigit c := by
  rcases digit?_cases c with ⟨hdigit, -⟩ | ⟨-, hnone⟩
  · exact hdigit
  · simp [h] at hnone

/-- A text of digits alone has neither comments nor blanks. -/
theorem significant_of_isDigit {cs : List Char} (h : ∀ c ∈ cs, IsDigit c) :
    significant cs = cs := by
  induction cs with
  | nil => rfl
  | cons c rest ih =>
    have hc : IsDigit c := h c List.mem_cons_self
    have hrest := ih fun d hd => h d (List.mem_cons_of_mem c hd)
    have hopen : opensComment false c = false := by
      have hcomment : c ≠ '#' := by
        rintro rfl
        exact absurd hc.toNat_mem (by decide)
      simp [opensComment, hcomment]
    rw [significant] at hrest ⊢
    simp [withoutComments_cons, hopen, isBlank_of_isDigit hc, hrest]

/-- Digits of either case are read as the bytes they were written for. -/
theorem readPairs_of_toLower {cs : List Char} {bytes : List UInt8}
    (h : cs.map Char.toLower = ofBytes bytes) :
    (∀ c ∈ cs, IsDigit c) ∧ cs.length % 2 = 0 ∧ readPairs cs = .ok bytes := by
  induction bytes generalizing cs with
  | nil =>
    obtain rfl : cs = [] := by simpa [ofBytes] using h
    exact ⟨by simp, rfl, rfl⟩
  | cons byte bytes ih =>
    obtain ⟨first, others, rfl, hfirst, hothers⟩ := List.map_eq_cons_iff.1 h
    obtain ⟨second, rest, rfl, hsecond, hrest⟩ := List.map_eq_cons_iff.1 hothers
    obtain ⟨hdigits, heven, hread⟩ := ih hrest
    have hlt := byte.toNat_lt
    have hhigh := digit?_of_toLower (by omega) hfirst
    have hlow := digit?_of_toLower (by omega) hsecond
    have hplus : first ≠ '+' := by
      rintro rfl
      exact absurd hhigh (by simp [digit?])
    have hbyte : byte? first second = some byte := by
      have hvalue : UInt8.ofNat (16 * (byte.toNat / 16) + byte.toNat % 16) = byte := by
        rw [Nat.div_add_mod, UInt8.ofNat_toNat]
      rw [byte?, if_neg hplus, hhigh, hlow]
      exact congrArg some hvalue
    refine ⟨?_, ?_, ?_⟩
    · simpa [isDigit_of_digit? hhigh, isDigit_of_digit? hlow] using hdigits
    · rw [List.length_cons, List.length_cons]
      omega
    · simp [readPairs, hbyte, hread, Except.map]

/-- **Layout is ignored, and what is left is decoded.**  Bytes that are written in hexadecimal, each
letter in either case, are read back.  A blank other than the newline changes nothing, wherever it
stands, and neither does a comment with its newline after a text whose last line has no `#`; this is
so for errors too, which are an odd number of characters, and else the first pair that is no
byte. -/
theorem layout_is_ignored :
    (∀ (bytes : List UInt8) (text : String),
      text.toList.map Char.toLower = ofBytes bytes → read text = .ok bytes) ∧
    (∀ (a b : String) (w : Char), Text.isBlank w → w ≠ '\n' →
      read (a ++ w.toString ++ b) = read (a ++ b)) ∧
    (∀ a b c : String, '\n' ∉ c.toList → '#' ∉ lastLine a.toList →
      read (a ++ "#" ++ c ++ "\n" ++ b) = read (a ++ b)) ∧
    (∀ text : String, (stripped text).length % 2 = 1 → read text = .error .oddDigits) ∧
    (∀ (text : String) (pair : Char × Char), (stripped text).length % 2 = 0 →
      firstBad? (stripped text) = some pair →
        read text = .error (.invalidByte pair.1 pair.2)) := by
  refine ⟨?_, ?_, ?_, ?_, ?_⟩
  · intro bytes text htext
    obtain ⟨hdigits, heven, hread⟩ := readPairs_of_toLower htext
    rw [read, significant_of_isDigit hdigits, if_neg (by omega), hread]
  · intro a b w hblank hnewline
    apply read_of_significant_eq
    simpa using significant_insert_blank a.toList b.toList hblank hnewline
  · intro a b c hc ha
    apply read_of_significant_eq
    simpa using significant_insert_comment b.toList hc ha
  · intro text hodd
    rcases read_cases text with ⟨-, herror⟩ | ⟨heven, -⟩ | ⟨heven, -⟩
    · exact herror
    · omega
    · omega
  · intro text pair heven hpair
    rcases read_cases text with ⟨hodd, -⟩ | ⟨-, hnone, -⟩ | ⟨-, other, hother, herror⟩
    · omega
    · simp [hpair] at hnone
    · obtain rfl : pair = other := Option.some.inj (hpair.symm.trans hother)
      exact herror

/-- Properties of both characters of all pairs are properties of all characters. -/
theorem forall_mem_pairs_iff {P : Char → Prop} {cs : List Char} (heven : cs.length % 2 = 0) :
    (∀ pair ∈ pairs cs, P pair.1 ∧ P pair.2) ↔ ∀ c ∈ cs, P c := by
  induction cs using pairs.induct with
  | case1 first second rest ih =>
    have hrest : rest.length % 2 = 0 := by
      rw [List.length_cons, List.length_cons] at heven
      omega
    rw [pairs, List.forall_mem_cons, List.forall_mem_cons, List.forall_mem_cons, ih hrest,
      and_assoc]
  | case2 cs hshort =>
    match cs, heven, hshort with
    | [], _, _ => simp [pairs]
    | [_], heven, _ => simp at heven
    | first :: second :: rest, _, hshort => exact absurd rfl (hshort first second rest)

theorem exists_read_iff (text : String) :
    (∃ bytes, read text = .ok bytes) ↔
      (stripped text).length % 2 = 0 ∧ ∀ pair ∈ pairs (stripped text), IsByte pair := by
  rw [← firstBad?_eq_none_iff]
  rcases read_cases text with ⟨hodd, herror⟩ | ⟨heven, hnone, hok⟩ | ⟨heven, pair, hsome, herror⟩
  · simp [hodd, herror]
  · simp [heven, hnone, hok]
  · simp [heven, hsome, herror]

/-- **What the reader accepts.**  The characters that count must come in pairs, and each pair must
be two hexadecimal digits or a plus sign and a digit.  So the texts that are accepted and have no
plus sign are exactly the hexadecimal ones. -/
theorem reader_accepts_digits_and_plus_signs (text : String) :
    ((∃ bytes, read text = .ok bytes) ↔ (stripped text).length % 2 = 0 ∧
      ∀ pair ∈ pairs (stripped text), (IsDigit pair.1 ∨ pair.1 = '+') ∧ IsDigit pair.2) ∧
    ((∃ bytes, read text = .ok bytes) ∧ '+' ∉ stripped text ↔
      (stripped text).length % 2 = 0 ∧ ∀ c ∈ stripped text, IsDigit c) := by
  have hplus : ¬IsDigit '+' := by decide
  refine ⟨exists_read_iff text, ?_⟩
  rw [exists_read_iff, and_assoc, and_congr_right_iff]
  intro heven
  rw [← forall_mem_pairs_iff heven]
  constructor
  · rintro ⟨hbytes, hnone⟩
    have hothers := (forall_mem_pairs_iff heven).2 fun c hc => ne_of_mem_of_not_mem hc hnone
    exact fun pair hpair =>
      ⟨(hbytes pair hpair).1.resolve_right (hothers pair hpair).1, (hbytes pair hpair).2⟩
  · intro hdigits
    refine ⟨fun pair hpair => ⟨.inl (hdigits pair hpair).1, (hdigits pair hpair).2⟩, fun hmem => ?_⟩
    exact hplus ((forall_mem_pairs_iff heven).1 hdigits '+' hmem)

/-- A plus sign is no hexadecimal digit, and is accepted in front of one. -/
theorem reader_accepts_plus_sign :
    ¬∀ text : String, (∃ bytes, read text = .ok bytes) ↔
      (stripped text).length % 2 = 0 ∧ ∀ c ∈ stripped text, IsDigit c := by
  intro h
  have haccepted : read "+f" = .ok [0x0F] := by rfl
  have hplus : '+' ∈ stripped "+f" := by decide +kernel
  have hdigit : ¬IsDigit '+' := by decide
  exact hdigit (((h "+f").1 ⟨_, haccepted⟩).2 '+' hplus)

end Hex

end MethodMachine
