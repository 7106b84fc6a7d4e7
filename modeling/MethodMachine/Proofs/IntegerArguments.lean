/-
# Integers and texts as arguments

An integer is read digit by digit, and each digit is checked before the next one is looked at.  What
comes of it can be said of the text as a whole.  Let `r` be the text after an optional sign
(`Literal.unsigned`) and `p` the digits that `r` begins with (`Literal.leadingDigits`).  The signed
value of `p` (`Literal.leadingValue`) decides first, then whether `p` is all of `r`:

| text | result |
| --- | --- |
| empty | `emptyInteger` |
| the value is above the range | `tooLarge` |
| the value is below the range | `tooSmall` |
| the value is in range, `p` is empty or not all of `r` | `invalidDigit` |
| the value is in range, `p` is all of `r` and not empty | the value |

So a character that is no digit is reported only if the digits before it do not already leave the
range, however many zeros they begin with.  The text that an integer is written as is in the last
row, and its value is the integer (`denotes_integerText`).
-/

import MethodMachine.CommandLine.Argument

namespace MethodMachine

namespace Literal

/-! ### The parts of an integer -/

/-- Whether a text begins with a minus sign. -/
def isNegative (text : List Char) : Bool := text.head? = some '-'

/-- A text without the sign that it may begin with. -/
def unsigned : List Char → List Char
  | '-' :: rest => rest
  | '+' :: rest => rest
  | text => text

/-- The digits of a text up to the first other character, after the sign. -/
def leadingDigits (text : List Char) : List Char := (unsigned text).takeWhile Char.isDigit

/-- The integer that the sign of a text and its leading digits denote. -/
def leadingValue (text : List Char) : Int :=
  signed (isNegative text) (digitsValue (leadingDigits text))

/-- Why a text that is no integer between `low` and `high` is refused. -/
def refusal (low high : Int) (text : List Char) : LiteralError :=
  if text = [] then .emptyInteger
  else if low ≤ leadingValue text ∧ leadingValue text ≤ high then .invalidDigit
  else if isNegative text then .tooSmall
  else .tooLarge

/-- A text is an optional sign and one or more digits that denote an integer. -/
structure Denotes (text : List Char) (n : Int) : Prop where
  digits : leadingDigits text = unsigned text
  nonempty : leadingDigits text ≠ []
  value : leadingValue text = n

/-- A text is empty, or it begins with a sign, or it is its own unsigned part. -/
theorem sign_cases (text : List Char) :
    text = [] ∨
    (∃ rest, text = '-' :: rest ∧ isNegative text = true ∧ unsigned text = rest) ∨
    (∃ rest, text = '+' :: rest ∧ isNegative text = false ∧ unsigned text = rest) ∨
    (∃ c rest, text = c :: rest ∧ c ≠ '-' ∧ c ≠ '+' ∧ isNegative text = false ∧
      unsigned text = text) := by
  cases text with
  | nil => exact .inl rfl
  | cons c rest =>
    by_cases hminus : c = '-'
    · subst hminus
      exact .inr (.inl ⟨rest, rfl, rfl, rfl⟩)
    · by_cases hplus : c = '+'
      · subst hplus
        exact .inr (.inr (.inl ⟨rest, rfl, rfl, rfl⟩))
      · refine .inr (.inr (.inr ⟨c, rest, rfl, hminus, hplus, ?_, ?_⟩))
        · simp [isNegative, hminus]
        · simp [unsigned, hminus, hplus]

/-! ### Reading digits -/

theorem le_ofDigitChars (digits : List Char) (value : Nat) :
    value ≤ Nat.ofDigitChars 10 digits value := by
  induction digits generalizing value with
  | nil => simp
  | cons c rest ih =>
    rw [Nat.ofDigitChars_cons]
    have hnext := ih (10 * value + (c.toNat - '0'.toNat))
    omega

/-- **The loop over the digits.**  As long as the value is in range, the outcome is told by the
digits ahead: whether they leave the range, and whether anything else comes after them. -/
theorem readDigits_eq {limit : Nat} (beyond : LiteralError) {value : Nat} (hvalue : value ≤ limit)
    (text : List Char) :
    readDigits limit beyond value text =
      if limit < Nat.ofDigitChars 10 (text.takeWhile Char.isDigit) value then .error beyond
      else if text.takeWhile Char.isDigit = text then
        .ok (Nat.ofDigitChars 10 (text.takeWhile Char.isDigit) value)
      else .error .invalidDigit := by
  induction text generalizing value with
  | nil => simp [readDigits, Nat.not_lt.2 hvalue]
  | cons c rest ih =>
    by_cases hdigit : c.isDigit
    · have hcons : Nat.ofDigitChars 10 (c :: rest.takeWhile Char.isDigit) value =
          Nat.ofDigitChars 10 (rest.takeWhile Char.isDigit) (10 * value + digitValue c) :=
        Nat.ofDigitChars_cons
      rw [List.takeWhile_cons_of_pos hdigit, hcons]
      by_cases hnext : 10 * value + digitValue c ≤ limit
      · simp [readDigits, hdigit, hnext, ih hnext]
      · have hlater := le_ofDigitChars (rest.takeWhile Char.isDigit) (10 * value + digitValue c)
        rw [if_pos (Nat.lt_of_lt_of_le (Nat.not_le.1 hnext) hlater)]
        simp [readDigits, hdigit, hnext]
    · rw [List.takeWhile_cons_of_neg hdigit, Nat.ofDigitChars_nil, if_neg (Nat.not_lt.2 hvalue)]
      simp [readDigits, hdigit]

theorem readMagnitude_eq (limit : Nat) (beyond : LiteralError) (text : List Char) :
    readMagnitude limit beyond text =
      if limit < digitsValue (text.takeWhile Char.isDigit) then .error beyond
      else if text.takeWhile Char.isDigit = text ∧ text.takeWhile Char.isDigit ≠ [] then
        .ok (digitsValue (text.takeWhile Char.isDigit))
      else .error .invalidDigit := by
  cases text with
  | nil => simp [readMagnitude, digitsValue]
  | cons c rest =>
    by_cases hall : (c :: rest).takeWhile Char.isDigit = c :: rest <;>
      simp [readMagnitude, readDigits_eq beyond (Nat.zero_le limit), digitsValue, hall]

/-- The sign decides which end of the range counts. -/
theorem readInteger_of_ne_nil (low high : Nat) {text : List Char} (h : text ≠ []) :
    readInteger low high text =
      (readMagnitude (if isNegative text then low else high)
        (if isNegative text then .tooSmall else .tooLarge) (unsigned text)).map
        (signed (isNegative text)) := by
  rcases sign_cases text with rfl | ⟨rest, rfl, hsign, hunsigned⟩ | ⟨rest, rfl, hsign, hunsigned⟩ |
    ⟨c, rest, rfl, hminus, hplus, hsign, hunsigned⟩
  · exact absurd rfl h
  · rw [hsign, hunsigned, if_pos rfl, if_pos rfl, readInteger]
    cases readMagnitude low .tooSmall rest <;> rfl
  · rw [hsign, hunsigned, if_neg Bool.false_ne_true, if_neg Bool.false_ne_true, readInteger]
    cases readMagnitude high .tooLarge rest <;> rfl
  · rw [hsign, hunsigned, if_neg Bool.false_ne_true, if_neg Bool.false_ne_true, readInteger]
    · cases readMagnitude high .tooLarge (c :: rest) <;> rfl
    · simp
    · simp [hminus]
    · simp [hplus]

theorem signed_in_range (negative : Bool) (low high magnitude : Nat) :
    (-low ≤ signed negative magnitude ∧ signed negative magnitude ≤ high) ↔
      ¬(if negative then low else high) < magnitude := by
  cases negative with
  | true =>
    show -(low : Int) ≤ -(magnitude : Int) ∧ -(magnitude : Int) ≤ high ↔ ¬low < magnitude
    omega
  | false =>
    show -(low : Int) ≤ (magnitude : Int) ∧ (magnitude : Int) ≤ high ↔ ¬high < magnitude
    omega

/-- **An integer is read exactly if it is one and in range, and otherwise the reason is told.** -/
theorem readInteger_eq (low high : Nat) (text : List Char) :
    readInteger low high text =
      if (leadingDigits text = unsigned text ∧ leadingDigits text ≠ []) ∧
        -low ≤ leadingValue text ∧ leadingValue text ≤ high then .ok (leadingValue text)
      else .error (refusal (-low) high text) := by
  by_cases hempty : text = []
  · subst hempty
    rfl
  have hrange := signed_in_range (isNegative text) low high (digitsValue (leadingDigits text))
  rw [readInteger_of_ne_nil low high hempty, readMagnitude_eq, refusal, if_neg hempty,
    ← leadingDigits]
  by_cases hbeyond : (if isNegative text then low else high) < digitsValue (leadingDigits text)
  · have hout : ¬(-low ≤ leadingValue text ∧ leadingValue text ≤ high) :=
      fun h => hrange.1 h hbeyond
    simp only [hbeyond, hout, and_false, if_true, if_false]
    rfl
  · have hin : -low ≤ leadingValue text ∧ leadingValue text ≤ high := hrange.2 hbeyond
    simp only [hbeyond, hin, and_true, if_true, if_false]
    split <;> rfl

theorem readInteger_eq_ok_iff {low high : Nat} {text : List Char} {n : Int} :
    readInteger low high text = .ok n ↔ Denotes text n ∧ -low ≤ n ∧ n ≤ high := by
  rw [readInteger_eq]
  constructor
  · intro h
    split at h
    · rename_i hall
      obtain rfl := Except.ok.inj h
      exact ⟨⟨hall.1.1, hall.1.2, rfl⟩, hall.2⟩
    · cases h
  · rintro ⟨⟨hdigits, hnonempty, rfl⟩, hrange⟩
    exact if_pos ⟨⟨hdigits, hnonempty⟩, hrange⟩

theorem readInteger_cases (low high : Nat) (text : List Char) :
    (∃ n, readInteger low high text = .ok n) ∨
      readInteger low high text = .error (refusal (-low) high text) := by
  rw [readInteger_eq]
  split
  · exact .inl ⟨_, rfl⟩
  · exact .inr rfl

/-! ### Writing integers -/

theorem toList_integerText (n : Int) :
    (integerText n).toList = (if n < 0 then ['-'] else []) ++ Nat.toDigits 10 n.natAbs := by
  unfold integerText
  split <;> simp

theorem isDigit_of_mem_toDigits {n : Nat} {c : Char} (h : c ∈ Nat.toDigits 10 n) : c.isDigit :=
  Nat.isDigit_of_mem_toDigits (by decide) (by decide) h

theorem takeWhile_isDigit {digits : List Char} (h : ∀ c ∈ digits, c.isDigit) :
    digits.takeWhile Char.isDigit = digits := by
  have happend : (digits ++ []).takeWhile Char.isDigit = digits ++ [].takeWhile Char.isDigit :=
    List.takeWhile_append_of_pos h
  simpa using happend

/-- A text that begins with a digit has no sign. -/
theorem unsigned_of_isDigit {c : Char} (hc : c.isDigit) (rest : List Char) :
    unsigned (c :: rest) = c :: rest ∧ isNegative (c :: rest) = false := by
  rcases sign_cases (c :: rest) with h | ⟨_, h, -⟩ | ⟨_, h, -⟩ | ⟨_, _, -, -, -, hsign, hunsigned⟩
  · cases h
  · cases h
    exact absurd hc (by decide)
  · cases h
    exact absurd hc (by decide)
  · exact ⟨hunsigned, hsign⟩

/-- The text of an integer is its sign and the digits of its magnitude. -/
theorem parts_integerText (n : Int) :
    unsigned (integerText n).toList = Nat.toDigits 10 n.natAbs ∧
      isNegative (integerText n).toList = decide (n < 0) := by
  rw [toList_integerText]
  by_cases hn : n < 0
  · rw [if_pos hn, decide_eq_true hn]
    exact ⟨rfl, rfl⟩
  · have hne : Nat.toDigits 10 n.natAbs ≠ [] := Nat.toDigits_ne_nil
    obtain ⟨c, rest, hdigits⟩ := List.exists_cons_of_ne_nil hne
    have hc : c.isDigit := isDigit_of_mem_toDigits (hdigits ▸ List.mem_cons_self)
    rw [if_neg hn, decide_eq_false hn, List.nil_append, hdigits]
    exact unsigned_of_isDigit hc rest

theorem signed_natAbs (n : Int) : signed (decide (n < 0)) n.natAbs = n := by
  by_cases hn : n < 0
  · rw [decide_eq_true hn]
    show -(n.natAbs : Int) = n
    omega
  · rw [decide_eq_false hn]
    show (n.natAbs : Int) = n
    omega

/-- **The text of an integer denotes it.** -/
theorem denotes_integerText (n : Int) : Denotes (integerText n).toList n := by
  obtain ⟨hunsigned, hnegative⟩ := parts_integerText n
  have hdigits : leadingDigits (integerText n).toList = Nat.toDigits 10 n.natAbs := by
    rw [leadingDigits, hunsigned, takeWhile_isDigit fun _ => isDigit_of_mem_toDigits]
  refine ⟨by rw [hdigits, hunsigned], by rw [hdigits]; exact Nat.toDigits_ne_nil, ?_⟩
  rw [leadingValue, hdigits, hnegative, digitsValue, Nat.ofDigitChars_ten_toDigits, signed_natAbs]

end Literal

namespace Argument

/-! ### Arguments as slots -/

/-- A text is read as an argument, and the argument becomes a slot and leaves a heap. -/
def Gives (heap : Heap) (text : String) (s : Slot) (after : Heap) : Prop :=
  ∃ value, read text = .ok value ∧ value.toSlot heap = .ok (s, after)

/-- The kind of an argument ends at the first colon; more of them may be in the value. -/
theorem read_append {kind : String} (hkind : ':' ∉ kind.toList) (value : String) :
    read (kind ++ ":" ++ value) = readKind kind value := by
  have hlist : (kind ++ ":" ++ value).toList = kind.toList ++ ':' :: value.toList := by simp
  have hnull : kind ++ ":" ++ value ≠ "null" := by
    intro h
    have hmem : ':' ∈ "null".toList := by
      rw [← h, hlist]
      simp
    exact absurd hmem (by decide)
  have hkind' : ∀ c ∈ kind.toList, (c ≠ ':' : Bool) := by
    intro c hc
    simpa using ne_of_mem_of_not_mem hc hkind
  have hsplit : splitKind? (kind ++ ":" ++ value) = some (kind, value) := by
    rw [splitKind?, hlist, List.takeWhile_append_of_pos hkind', List.dropWhile_append_of_pos hkind']
    simp
  rw [read, if_neg hnull, hsplit]

/-- Arguments of a kind are the integers from `low` to `high`, written in decimal. -/
structure ReadsIntegers {α : Type} (kind : String) (low high : Int) (toInt : α → Int)
    (slot : α → Slot) : Prop where
  /-- A text gives a slot exactly if it denotes its integer, and the integer is in range. -/
  accepts : ∀ (heap : Heap) (text : String) (v : α),
    Gives heap (kind ++ ":" ++ text) (slot v) heap ↔
      Literal.Denotes text.toList (toInt v) ∧ low ≤ toInt v ∧ toInt v ≤ high
  /-- A text that gives none is refused, and the reason is told. -/
  refuses : ∀ (heap : Heap) (text : String),
    (∀ v, ¬Gives heap (kind ++ ":" ++ text) (slot v) heap) →
      read (kind ++ ":" ++ text) =
        .error (.invalidValue kind text (Literal.refusal low high text.toList))
  /-- The text of a slot gives the slot back. -/
  givesBack : ∀ (heap : Heap) (v : α),
    Gives heap (kind ++ ":" ++ heap.slotText (slot v)) (slot v) heap

/-- The integers of a machine type are those from `-low` to `high`. -/
structure IntegerRange (α : Type) where
  low : Nat
  high : Nat
  ofInt : Int → α
  toInt : α → Int
  ofInt_toInt : ∀ v, ofInt (toInt v) = v
  toInt_ofInt : ∀ n : Int, -low ≤ n → n ≤ high → toInt (ofInt n) = n
  toInt_mem : ∀ v, -low ≤ toInt v ∧ toInt v ≤ high

/-- The 32-bit integers. -/
def IntegerRange.int32 : IntegerRange Int32 where
  low := Int32.size / 2
  high := Int32.size / 2 - 1
  ofInt := Int32.ofInt
  toInt := Int32.toInt
  ofInt_toInt := Int32.ofInt_toInt
  toInt_ofInt n hlow hhigh := by
    apply Int32.toInt_ofInt_of_le
    · exact hlow
    · exact Int.lt_of_le_of_lt hhigh (by decide)
  toInt_mem v := ⟨v.le_toInt, Int.le_trans v.toInt_le (by decide)⟩

/-- The 64-bit integers. -/
def IntegerRange.int64 : IntegerRange Int64 where
  low := Int64.size / 2
  high := Int64.size / 2 - 1
  ofInt := Int64.ofInt
  toInt := Int64.toInt
  ofInt_toInt := Int64.ofInt_toInt
  toInt_ofInt n hlow hhigh := by
    apply Int64.toInt_ofInt_of_le
    · exact hlow
    · exact Int.lt_of_le_of_lt hhigh (by decide)
  toInt_mem v := ⟨v.le_toInt, Int.le_trans v.toInt_le (by decide)⟩

/-- **What makes a kind one of integers.**  Its values are read as the integers of a machine type,
and its slots are written as these integers. -/
theorem readsIntegers_of_readInteger {α : Type} {kind : String} (range : IntegerRange α)
    (host : α → HostValue) {slot : α → Slot}
    (hread : ∀ text, read (kind ++ ":" ++ text) =
      match (Literal.readInteger range.low range.high text.toList).map range.ofInt with
      | .ok v => .ok (host v)
      | .error reason => .error (.invalidValue kind text reason))
    (hslot : ∀ (heap : Heap) v, (host v).toSlot heap = .ok (slot v, heap))
    (htext : ∀ (heap : Heap) v, heap.slotText (slot v) = integerText (range.toInt v))
    (hinj : ∀ v w, slot v = slot w → v = w) :
    ReadsIntegers kind (-range.low) range.high range.toInt slot := by
  have accepts : ∀ (heap : Heap) (text : String) (v : α),
      Gives heap (kind ++ ":" ++ text) (slot v) heap ↔
        Literal.Denotes text.toList (range.toInt v) ∧
          -range.low ≤ range.toInt v ∧ range.toInt v ≤ range.high := by
    intro heap text v
    rw [← Literal.readInteger_eq_ok_iff, Gives, hread]
    constructor
    · rintro ⟨value, hvalue, hgives⟩
      cases hinteger : Literal.readInteger range.low range.high text.toList with
      | error reason =>
        rw [hinteger] at hvalue
        cases hvalue
      | ok n =>
        rw [hinteger] at hvalue
        cases hvalue
        rw [hslot] at hgives
        have hv : range.ofInt n = v := hinj _ _ (congrArg Prod.fst (Except.ok.inj hgives))
        obtain ⟨-, hlow, hhigh⟩ := Literal.readInteger_eq_ok_iff.1 hinteger
        rw [← hv, range.toInt_ofInt n hlow hhigh]
    · intro hinteger
      refine ⟨host v, ?_, hslot heap v⟩
      rw [hinteger, Except.map, range.ofInt_toInt]
  refine ⟨accepts, ?_, ?_⟩
  · intro heap text hnone
    rcases Literal.readInteger_cases range.low range.high text.toList with ⟨n, hok⟩ | herror
    · refine absurd ?_ (hnone (range.ofInt n))
      have hn := Literal.readInteger_eq_ok_iff.1 hok
      rw [accepts, range.toInt_ofInt n hn.2.1 hn.2.2]
      exact hn
    · rw [hread, herror]
      rfl
  · intro heap v
    rw [accepts, htext]
    exact ⟨Literal.denotes_integerText (range.toInt v), range.toInt_mem v⟩

/-- **Arguments are read as their grammar says.**  An `int` or a `long` is an optional sign and one
or more digits whose value is in the range of the type; any other text is refused, for being empty,
for digits that leave the range, or else for a character that is no digit.  What an int or a long is
written as gives it back.  A `str` is any text, colons included, and is shown as that text. -/
theorem integers_and_texts_are_read :
    ReadsIntegers "int" Int32.minValue.toInt Int32.maxValue.toInt Int32.toInt Slot.int ∧
    ReadsIntegers "long" Int64.minValue.toInt Int64.maxValue.toInt Int64.toInt Slot.long ∧
    ∀ (heap : Heap) (text : String), ∃ id after,
      Gives heap ("str:" ++ text) (.ofReference (.object id)) after ∧
        after[id]? = some (.string text) ∧
          after.slotText (.ofReference (.object id)) = text := by
  refine ⟨?_, ?_, ?_⟩
  · refine readsIntegers_of_readInteger .int32 .int ?_ (fun _ _ => rfl) (fun _ _ => rfl) ?_
    · exact fun text => read_append (by decide) text
    · exact fun v w h => Slot.int.inj h
  · refine readsIntegers_of_readInteger .int64 .long ?_ (fun _ _ => rfl) (fun _ _ => rfl) ?_
    · exact fun text => read_append (by decide) text
    · exact fun v w h => Slot.long.inj h
  · intro heap text
    have hnew : (heap.push (.string text))[heap.size]? = some (.string text) :=
      Array.getElem?_push_size
    refine ⟨heap.size, heap.push (.string text), ⟨.text text, ?_, rfl⟩, hnew, ?_⟩
    · have hkind : ':' ∉ "str".toList := by decide
      exact read_append hkind text
    · show ((heap.push (.string text))[heap.size]?.map HeapObject.text).getD "" = text
      rw [hnew]
      rfl

end Argument

end MethodMachine
