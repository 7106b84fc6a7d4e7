/-
# Method code

The bytes that jemu's `decode` and `Operands` (`u8`, `i8`, `u16`, `i16`, `i32`) read and that
`CodeBuilder` writes.

The code of a method is a run of bytes.  Numbers in it are big-endian, signed ones in two's
complement: the bytes `b₁ … bₖ` stand for `n = 256 ^ (k-1) · b₁ + … + bₖ`, or for the number
congruent to `n` modulo `256 ^ k` between `-256 ^ k / 2` and `256 ^ k / 2`.
-/

namespace MethodMachine

/-- The code of a method. -/
abbrev Code := Array UInt8

/-- How many words of `count` bytes there are: `256 ^ count`. -/
def wordCount : (count : Nat) → Nat
  | 0 => 1
  | count + 1 => 256 * wordCount count

/-- The number that big-endian bytes stand for. -/
def unsignedWord (bytes : List UInt8) : Nat := bytes.foldl (fun n b => 256 * n + b.toNat) 0

/-- The number that big-endian bytes stand for in two's complement. -/
def signedWord (bytes : List UInt8) : Int :=
  Int.bmod (unsignedWord bytes) (wordCount bytes.length)

/-- The `count` low bytes of a number in two's complement, the highest first. -/
def bigEndian : (count : Nat) → Int → List UInt8
  | 0, _ => []
  | count + 1, n => UInt8.ofNat (n / wordCount count % 256).toNat :: bigEndian count n

@[simp] theorem length_bigEndian (count : Nat) (n : Int) : (bigEndian count n).length = count := by
  induction count with
  | zero => rfl
  | succ count ih => simp [bigEndian, ih]

theorem unsignedWord_append_singleton (bytes : List UInt8) (b : UInt8) :
    unsignedWord (bytes ++ [b]) = 256 * unsignedWord bytes + b.toNat := by
  simp [unsignedWord]

theorem unsignedWord_cons (b : UInt8) (bytes : List UInt8) :
    unsignedWord (b :: bytes) = b.toNat * wordCount bytes.length + unsignedWord bytes := by
  have hfold : ∀ n, bytes.foldl (fun n b => 256 * n + b.toNat) n =
      n * wordCount bytes.length + unsignedWord bytes := by
    induction bytes with
    | nil => simp [unsignedWord, wordCount]
    | cons c rest ih =>
      intro n
      rw [unsignedWord, List.foldl_cons, List.foldl_cons, ih, ih, List.length_cons, wordCount,
        Nat.mul_zero, Nat.zero_add, Nat.add_mul, Nat.mul_assoc, Nat.mul_left_comm, Nat.add_assoc]
  rw [unsignedWord, List.foldl_cons, hfold, Nat.mul_zero, Nat.zero_add]

/-- A number modulo `256 * w` is its digit at `w`, and the number modulo `w`. -/
theorem emod_byte_mul (n w : Int) (hw : 0 ≤ w) : n / w % 256 * w + n % w = n % (256 * w) := by
  have hdiv : n / (256 * w) = n / w / 256 := by
    rw [Int.mul_comm, ← Int.ediv_ediv_of_nonneg hw]
  rw [Int.emod_def (n / w), Int.emod_def n w, Int.emod_def n (256 * w), hdiv]
  grind

/-- The bytes of a number stand for it modulo the number of words. -/
theorem unsignedWord_bigEndian (count : Nat) (n : Int) :
    (unsignedWord (bigEndian count n) : Int) = n % wordCount count := by
  induction count with
  | zero => simp [unsignedWord, bigEndian, wordCount]
  | succ count ih =>
    have hbyte : ((UInt8.ofNat (n / wordCount count % 256).toNat).toNat : Int) =
        n / wordCount count % 256 := by
      rw [UInt8.toNat_ofNat']
      omega
    rw [bigEndian, unsignedWord_cons, length_bigEndian, wordCount, Int.natCast_add, Int.natCast_mul,
      Int.natCast_mul, hbyte, ih]
    exact emod_byte_mul n _ (Int.natCast_nonneg _)

/-- A number that fits is read back from its bytes. -/
theorem signedWord_bigEndian {count : Nat} {n : Int} (hlow : -(wordCount count) ≤ 2 * n)
    (hhigh : 2 * n < wordCount count) : signedWord (bigEndian count n) = n := by
  rw [signedWord, length_bigEndian, unsignedWord_bigEndian, Int.emod_bmod]
  exact Int.bmod_eq_of_le_mul_two (by omega) (by omega)

namespace Code

/-- The `count` bytes from `start` on, if the code is long enough. -/
def slice? (code : Code) (start count : Nat) : Option (List UInt8) :=
  if start + count ≤ code.size then some (code.extract start (start + count)).toList else none

theorem slice?_eq_some_iff {code : Code} {start count : Nat} {bytes : List UInt8} :
    code.slice? start count = some bytes ↔
      start + count ≤ code.size ∧ (code.extract start (start + count)).toList = bytes := by
  unfold slice?
  split
  · rename_i h
    simp [h]
  · rename_i h
    simp only [reduceCtorEq, h, false_and]

/-- The number that the `count` bytes from `start` on stand for. -/
def unsigned (code : Code) (start : Nat) : (count : Nat) → Nat
  | 0 => 0
  | count + 1 => 256 * code.unsigned start count + (code.getD (start + count) 0).toNat

/-- The number that the `count` bytes from `start` on stand for in two's complement. -/
def signed (code : Code) (start count : Nat) : Int :=
  Int.bmod (code.unsigned start count) (wordCount count)

/-- Reading a number from code is reading its bytes. -/
theorem unsigned_eq_unsignedWord {code : Code} {start count : Nat}
    (h : start + count ≤ code.size) :
    code.unsigned start count = unsignedWord (code.extract start (start + count)).toList := by
  induction count with
  | zero => simp [unsigned, unsignedWord]
  | succ count ih =>
    have hlt : start + count < code.size := by omega
    have hsplit : code.extract start (start + (count + 1)) =
        (code.extract start (start + count)).push code[start + count] :=
      Array.extract_succ_right (by omega) hlt
    rw [unsigned, ih (by omega), hsplit, Array.toList_push, unsignedWord_append_singleton]
    simp [hlt]

end Code

end MethodMachine
