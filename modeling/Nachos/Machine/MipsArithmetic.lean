import Mathlib
import Nachos.Machine.Mips

/-! What the arithmetic of the simulator computes: the double word `Mult` builds by
shifting and adding, and the sign-bit tests by which `ADD`, `ADDI` and `SUB` detect an
overflow. -/
namespace Nachos.Mips
open Effects Machine

/-! ## Bits of a word -/

theorem toNat_one : BitVec.toNat (1 : Word) = 1 := rfl

theorem sign_bit (value : Word) :
    value &&& 0x80000000 = if value.msb then 0x80000000 else 0 := by
  have single : (0x80000000 : Word) = BitVec.twoPow 32 31 := by decide
  rw [BitVec.msb_eq_getLsbD_last, single, BitVec.and_twoPow]
  rfl

theorem sign_bit_ne_zero (value : Word) : value &&& 0x80000000 ≠ 0 ↔ 2147483648 ≤ value.toNat := by
  have large : value.msb = true ↔ 2147483648 ≤ value.toNat := by
    rw [BitVec.msb_eq_decide, decide_eq_true_iff]
  rw [sign_bit, ← large]
  cases value.msb <;> decide

theorem toNat_low_bit (value : Word) : (value &&& 1).toNat = value.toNat % 2 := by
  rw [BitVec.toNat_and]
  exact Nat.and_one_is_mod _

theorem low_bit_ne_zero (value : Word) : value &&& 1 ≠ 0 ↔ value.toNat % 2 = 1 := by
  have zero : value &&& 1 = 0 ↔ (value &&& 1).toNat = 0 := by
    rw [← BitVec.toNat_inj]
    rfl
  rw [Ne, zero, toNat_low_bit]
  omega

/-- A word with its lowest bit set and no other is 1. -/
theorem toNat_of_last_bit {value : Word} (odd : value &&& 1 ≠ 0)
    (rest : value &&& 0xfffffffe = 0) : value.toNat = 1 := by
  have split : (value &&& 1) ||| (value &&& 0xfffffffe) = value := by
    have all : (1 : Word) ||| 0xfffffffe = BitVec.allOnes 32 := by decide
    rw [← BitVec.and_or_distrib_left, all, BitVec.and_allOnes]
  have zero : (value &&& 1) ||| (0 : Word) = value &&& 1 := BitVec.or_zero
  rw [rest, zero] at split
  have bit := toNat_low_bit value
  rw [low_bit_ne_zero] at odd
  rw [split] at bit
  omega

/-- Shifting in the sign leaves the lower bits where an unsigned shift puts them. -/
theorem sshiftRight_one_mod {value : Word} {rounds : Nat} (few : rounds ≤ 31) :
    (value.sshiftRight 1).toNat % 2 ^ rounds = value.toNat / 2 % 2 ^ rounds := by
  have bound := value.isLt
  cases sign : value.msb with
  | false =>
    rw [BitVec.sshiftRight_eq_of_msb_false sign, BitVec.toNat_ushiftRight, Nat.shiftRight_eq_div_pow]
  | true =>
    have shifted : (value.sshiftRight 1).toNat = 2147483648 + value.toNat / 2 := by
      rw [BitVec.sshiftRight_eq_of_msb_true sign, BitVec.toNat_not, BitVec.toNat_ushiftRight,
        BitVec.toNat_not, Nat.shiftRight_eq_div_pow]
      rw [BitVec.msb_eq_decide, decide_eq_true_iff] at sign
      omega
    have whole : 2147483648 = 2 ^ rounds * 2 ^ (31 - rounds) := by
      rw [← pow_add, Nat.add_sub_cancel' few]
      rfl
    rw [shifted, whole, Nat.mul_add_mod]

/-! ## Double words -/

/-- The number two words stand for. -/
def join (hi lo : Word) : BitVec 64 := BitVec.ofNat 64 (4294967296 * hi.toNat + lo.toNat)

theorem append_eq_join (hi lo : Word) : hi ++ lo = join hi lo := by
  have high := hi.isLt
  have low := lo.isLt
  apply BitVec.eq_of_toNat_eq
  unfold join
  rw [BitVec.toNat_append, Nat.shiftLeft_eq, BitVec.toNat_ofNat, Nat.mul_comm,
    ← Nat.two_pow_add_eq_or_of_lt low, Nat.mod_eq_of_lt (by omega)]

/-- Adding with the carry out of the low words. -/
theorem join_add (hi lo hi' lo' : Word) :
    join ((if lo + lo' < lo' then hi + 1 else hi) + hi') (lo + lo') = join hi lo + join hi' lo' := by
  have high := hi.isLt
  have low := lo.isLt
  have high' := hi'.isLt
  have low' := lo'.isLt
  apply BitVec.eq_of_toNat_eq
  unfold join
  split
  · rename_i carry
    rw [BitVec.lt_def, BitVec.toNat_add] at carry
    simp only [BitVec.toNat_ofNat, BitVec.toNat_add, toNat_one]
    omega
  · rename_i carry
    rw [BitVec.lt_def, BitVec.toNat_add] at carry
    simp only [BitVec.toNat_ofNat, BitVec.toNat_add]
    omega

/-- Shifting left with the bit that leaves the low word. -/
theorem join_double (hi lo : Word) :
    join (if lo &&& 0x80000000 ≠ 0 then (hi <<< 1) ||| 1 else hi <<< 1) (lo <<< 1) =
      join hi lo + join hi lo := by
  have odd : (hi <<< 1) ||| (1 : Word) = hi <<< 1 + 1 := by
    rw [BitVec.add_eq_or_of_and_eq_zero]
    ext i bound
    simp
    omega
  have high := hi.isLt
  have low := lo.isLt
  apply BitVec.eq_of_toNat_eq
  unfold join
  rw [odd]
  split
  · rename_i carry
    rw [sign_bit_ne_zero] at carry
    simp only [BitVec.toNat_ofNat, BitVec.toNat_add, BitVec.toNat_shiftLeft, Nat.shiftLeft_eq,
      toNat_one]
    omega
  · rename_i carry
    rw [sign_bit_ne_zero] at carry
    simp only [BitVec.toNat_ofNat, BitVec.toNat_add, BitVec.toNat_shiftLeft, Nat.shiftLeft_eq]
    omega

/-- The two's complement, word by word. -/
theorem join_neg (hi lo : Word) :
    join (if ~~~lo + 1 = 0 then ~~~hi + 1 else ~~~hi) (~~~lo + 1) = -join hi lo := by
  have high := hi.isLt
  have low := lo.isLt
  have zero : ~~~lo + 1 = 0 ↔ lo.toNat = 0 := by
    rw [← BitVec.toNat_inj, BitVec.toNat_add, BitVec.toNat_not, toNat_one]
    change _ = 0 ↔ _
    omega
  apply BitVec.eq_of_toNat_eq
  unfold join
  split
  · rename_i carry
    rw [zero] at carry
    simp only [BitVec.toNat_ofNat, BitVec.toNat_add, BitVec.toNat_neg, BitVec.toNat_not, toNat_one]
    omega
  · rename_i carry
    rw [zero] at carry
    simp only [BitVec.toNat_ofNat, BitVec.toNat_add, BitVec.toNat_neg, BitVec.toNat_not, toNat_one]
    omega

/-! ## Multiplication -/

/-- The bits of a number, the lowest first. -/
theorem cast_mod_succ (n rounds : Nat) : ((n % 2 ^ (rounds + 1) : Nat) : BitVec 64) =
    (n % 2 : Nat) + 2 * (n / 2 % 2 ^ rounds : Nat) := by
  rw [pow_succ', Nat.mod_mul]
  push_cast
  rfl

/-- The loop adds the multiplicand once for each of the bits it still looks at. The exit on
the last bit that is set skips rounds that would add nothing. -/
theorem multLoop_value (rounds : Nat) (few : rounds ≤ 32) (a bHi bLo hi lo : Word) :
    join (multLoop rounds a bHi bLo hi lo).1 (multLoop rounds a bHi bLo hi lo).2 =
      join hi lo + (a.toNat % 2 ^ rounds : Nat) * join bHi bLo := by
  induction rounds generalizing a bHi bLo hi lo with
  | zero => simp [multLoop, Nat.mod_one]
  | succ rounds ih =>
    have rest := ih (by omega) (a.sshiftRight 1)
      (if bLo &&& 0x80000000 ≠ 0 then (bHi <<< 1) ||| 1 else bHi <<< 1) (bLo <<< 1)
    simp only [sshiftRight_one_mod (show rounds ≤ 31 by omega), join_double] at rest
    rw [cast_mod_succ]
    unfold multLoop
    by_cases odd : a &&& 1 ≠ 0
    · have bit := (low_bit_ne_zero a).mp odd
      simp only [if_pos odd]
      by_cases last : a &&& 0xfffffffe = 0
      · rw [if_pos ⟨odd, last⟩, join_add, toNat_of_last_bit odd last]
        simp
      · rw [if_neg fun both => last both.2, rest, join_add, bit, Nat.cast_one]
        ring
    · have bit : a.toNat % 2 = 0 := by
        rw [low_bit_ne_zero] at odd
        omega
      simp only [if_neg odd]
      rw [if_neg fun both => odd both.1, rest, bit, Nat.cast_zero]
      ring

/-- The product of two words, read as unsigned numbers. -/
theorem multLoop_product (a b : Word) :
    join (multLoop 32 a 0 b 0 0).1 (multLoop 32 a 0 b 0 0).2 = (a.toNat * b.toNat : Nat) := by
  have single : join 0 b = (b.toNat : Nat) := by
    unfold join
    rw [BitVec.natCast_eq_ofNat]
    congr 1
    exact Nat.zero_add _
  have nothing : join 0 0 = 0 := rfl
  rw [multLoop_value 32 le_rfl, single, nothing, Nat.mod_eq_of_lt a.isLt, zero_add, Nat.cast_mul]

/-- The magnitude `Mult` computes with. -/
theorem toNat_magnitude (a : Word) : (if a.slt 0 then -a else a).toNat = a.toInt.natAbs := by
  have bound := a.isLt
  have sign : a.slt 0 = decide (a.toInt < 0) := rfl
  rw [sign]
  by_cases negative : a.toInt < 0
  · rw [if_pos (decide_eq_true negative), BitVec.toNat_neg]
    rw [BitVec.toInt_eq_toNat_cond] at negative ⊢
    split at negative <;> split <;> omega
  · rw [if_neg (by simpa using negative)]
    rw [BitVec.toInt_eq_toNat_cond] at negative ⊢
    split at negative <;> split <;> omega

/-- The sign `Mult` computes for the product. -/
theorem signs_differ {a b : Word} (first : a ≠ 0) (second : b ≠ 0) :
    (a.slt 0 != b.slt 0) = true ↔ a.toInt * b.toInt < 0 := by
  have left : a.slt 0 = decide (a.toInt < 0) := rfl
  have right : b.slt 0 = decide (b.toInt < 0) := rfl
  have notZero : a.toInt ≠ 0 := fun none => first (BitVec.eq_of_toInt_eq none)
  have notZero' : b.toInt ≠ 0 := fun none => second (BitVec.eq_of_toInt_eq none)
  rw [left, right, bne_iff_ne, Ne, decide_eq_decide, mul_neg_iff]
  omega

theorem ofInt_natCast (n : Nat) : BitVec.ofInt 64 n = (n : BitVec 64) := by
  rw [BitVec.ofInt_natCast, BitVec.natCast_eq_ofNat]

theorem ofInt_neg_natCast (n : Nat) : BitVec.ofInt 64 (-n) = -(n : BitVec 64) := by
  rw [BitVec.ofInt_neg, ofInt_natCast]

theorem mult_unsigned (a b : Word) :
    (Mult a b false).1 ++ (Mult a b false).2 = BitVec.ofNat 64 (a.toNat * b.toNat) := by
  rw [append_eq_join]
  by_cases zero : a = 0 ∨ b = 0
  · have product : a.toNat * b.toNat = 0 := by
      rcases zero with rfl | rfl
      · exact Nat.zero_mul _
      · exact Nat.mul_zero _
    have nothing : Mult a b false = (0, 0) := if_pos zero
    rw [nothing, product]
    rfl
  · have loops : Mult a b false = multLoop 32 a 0 b 0 0 := by
      unfold Mult
      rw [if_neg zero]
      rfl
    rw [loops, multLoop_product, BitVec.natCast_eq_ofNat]

theorem mult_signed (a b : Word) :
    (Mult a b true).1 ++ (Mult a b true).2 = BitVec.ofInt 64 (a.toInt * b.toInt) := by
  rw [append_eq_join]
  by_cases zero : a = 0 ∨ b = 0
  · have product : a.toInt * b.toInt = 0 := by
      rcases zero with rfl | rfl
      · exact Int.zero_mul _
      · exact Int.mul_zero _
    have nothing : Mult a b true = (0, 0) := if_pos zero
    rw [nothing, product]
    rfl
  · have product := multLoop_product (if a.slt 0 then -a else a) (if b.slt 0 then -b else b)
    rw [toNat_magnitude, toNat_magnitude, ← Int.natAbs_mul] at product
    have signs := signs_differ (fun none => zero (.inl none)) fun none => zero (.inr none)
    unfold Mult
    rw [if_neg zero]
    simp only [Bool.true_and]
    generalize multLoop 32 (if a.slt 0 then -a else a) 0 (if b.slt 0 then -b else b) 0 0 = result at *
    split
    · rename_i differ
      rw [signs] at differ
      dsimp only
      rw [join_neg, product, ← ofInt_neg_natCast]
      congr 1
      omega
    · rename_i same
      rw [signs] at same
      dsimp only
      rw [product, ← ofInt_natCast]
      congr 1
      omega

/-- `Mult` computes the double-length product, signed or unsigned. -/
theorem mult_product (a b : Word) :
    (Mult a b true).1 ++ (Mult a b true).2 = BitVec.ofInt 64 (a.toInt * b.toInt) ∧
      (Mult a b false).1 ++ (Mult a b false).2 = BitVec.ofNat 64 (a.toNat * b.toNat) :=
  ⟨mult_signed a b, mult_unsigned a b⟩

/-! ## Overflow -/

/-- The value is one of a signed word. -/
def Fits (value : Int) : Prop := -2147483648 ≤ value ∧ value < 2147483648

theorem negative_eq_msb (value : Word) : negative value = value.msb := by
  unfold negative
  rw [sign_bit]
  cases value.msb <;> decide

theorem saddOverflow_iff (a b : Word) : BitVec.saddOverflow a b = true ↔ ¬ Fits (a.toInt + b.toInt) := by
  unfold BitVec.saddOverflow Fits
  rw [Bool.or_eq_true, decide_eq_true_iff, decide_eq_true_iff]
  omega

theorem ssubOverflow_iff (a b : Word) : BitVec.ssubOverflow a b = true ↔ ¬ Fits (a.toInt - b.toInt) := by
  unfold BitVec.ssubOverflow Fits
  rw [Bool.or_eq_true, decide_eq_true_iff, decide_eq_true_iff]
  omega

/-- The test of `ADD`. -/
theorem add_overflows (a b : Word) :
    (¬ negative (a ^^^ b) ∧ negative (a ^^^ (a + b))) ↔ ¬ Fits (a.toInt + b.toInt) := by
  rw [← saddOverflow_iff, BitVec.saddOverflow_eq, negative_eq_msb, negative_eq_msb, BitVec.msb_xor,
    BitVec.msb_xor]
  cases a.msb <;> cases b.msb <;> cases (a + b).msb <;> decide

/-- The test of `ADDI`, which looks at the other operand. -/
theorem addi_overflows (a b : Word) :
    (¬ negative (a ^^^ b) ∧ negative (b ^^^ (a + b))) ↔ ¬ Fits (a.toInt + b.toInt) := by
  rw [← saddOverflow_iff, BitVec.saddOverflow_eq, negative_eq_msb, negative_eq_msb, BitVec.msb_xor,
    BitVec.msb_xor]
  cases a.msb <;> cases b.msb <;> cases (a + b).msb <;> decide

/-- The test of `SUB`. -/
theorem sub_overflows (a b : Word) :
    (negative (a ^^^ b) ∧ negative (a ^^^ (a - b))) ↔ ¬ Fits (a.toInt - b.toInt) := by
  rw [← ssubOverflow_iff, BitVec.ssubOverflow_eq, negative_eq_msb, negative_eq_msb, BitVec.msb_xor,
    BitVec.msb_xor]
  cases a.msb <;> cases b.msb <;> cases (a - b).msb <;> decide

theorem toInt_add_of_fits {a b : Word} (fits : Fits (a.toInt + b.toInt)) :
    (a + b).toInt = a.toInt + b.toInt :=
  BitVec.toInt_add_of_not_saddOverflow fun overflow => (saddOverflow_iff a b).mp overflow fits

theorem toInt_sub_of_fits {a b : Word} (fits : Fits (a.toInt - b.toInt)) :
    (a - b).toInt = a.toInt - b.toInt :=
  BitVec.toInt_sub_of_not_ssubOverflow fun overflow => (ssubOverflow_iff a b).mp overflow fits

end Nachos.Mips
