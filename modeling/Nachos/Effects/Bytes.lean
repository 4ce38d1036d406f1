import Mathlib.Logic.Function.Basic
import Mathlib.Tactic.SplitIfs

/-! Byte storage as a C program sees it: unbounded buffers indexed by offset,
fixed-size blocks, and 32-bit little-endian words overlaid on either. Reading
back what was stored (`word_setWord`) and leaving disjoint bytes alone
(`word_splice_of_disjoint`) is all that field accessors need. -/
namespace Effects

/-- Storage reached through a pointer. -/
abbrev Memory := Nat → UInt8

namespace Memory

/-- `bcopy(source, &memory[start], count)`. -/
def splice (memory : Memory) (start count : Nat) (source : Memory) : Memory :=
  fun i => if start ≤ i ∧ i < start + count then source (i - start) else memory i

theorem splice_inside {memory source : Memory} {start count i : Nat}
    (lower : start ≤ i) (upper : i < start + count) :
    memory.splice start count source i = source (i - start) := if_pos ⟨lower, upper⟩

theorem splice_outside {memory source : Memory} {start count i : Nat}
    (outside : i < start ∨ start + count ≤ i) :
    memory.splice start count source i = memory i := if_neg (by omega)

/-- Bytes can be stored one after the other. -/
theorem splice_succ (memory source : Memory) (start count : Nat) :
    splice (Function.update memory start (source 0)) (start + 1) count (fun k => source (k + 1)) =
      memory.splice start (count + 1) source := by
  funext i
  unfold splice
  by_cases first : i = start
  · rw [if_neg (by omega), if_pos (by omega), first, Function.update_self, Nat.sub_self]
  · by_cases inside : start + 1 ≤ i ∧ i < start + 1 + count
    · have position : i - (start + 1) + 1 = i - start := by omega
      rw [if_pos inside, if_pos (by omega), ← position]
    · rw [if_neg inside, Function.update_of_ne first, if_neg (by omega)]

/-- The little-endian word at an offset. -/
def word (memory : Memory) (i : Nat) : BitVec 32 :=
  (memory (i + 3)).toBitVec ++ (memory (i + 2)).toBitVec ++ (memory (i + 1)).toBitVec ++
    (memory i).toBitVec

/-- Byte `k` of a word stored in little-endian order. -/
def wordByte (value : BitVec 32) : Memory := fun k => ⟨value.extractLsb' (8 * k) 8⟩

def setWord (memory : Memory) (i : Nat) (value : BitVec 32) : Memory :=
  memory.splice i 4 (wordByte value)

theorem word_congr {memory memory' : Memory} {i j : Nat}
    (same : ∀ k, k < 4 → memory (i + k) = memory' (j + k)) : memory.word i = memory'.word j := by
  have zeroth := same 0 (by omega)
  have first := same 1 (by omega)
  have second := same 2 (by omega)
  have third := same 3 (by omega)
  simp only [Nat.add_zero] at zeroth
  simp only [word, zeroth, first, second, third]

theorem word_wordByte (value : BitVec 32) : word (wordByte value) 0 = value := by
  apply BitVec.eq_of_getLsbD_eq
  intro i bound
  simp only [word, wordByte, BitVec.getLsbD_append, BitVec.getLsbD_extractLsb']
  split_ifs with low mid high
  · simp [low]
  · simp only [mid, decide_true, Bool.true_and]
    congr 1
    omega
  · simp only [high, decide_true, Bool.true_and]
    congr 1
    omega
  · have top : i - 8 - 8 - 8 < 8 := by omega
    simp only [top, decide_true, Bool.true_and]
    congr 1
    omega

@[simp]
theorem word_setWord (memory : Memory) (i : Nat) (value : BitVec 32) :
    (memory.setWord i value).word i = value := by
  refine (word_congr fun k bound => ?_).trans (word_wordByte value)
  rw [setWord, splice_inside (by omega) (by omega), Nat.add_sub_cancel_left, Nat.zero_add]

theorem word_splice_of_disjoint {memory source : Memory} {start count i : Nat}
    (disjoint : i + 4 ≤ start ∨ start + count ≤ i) :
    (memory.splice start count source).word i = memory.word i :=
  word_congr fun k bound => splice_outside (by omega)

theorem word_setWord_of_disjoint {memory : Memory} {start i : Nat} {value : BitVec 32}
    (disjoint : i + 4 ≤ start ∨ start + 4 ≤ i) :
    (memory.setWord start value).word i = memory.word i := word_splice_of_disjoint disjoint

theorem setWord_outside {memory : Memory} {start i : Nat} {value : BitVec 32}
    (outside : i < start ∨ start + 4 ≤ i) : memory.setWord start value i = memory i :=
  splice_outside outside

theorem extract_word (memory : Memory) (i : Nat) :
    (memory.word i).extractLsb' 0 8 = (memory i).toBitVec := by
  apply BitVec.eq_of_getLsbD_eq
  intro k bound
  rw [BitVec.getLsbD_extractLsb', Nat.zero_add, word, BitVec.getLsbD_append, if_pos bound]
  simp [bound]

/-- The number a word stands for, byte by byte. -/
theorem toNat_word (memory : Memory) (i : Nat) : (memory.word i).toNat =
    (memory i).toNat + 256 * (memory (i + 1)).toNat + 65536 * (memory (i + 2)).toNat +
      16777216 * (memory (i + 3)).toNat := by
  have join : ∀ {m n : Nat} (high : BitVec m) (low : BitVec n),
      (high ++ low).toNat = high.toNat * 2 ^ n + low.toNat := by
    intro m n high low
    rw [BitVec.toNat_append, ← Nat.shiftLeft_add_eq_or_of_lt low.isLt, Nat.shiftLeft_eq]
  unfold word
  rw [join, join, join]
  simp only [UInt8.toNat_toBitVec]
  omega

theorem wordByte_word (memory : Memory) (i : Nat) {k : Nat} (inside : k < 4) :
    wordByte (memory.word i) k = memory (i + k) := by
  apply UInt8.toBitVec_inj.mp
  apply BitVec.eq_of_getLsbD_eq
  intro b bound
  simp only [wordByte, word, BitVec.getLsbD_extractLsb', BitVec.getLsbD_append, bound, decide_true,
    Bool.true_and]
  obtain rfl | rfl | rfl | rfl : k = 0 ∨ k = 1 ∨ k = 2 ∨ k = 3 := by omega
  · simp [bound]
  · rw [if_neg (by omega), if_pos (by omega)]
    congr 2
    omega
  · rw [if_neg (by omega), if_neg (by omega), if_pos (by omega)]
    congr 2
    omega
  · rw [if_neg (by omega), if_neg (by omega), if_neg (by omega)]
    congr 2
    omega

/-- Storing the word that is already there changes nothing. -/
theorem setWord_word (memory : Memory) (i : Nat) : memory.setWord i (memory.word i) = memory := by
  funext j
  unfold setWord splice
  split
  · rw [wordByte_word memory i (by omega)]
    congr 1
    omega
  · rfl

end Memory

/-- A C `int` kept in 32 bits survives being stored and read back. -/
theorem toInt_ofInt_of_range {value : Int} (lower : -2147483648 ≤ value)
    (upper : value < 2147483648) : (BitVec.ofInt 32 value).toInt = value := by
  rw [BitVec.toInt_ofInt]
  exact Int.bmod_eq_of_le (by omega) (by omega)

/-- `(int)c` for a plain `char`, which is signed on the host. -/
def signedChar (c : UInt8) : Int := c.toBitVec.toInt

/-- Reading only the low byte of a word loses nothing while the word is small. -/
theorem signedChar_word {memory : Memory} {i : Nat} (low : 0 ≤ (memory.word i).toInt)
    (high : (memory.word i).toInt < 128) : signedChar (memory i) = (memory.word i).toInt := by
  have small : (memory.word i).toNat < 128 := by
    rw [BitVec.toInt_eq_toNat_cond] at low high
    have bound := (memory.word i).isLt
    split at high <;> omega
  have byte : (memory i).toBitVec.toNat = (memory.word i).toNat := by
    rw [← Memory.extract_word, BitVec.extractLsb'_toNat, Nat.shiftRight_zero]
    omega
  unfold signedChar
  rw [BitVec.toInt_eq_toNat_cond, BitVec.toInt_eq_toNat_cond, byte]
  split <;> split <;> omega

/-- A block of `n` bytes, such as one disk sector. -/
def Block (n : Nat) := Fin n → UInt8

namespace Block

variable {n : Nat}

/-- The block's bytes as storage; offsets past its end read as zero and are
never asked for. -/
def mem (block : Block n) : Memory := fun i => if bound : i < n then block ⟨i, bound⟩ else 0

/-- The first `n` bytes at a pointer. -/
def of (memory : Memory) : Block n := fun i => memory i

theorem mem_of {memory : Memory} {i : Nat} (bound : i < n) :
    (of memory : Block n).mem i = memory i := by
  simp [mem, of, bound]

@[simp]
theorem of_mem (block : Block n) : of block.mem = block := by
  funext i
  simp [mem, of, i.isLt]

theorem of_congr {memory memory' : Memory} (same : ∀ i, i < n → memory i = memory' i) :
    (of memory : Block n) = of memory' := funext fun i => same i i.isLt

theorem word_of {memory : Memory} {i : Nat} (bound : i + 4 ≤ n) :
    (of memory : Block n).mem.word i = memory.word i :=
  Memory.word_congr fun k inside => mem_of (by omega)

end Block
end Effects
