import Nachos.Effects.Bytes

/-! A file of the host as `lseek`, `read` and `write` see it: its bytes up to its
size. Bytes that a write behind the end skips are zero. A file may hold an array
of blocks of one width from some offset on; `block_write_self` and
`block_write_other` say that storing one of them leaves the others alone. -/
namespace Effects

structure HostFile where
  size : Nat
  bytes : Memory
  ended : ∀ i, size ≤ i → bytes i = 0

namespace HostFile

variable {file : HostFile} {first count base width m n i : Nat} {source : Memory} {data : Block width}

def empty : HostFile where
  size := 0
  bytes := fun _ => 0
  ended := fun _ _ => rfl

/-- `lseek(fd, first, SEEK_SET); write(fd, source, count);` -/
def write (file : HostFile) (first count : Nat) (source : Memory) : HostFile where
  size := if count = 0 then file.size else max file.size (first + count)
  bytes := file.bytes.splice first count source
  ended := fun i behind => by
    by_cases none : count = 0
    · rw [if_pos none] at behind
      rw [Memory.splice_outside (by omega)]
      exact file.ended i behind
    · rw [if_neg none] at behind
      rw [Memory.splice_outside (by omega)]
      exact file.ended i (by omega)

/-- `lseek(fd, first, SEEK_SET); read(fd, buffer, count);`: how many bytes there
were, and the bytes from `first` on. -/
def read (file : HostFile) (first count : Nat) : Nat × Memory :=
  (min count (file.size - first), fun k => file.bytes (first + k))

/-- Block `n` of the array that starts at `base`. -/
def block (file : HostFile) (base width n : Nat) : Block width :=
  .of fun k => file.bytes (base + width * n + k)

theorem write_size (inside : first + count ≤ file.size) : (file.write first count source).size = file.size := by
  unfold write
  dsimp only
  split
  · rfl
  · exact Nat.max_eq_left inside

theorem read_all (inside : first + count ≤ file.size) : (file.read first count).1 = count := by
  unfold read
  dsimp only
  omega

theorem read_le (file : HostFile) (first count : Nat) : (file.read first count).1 ≤ file.size - first :=
  Nat.min_le_right _ _

theorem write_bytes_of_disjoint (disjoint : i < first ∨ first + count ≤ i) :
    (file.write first count source).bytes i = file.bytes i := Memory.splice_outside disjoint

theorem block_write_self :
    (file.write (base + width * n) width data.mem).block base width n = data := by
  refine Eq.trans (Block.of_congr fun k bound => ?_) (Block.of_mem data)
  exact (Memory.splice_inside (by omega) (by omega)).trans (by rw [Nat.add_sub_cancel_left])

theorem block_write_other (other : m ≠ n) :
    (file.write (base + width * n) width data.mem).block base width m = file.block base width m := by
  refine Block.of_congr fun k bound => write_bytes_of_disjoint ?_
  rcases Nat.lt_or_gt_of_ne other with less | more
  · have before := Nat.mul_le_mul_left width less
    rw [Nat.mul_succ] at before
    omega
  · have behind := Nat.mul_le_mul_left width more
    rw [Nat.mul_succ] at behind
    omega

end HostFile
end Effects
