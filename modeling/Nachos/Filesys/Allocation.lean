import Nachos.Filesys.Layout

/-! What `FileHeader::Allocate` takes from the free map and records.

It checks for the data sectors of a file only, not for the indirect block, and
it looks for one run of clear bits with a loop that tests past the end of the
map. The maps on which it is exact all the same are described here. -/
namespace Nachos
open Effects FileHeader

/-- The sectors a file of `n` data sectors needs, its indirect block included. -/
def need (n : Nat) : Nat := if n < 9 then n else n + 1

/-- Every sector number that the header of a file of `n` sectors records, in its
slots and, from nine sectors on, in its indirect block. -/
def recorded (disk : Disk) (hdr : FileHeader) (n : Nat) : List Int :=
  if n < 9 then hdr.slots 0 n
  else hdr.slots 0 9 ++ indirectEntries (disk (hdr.dataSectors 8)) (n - 8)

/-- The data sectors of a file of `n` sectors, in the order of its blocks. -/
def dataSectorsOf (disk : Disk) (hdr : FileHeader) (n : Nat) : List Int :=
  (List.range n).map (dataSector disk hdr)

section Recorded

variable {disk : Disk} {hdr : FileHeader} {n : Nat}

theorem length_recorded (disk : Disk) (hdr : FileHeader) (n : Nat) :
    (recorded disk hdr n).length = need n := by
  unfold recorded need
  split
  · exact length_slots hdr 0 n
  · simp only [List.length_append, length_slots, indirectEntries, List.length_map,
      List.length_range]
    omega

theorem recorded_direct (small : n < 9) : recorded disk hdr n = hdr.slots 0 n := if_pos small

theorem recorded_indirect (large : 9 ≤ n) : recorded disk hdr n =
    hdr.slots 0 9 ++ indirectEntries (disk (hdr.dataSectors 8)) (n - 8) := if_neg (by omega)

/-- Up to eight sectors the slots are the data sectors. -/
theorem dataSectorsOf_direct (small : n < 9) : dataSectorsOf disk hdr n = hdr.slots 0 n := by
  apply List.map_congr_left
  intro k member
  have bound := List.mem_range.mp member
  rw [Nat.zero_add]
  exact dataSector_direct (by omega)

/-- From nine sectors on, the slots before the indirect block and then its
entries are. -/
theorem dataSectorsOf_indirect (large : 9 ≤ n) : dataSectorsOf disk hdr n =
    hdr.slots 0 8 ++ indirectEntries (disk (hdr.dataSectors 8)) (n - 8) := by
  have split : List.range n = List.range 8 ++ (List.range (n - 8)).map (8 + ·) := by
    rw [← List.range_add]
    congr 1
    omega
  have direct : (List.range 8).map (dataSector disk hdr) = hdr.slots 0 8 :=
    dataSectorsOf_direct (by omega)
  unfold dataSectorsOf
  rw [split, List.map_append, List.map_map, direct]
  congr 1
  apply List.map_congr_left
  intro k _
  simp only [Function.comp_apply, dataSector]
  rw [if_neg (by omega), Nat.add_sub_cancel_left]

/-- What is recorded besides the data sectors is the indirect block. -/
theorem recorded_perm (large : 9 ≤ n) :
    (recorded disk hdr n).Perm (hdr.dataSectors 8 :: dataSectorsOf disk hdr n) := by
  rw [recorded_indirect large, dataSectorsOf_indirect large, slots_succ hdr 0 8, List.append_assoc,
    Nat.zero_add]
  exact List.perm_middle

theorem mem_dataSectorsOf {s : Int} :
    s ∈ dataSectorsOf disk hdr n ↔ ∃ k, k < n ∧ dataSector disk hdr k = s := by
  simp [dataSectorsOf]

theorem getElem?_dataSectorsOf {k : Nat} {s : Int} :
    (dataSectorsOf disk hdr n)[k]? = some s ↔ k < n ∧ dataSector disk hdr k = s := by
  simp [dataSectorsOf, List.getElem?_eq_some_iff]

theorem mem_recorded {s : Int} : s ∈ recorded disk hdr n ↔
    s ∈ dataSectorsOf disk hdr n ∨ 9 ≤ n ∧ s = hdr.dataSectors 8 := by
  by_cases large : 9 ≤ n
  · rw [(recorded_perm large).mem_iff, List.mem_cons, or_comm]
    simp only [large, true_and]
  · rw [recorded_direct (by omega), dataSectorsOf_direct (by omega)]
    simp only [large, false_and, or_false]

theorem nodup_recorded : (recorded disk hdr n).Nodup ↔ (dataSectorsOf disk hdr n).Nodup ∧
    (9 ≤ n → hdr.dataSectors 8 ∉ dataSectorsOf disk hdr n) := by
  by_cases large : 9 ≤ n
  · rw [(recorded_perm large).nodup_iff, List.nodup_cons, and_comm]
    simp only [large, true_implies]
  · rw [recorded_direct (by omega), dataSectorsOf_direct (by omega)]
    simp only [large, false_implies, and_true]

end Recorded

/-! ## What `Allocate` marks -/

/-- What `Allocate` owes its caller for a file of `n` data sectors: a refusal
exactly when fewer sectors are clear than the file and its indirect block take,
and otherwise that many recorded, all of them clear before, each once. -/
def ExactResult (freeMap : BitMap) (n : Nat) (result : Bool × FileHeader × BitMap) (disk : Disk) :
    Prop :=
  if freeMap.freeCount < need n then result.1 = false ∧ result.2.2 = freeMap
  else result.1 = true ∧ (recorded disk result.2.1 n).length = need n ∧
    freeMap.Takes (recorded disk result.2.1 n) result.2.2

/-- `Allocate` on this map and size returns, with an exact result. -/
def AllocatesExactly (freeMap : BitMap) (fileSize : Nat) : Prop :=
  ∀ (hdr : FileHeader) (disk : Disk) (vis : Counters), Ensures (hdr.Allocate freeMap fileSize)
    (fun result disk' _ => ExactResult freeMap (sectorsFor fileSize) result disk')
    (fun _ => False) disk vis

/-- A header and a disk of zeros. -/
def blankHeader : FileHeader := ⟨.of fun _ => 0⟩

def blankDisk : Disk := fun _ => .of fun _ => 0

/-- The clear bits of the map include a run of `n`. -/
def HasRun (freeMap : BitMap) (n : Nat) : Prop :=
  ∃ b, b + n ≤ freeMap.numBits ∧ ∀ j, j < n → ¬ freeMap.Marked (b + j : Nat)

section Exactness

variable {freeMap : BitMap} {fileSize : Nat}

theorem hasRun_iff {n : Nat} : HasRun freeMap n ↔ ∃ b, freeMap.FirstRun n b := by
  constructor
  · rintro ⟨b, fits, clear⟩
    exact BitMap.exists_firstRun fits clear
  · rintro ⟨b, first⟩
    exact ⟨b, first.fits, first.clear⟩

/-- A single clear bit is a run of one. -/
theorem hasRun_one (free : 0 < freeMap.freeCount) : HasRun freeMap 1 := by
  obtain ⟨s, after, -, taken, -⟩ := BitMap.find_of_free free
  obtain ⟨low, high, clear⟩ := taken.fresh s (by simp)
  refine ⟨s.toNat, by omega, fun j less => ?_⟩
  rw [show s.toNat + j = s.toNat by omega, Int.toNat_of_nonneg low]
  exact clear

theorem allocates_exactly (bits : freeMap.numBits = 1024) (fits : sectorsFor fileSize ≤ 40)
    (run : sectorsFor fileSize ≤ 8 → sectorsFor fileSize ≤ freeMap.freeCount →
      HasRun freeMap (sectorsFor fileSize))
    (spare : 9 ≤ sectorsFor fileSize → freeMap.freeCount ≠ sectorsFor fileSize) :
    AllocatesExactly freeMap fileSize := by
  intro hdr disk vis
  by_cases short : freeMap.freeCount < sectorsFor fileSize
  · refine ensures_Allocate_short short fun hdr' => ?_
    rw [ExactResult, if_pos (by unfold need; split <;> omega)]
    exact ⟨rfl, rfl⟩
  · by_cases small : sectorsFor fileSize ≤ 8
    · have first := hasRun_iff.mp (run small (by omega))
      refine ensures_Allocate_direct bits small (by omega) ?_ ?_
      · rintro none
        obtain ⟨b, here⟩ := first
        exact none b here
      · intro hdr' after _ _ taken _
        rw [ExactResult, if_neg (by unfold need; split <;> omega)]
        refine ⟨rfl, length_recorded _ _ _, ?_⟩
        rw [recorded_direct (by omega)]
        exact taken
    · have more := spare (by omega)
      refine ensures_Allocate_indirect bits (by omega) fits (by omega) ?_
      intro hdr' after block _ _ taken
      rw [ExactResult, if_neg (by unfold need; split <;> omega)]
      refine ⟨rfl, length_recorded _ _ _, ?_⟩
      rw [recorded_indirect (by omega)]
      simpa only [Function.update_self] using taken.toTakes

/-- Enough clear bits, but no run of them: the kernel stops. -/
theorem not_exact_of_scattered (small : sectorsFor fileSize ≤ 8)
    (enough : sectorsFor fileSize ≤ freeMap.freeCount)
    (scattered : ¬ HasRun freeMap (sectorsFor fileSize)) : ¬ AllocatesExactly freeMap fileSize := by
  intro exact
  have several : 2 ≤ sectorsFor fileSize := by
    by_contra few
    apply scattered
    by_cases none : sectorsFor fileSize = 0
    · rw [none]
      exact ⟨0, by omega, by omega⟩
    · rw [show sectorsFor fileSize = 1 by omega] at enough ⊢
      exact hasRun_one enough
  have stops : Ensures (blankHeader.Allocate freeMap fileSize) (fun _ _ _ => False) (fun _ => True)
      blankDisk 0 :=
    ensures_Allocate_scattered small several enough
      (fun b first => scattered (hasRun_iff.mpr ⟨b, first⟩)) trivial
  obtain ⟨-, -, -, -, impossible⟩ := ensures_both (exact blankHeader blankDisk 0) stops
  exact impossible

/-- Exactly as many clear bits as data sectors, and nothing left for the
indirect block: the file is granted all the same. -/
theorem not_exact_of_full (bits : freeMap.numBits = 1024) (large : 9 ≤ sectorsFor fileSize)
    (fits : sectorsFor fileSize ≤ 40) (full : freeMap.freeCount = sectorsFor fileSize) :
    ¬ AllocatesExactly freeMap fileSize := by
  intro exact
  have grants : Ensures (blankHeader.Allocate freeMap fileSize) (fun result _ _ => result.1 = true)
      (fun _ => True) blankDisk 0 :=
    ensures_Allocate_large bits large fits full.ge fun _ _ _ _ _ _ _ _ _ => rfl
  obtain ⟨result, disk', vis', promised, happens⟩ :=
    ensures_both (exact blankHeader blankDisk 0) grants
  rw [ExactResult, if_pos (by unfold need; split <;> omega), happens] at promised
  exact Bool.noConfusion promised.1

/-- `Allocate` is exact on every map but two kinds: for at most eight sectors, a
map with enough clear bits and no run of that many; from nine sectors on, a map
with exactly as many clear bits as the file has data sectors. -/
theorem allocate_is_exact_iff (bits : freeMap.numBits = NumSectors)
    (fits : fileSize ≤ 40 * SectorSize) : AllocatesExactly freeMap fileSize ↔
      (sectorsFor fileSize ≤ 8 → sectorsFor fileSize ≤ freeMap.freeCount →
        HasRun freeMap (sectorsFor fileSize)) ∧
      (9 ≤ sectorsFor fileSize → freeMap.freeCount ≠ sectorsFor fileSize) := by
  have within : sectorsFor fileSize ≤ 40 := by
    unfold sectorsFor
    simp only [SectorSize] at fits
    omega
  constructor
  · intro exact
    refine ⟨fun small enough => ?_, fun large full => not_exact_of_full bits large within full exact⟩
    by_contra scattered
    exact not_exact_of_scattered small enough scattered exact
  · rintro ⟨run, spare⟩
    exact allocates_exactly bits within run spare

end Exactness

/-- A disk of which nothing is in use. -/
def clearMap : BitMap where
  numBits := 1024
  map _ := 0

theorem clearMap_free : clearMap.freeCount = 1024 := by
  simp [BitMap.freeCount, BitMap.bit, clearMap]

theorem allocate_is_exact_empty : clearMap.freeCount = 1024 ∧ AllocatesExactly clearMap 1152 := by
  have nine : sectorsFor 1152 = 9 := rfl
  refine ⟨clearMap_free, (allocate_is_exact_iff rfl (by decide)).mpr ⟨fun small => ?_, fun _ => ?_⟩⟩
  · omega
  · rw [clearMap_free, nine]
    decide

/-- The first 32 sectors and every even one are in use. -/
def evenSectors : BitMap where
  numBits := 1024
  map i := if i = 0 then 0xffffffff#32 else 0x55555555#32

/-- Only the last nine sectors are clear. -/
def nineClear : BitMap where
  numBits := 1024
  map i := if i = 31 then 0x007fffff#32 else 0xffffffff#32

theorem all_ones {k : Nat} (bound : k < 32) : (0xffffffff#32).getLsbD k = true := by
  have pattern : ∀ k, k < 32 → (0xffffffff#32).getLsbD k = true := by decide
  exact pattern k bound

private theorem evenSectors_bit (i : Nat) :
    evenSectors.bit i = decide (i < 32 ∨ i % 2 = 0) := by
  have pattern : ∀ k, k < 32 → (0x55555555#32).getLsbD k = decide (k % 2 = 0) := by decide
  have within : i % 32 < 32 := Nat.mod_lt _ (by decide)
  have parity : i % 32 % 2 = i % 2 := by omega
  rw [BitMap.bit, evenSectors, BitsInWord]
  dsimp only
  by_cases first : i / 32 = 0
  · rw [if_pos first, all_ones within, eq_comm, decide_eq_true_eq]
    omega
  · rw [if_neg first, pattern _ within, parity]
    have past : ¬ i < 32 := by omega
    simp only [past, false_or]

theorem evenSectors_scattered : ¬ HasRun evenSectors 2 := by
  rintro ⟨b, fits, clear⟩
  have bound : b + 2 ≤ 1024 := fits
  have size : evenSectors.numBits = 1024 := rfl
  obtain ⟨j, less, even⟩ : ∃ j, j < 2 ∧ (b + j) % 2 = 0 := by
    by_cases here : b % 2 = 0
    · exact ⟨0, by omega, by omega⟩
    · exact ⟨1, by omega, by omega⟩
  refine clear j less ⟨by omega, by omega, ?_⟩
  rw [Int.toNat_natCast, evenSectors_bit]
  exact decide_eq_true (.inr even)

private theorem evenSectors_free : 2 ≤ evenSectors.freeCount := by
  have odd : ({33, 35} : Finset Nat) ⊆
      (Finset.range evenSectors.numBits).filter fun i => evenSectors.bit i = false := by
    intro i member
    simp only [Finset.mem_insert, Finset.mem_singleton] at member
    refine Finset.mem_filter.mpr ⟨Finset.mem_range.mpr ?_, ?_⟩
    · rcases member with rfl | rfl <;> decide
    · rw [evenSectors_bit]
      rcases member with rfl | rfl <;> decide
  exact Finset.card_le_card odd

private theorem nineClear_free : nineClear.freeCount = 9 := by
  have last : ∀ k, k < 32 → ((0x007fffff#32).getLsbD k = false ↔ 23 ≤ k) := by decide
  have clear : ((Finset.range nineClear.numBits).filter fun i => nineClear.bit i = false) =
      Finset.Ico 1015 1024 := by
    ext i
    have within : i % 32 < 32 := Nat.mod_lt _ (by decide)
    have size : nineClear.numBits = 1024 := rfl
    simp only [Finset.mem_filter, Finset.mem_range, Finset.mem_Ico, size]
    rw [BitMap.bit, nineClear, BitsInWord]
    dsimp only
    by_cases word : i / 32 = 31
    · rw [if_pos word, last _ within]
      omega
    · rw [if_neg word, all_ones within]
      simp only [Bool.true_eq_false, and_false, false_iff]
      omega
  unfold BitMap.freeCount
  rw [clear, Nat.card_Ico]

/-- With every other sector in use, `myFind` runs off the map although nearly
half of it is clear; with nine clear sectors, a nine-sector file is granted without a
sector for its last block. -/
theorem allocate_is_not_exact :
    ¬ AllocatesExactly evenSectors 256 ∧ ¬ AllocatesExactly nineClear 1152 := by
  constructor
  · exact not_exact_of_scattered (by decide) evenSectors_free evenSectors_scattered
  · exact not_exact_of_full rfl (by decide) (by decide) nineClear_free

end Nachos
