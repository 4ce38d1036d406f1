import Mathlib.Tactic
import Nachos.Filesys.BitMapProofs
import Nachos.Filesys.KernelLogic

/-! Header fields read back what was stored in them, and the three routines
that hand out or return sectors change the free map by exactly the sectors the
header names. -/
namespace Nachos.FileHeader
open Effects

section Fields

variable {hdr hdr' hdr'' : FileHeader}

/-- The two headers differ in the clock texts at most. -/
def Agrees (hdr hdr' : FileHeader) : Prop :=
  ∀ i, i < 49 ∨ 124 ≤ i → hdr.mem i = hdr'.mem i

theorem Agrees.refl (hdr : FileHeader) : Agrees hdr hdr := fun _ _ => rfl

theorem Agrees.symm (same : Agrees hdr hdr') : Agrees hdr' hdr := fun i outside =>
  (same i outside).symm

theorem Agrees.trans (first : Agrees hdr hdr') (second : Agrees hdr' hdr'') : Agrees hdr hdr'' :=
  fun i outside => (first i outside).trans (second i outside)

theorem Agrees.field (same : Agrees hdr hdr') {offset : Nat}
    (outside : offset + 4 ≤ 49 ∨ 124 ≤ offset) : hdr.field offset = hdr'.field offset := by
  unfold FileHeader.field
  rw [Memory.word_congr fun k bound => same (offset + k) (by omega)]

theorem Agrees.numBytes (same : Agrees hdr hdr') : hdr.numBytes = hdr'.numBytes :=
  same.field (by omega)

theorem Agrees.numSectors (same : Agrees hdr hdr') : hdr.numSectors = hdr'.numSectors :=
  same.field (by omega)

theorem Agrees.dataSectors (same : Agrees hdr hdr') {i : Nat} (bound : i < 9) :
    hdr.dataSectors i = hdr'.dataSectors i := same.field (by omega)

theorem Agrees.sectorNumber (same : Agrees hdr hdr') : hdr.sectorNumber = hdr'.sectorNumber :=
  same.field (by omega)

theorem mem_setField {offset i : Nat} {value : Int} (bound : i < 128)
    (outside : i < offset ∨ offset + 4 ≤ i) : (hdr.setField offset value).mem i = hdr.mem i :=
  (Block.mem_of (n := SectorSize) bound).trans (Memory.setWord_outside outside)

theorem mem_splice {offset count i : Nat} {source : Memory} (bound : i < 128)
    (outside : i < offset ∨ offset + count ≤ i) :
    (hdr.splice offset count source).mem i = hdr.mem i :=
  (Block.mem_of (n := SectorSize) bound).trans (Memory.splice_outside outside)

theorem mem_past_end (hdr : FileHeader) {i : Nat} (past : 128 ≤ i) : hdr.mem i = 0 :=
  dif_neg (by simpa using past)

theorem field_setField_self {offset : Nat} {value : Int} (inside : offset + 4 ≤ 128)
    (lower : -2147483648 ≤ value) (upper : value < 2147483648) :
    (hdr.setField offset value).field offset = value := by
  have stored := @Block.word_of SectorSize (hdr.mem.setWord offset (BitVec.ofInt 32 value))
    offset inside
  rw [Memory.word_setWord] at stored
  change ((Block.of (hdr.mem.setWord offset (BitVec.ofInt 32 value)) : Sector).mem.word
    offset).toInt = value
  rw [stored, toInt_ofInt_of_range lower upper]

theorem field_setField_of_disjoint {offset offset' : Nat} {value : Int}
    (inside : offset' + 4 ≤ 128) (disjoint : offset' + 4 ≤ offset ∨ offset + 4 ≤ offset') :
    (hdr.setField offset value).field offset' = hdr.field offset' := by
  unfold FileHeader.field
  rw [Memory.word_congr fun k bound => mem_setField (by omega) (by omega)]

theorem setField_field (hdr : FileHeader) (offset : Nat) :
    hdr.setField offset (hdr.field offset) = hdr := by
  unfold setField field
  rw [BitVec.ofInt_toInt, Memory.setWord_word]
  unfold mem
  rw [Block.of_mem]

/-- The two headers differ in one clock text at most. -/
def SameBut (mode : TimeMode) (hdr hdr' : FileHeader) : Prop :=
  ∀ i, i < mode.offset ∨ mode.offset + 25 ≤ i → hdr.mem i = hdr'.mem i

theorem SameBut.trans {mode : TimeMode} (first : SameBut mode hdr hdr')
    (second : SameBut mode hdr' hdr'') : SameBut mode hdr hdr'' :=
  fun i outside => (first i outside).trans (second i outside)

theorem SameBut.symm {mode : TimeMode} (same : SameBut mode hdr hdr') : SameBut mode hdr' hdr :=
  fun i outside => (same i outside).symm

/-- A clock text lies strictly between `type` and `sectorNumber`. -/
theorem SameBut.agrees {mode : TimeMode} (same : SameBut mode hdr hdr') : Agrees hdr hdr' := by
  intro i outside
  refine same i ?_
  cases mode <;> simp only [TimeMode.offset] <;> omega

theorem sameBut_splice {mode : TimeMode} {text : Memory} :
    SameBut mode (hdr.splice mode.offset 25 text) hdr := by
  intro i outside
  by_cases bound : i < 128
  · exact mem_splice bound outside
  · rw [mem_past_end _ (by omega), mem_past_end _ (by omega)]

end Fields

/-- The sectors in `count` successive slots from `first`. -/
def slots (hdr : FileHeader) (first count : Nat) : List Int :=
  (List.range count).map fun i => hdr.dataSectors (first + i)

theorem mem_slots {hdr : FileHeader} {first count : Nat} {s : Int} :
    s ∈ hdr.slots first count ↔ ∃ i, i < count ∧ hdr.dataSectors (first + i) = s := by
  simp [slots]

@[simp]
theorem length_slots (hdr : FileHeader) (first count : Nat) :
    (hdr.slots first count).length = count := by simp [slots]

theorem slots_succ (hdr : FileHeader) (first count : Nat) :
    hdr.slots first (count + 1) = hdr.slots first count ++ [hdr.dataSectors (first + count)] := by
  simp [slots, List.range_succ]

theorem slots_cons (hdr : FileHeader) (first : Nat) {count : Nat} (positive : 0 < count) :
    hdr.slots first count = hdr.dataSectors first :: hdr.slots (first + 1) (count - 1) := by
  obtain ⟨rest, rfl⟩ : ∃ rest, count = rest + 1 := ⟨count - 1, by omega⟩
  unfold slots
  rw [List.range_succ_eq_map, List.map_cons, List.map_map]
  refine congrArg (_ :: ·) (List.map_congr_left fun i _ => ?_)
  rw [Function.comp_apply, Nat.succ_eq_add_one, Nat.add_right_comm, Nat.add_assoc]

theorem slots_append (hdr : FileHeader) (first count more : Nat) :
    hdr.slots first (count + more) = hdr.slots first count ++ hdr.slots (first + count) more := by
  unfold slots
  rw [List.range_add, List.map_append, List.map_map]
  refine congrArg (_ ++ ·) (List.map_congr_left fun i _ => ?_)
  rw [Function.comp_apply, Nat.add_assoc]

/-- Distinct slots are told apart by their sectors. -/
theorem slot_inj {hdr : FileHeader} {first count i j : Nat} (distinct : (hdr.slots first count).Nodup)
    (boundI : first ≤ i ∧ i < first + count) (boundJ : first ≤ j ∧ j < first + count)
    (same : hdr.dataSectors i = hdr.dataSectors j) : i = j := by
  have back : first + (i - first) = i := by omega
  have back' : first + (j - first) = j := by omega
  have equal := List.inj_on_of_nodup_map distinct (List.mem_range.mpr (show i - first < count by omega))
    (List.mem_range.mpr (show j - first < count by omega)) (by rw [back, back']; exact same)
  omega

theorem slots_congr {hdr hdr' : FileHeader} {first count : Nat}
    (same : ∀ i, i < count → hdr.dataSectors (first + i) = hdr'.dataSectors (first + i)) :
    hdr.slots first count = hdr'.slots first count := by
  unfold slots
  apply List.map_congr_left
  intro i member
  exact same i (List.mem_range.mp member)

theorem takeSectors_succ (hdr : FileHeader) (bitmap : BitMap) (first count : Nat) :
    hdr.takeSectors bitmap first (count + 1) = (do
      let taken ← hdr.takeSectors bitmap first count
      let found ← taken.2.Find
      if first + count < 30 then return (taken.1.setDataSectors (first + count) found.1, found.2)
      else throw .undefined) := by
  unfold takeSectors
  rw [List.range_succ, List.foldlM_append]
  simp only [List.foldlM_cons, List.foldlM_nil, bind_pure]

/-- The loop that fills successive slots from the free map takes the least free
sector each time. -/
theorem takeSectors_least (hdr : FileHeader) {before : BitMap} {first count : Nat}
    (size : before.numBits = 1024) (enough : count ≤ before.freeCount)
    (room : first + count ≤ 30) :
    ∃ hdr' after, hdr.takeSectors before first count = .ok (hdr', after) ∧
      before.TakesLeast (hdr'.slots first count) after ∧
      ∀ j, j < 8 + 4 * first ∨ 8 + 4 * (first + count) ≤ j → hdr'.mem j = hdr.mem j := by
  induction count with
  | zero => exact ⟨hdr, before, rfl, BitMap.takesLeast_nil before, fun _ _ => rfl⟩
  | succ count ih =>
    obtain ⟨hdr₁, middle, computed, taken, frame⟩ := ih (by omega) (by omega)
    have left := BitMap.freeCount_takes taken.toTakes
    rw [length_slots] at left
    obtain ⟨s, after, found, one⟩ := @BitMap.find_least middle (by omega)
    obtain ⟨low, high, -⟩ := one.fresh s (by simp)
    rw [taken.size, size] at high
    have last : (hdr₁.setDataSectors (first + count) s).dataSectors (first + count) = s :=
      field_setField_self (by omega) (by omega) (by omega)
    refine ⟨hdr₁.setDataSectors (first + count) s, after, ?_, ?_, ?_⟩
    · rw [takeSectors_succ, computed]
      simp only [bind, Except.bind, found, pure, Except.pure]
      rw [if_pos (by omega)]
    · have rest : (hdr₁.setDataSectors (first + count) s).slots first count =
          hdr₁.slots first count := slots_congr fun i bound =>
        field_setField_of_disjoint (by omega) (by omega)
      rw [slots_succ, last, rest]
      exact taken.append one
    · intro j outside
      by_cases bound : j < 128
      · exact (mem_setField bound (by omega)).trans (frame j (by omega))
      · rw [mem_past_end _ (by omega), mem_past_end _ (by omega)]

/-- The loop that fills successive slots from the free map, starting with the
least free sector. -/
theorem takeSectors_ok (hdr : FileHeader) {before : BitMap} {first count : Nat}
    (size : before.numBits = 1024) (enough : count ≤ before.freeCount)
    (room : first + count ≤ 30) :
    ∃ hdr' after, hdr.takeSectors before first count = .ok (hdr', after) ∧
      before.Takes (hdr'.slots first count) after ∧
      (∀ j, j < 8 + 4 * first ∨ 8 + 4 * (first + count) ≤ j → hdr'.mem j = hdr.mem j) ∧
      (0 < count → ∀ t, 0 ≤ t → t < hdr'.dataSectors first → before.Marked t) := by
  obtain ⟨hdr', after, computed, taken, frame⟩ := takeSectors_least hdr size enough room
  refine ⟨hdr', after, computed, taken.toTakes, frame, ?_⟩
  intro positive t low less
  have opening := slots_cons hdr' first positive
  have member : hdr'.dataSectors first ∈ hdr'.slots first count := by simp [opening]
  rcases (taken.exactly t).mp (taken.below _ member t low less) with old | new
  · exact old
  · have ascending := taken.ascending
    rw [opening] at ascending new
    rcases List.mem_cons.mp new with same | later
    · omega
    · have above := (List.pairwise_cons.mp ascending).1 t later
      omega

/-- The loop that stores a run of adjacent sectors. -/
theorem storeRun_ok (hdr : FileHeader) (start count : Nat) (room : count ≤ 30)
    (bound : start + count ≤ 1024) :
    ((List.range count).foldl (fun hdr (i : Nat) => hdr.setDataSectors i ((start : Int) + i)) hdr).slots 0
        count = (List.range count).map (fun j => ((start + j : Nat) : Int)) ∧
      ∀ j, j < 8 ∨ 8 + 4 * count ≤ j →
        ((List.range count).foldl (fun hdr (i : Nat) => hdr.setDataSectors i ((start : Int) + i)) hdr).mem j =
          hdr.mem j := by
  induction count with
  | zero => exact ⟨rfl, fun _ _ => rfl⟩
  | succ count ih =>
    obtain ⟨stored, frame⟩ := ih (by omega) (by omega)
    rw [List.range_succ, List.foldl_append, List.map_append]
    simp only [List.foldl_cons, List.foldl_nil]
    generalize (List.range count).foldl
      (fun hdr (i : Nat) => hdr.setDataSectors i ((start : Int) + i)) hdr = hdr₁ at *
    constructor
    · have last : (hdr₁.setDataSectors count ((start : Int) + count)).dataSectors (0 + count) =
          ((start + count : Nat) : Int) := by
        rw [Nat.zero_add]
        have read := @field_setField_self hdr₁ (8 + 4 * count) ((start : Int) + count)
          (by omega) (by omega) (by omega)
        simpa [dataSectors, setDataSectors] using read
      have rest : (hdr₁.setDataSectors count ((start : Int) + count)).slots 0 count =
          hdr₁.slots 0 count := slots_congr fun i less =>
        field_setField_of_disjoint (by omega) (by omega)
      rw [slots_succ, last, rest, stored]
      rfl
    · intro j outside
      by_cases inside : j < 128
      · exact (mem_setField inside (by omega)).trans (frame j (by omega))
      · rw [mem_past_end _ (by omega), mem_past_end _ (by omega)]

/-! ## Sector counts -/

/-- The sectors a file of `n` bytes needs. -/
def sectorsFor (n : Nat) : Nat := (n + 127) / 128

theorem divRoundUp_natCast (n : Nat) : divRoundUp n 128 = (sectorsFor n : Int) := by
  unfold divRoundUp sectorsFor
  rw [Int.tdiv_eq_ediv_of_nonneg (by omega), Int.tmod_eq_emod_of_nonneg (by omega)]
  split <;> omega

theorem divRoundDown_natCast (n : Nat) : divRoundDown n 128 = ((n / 128 : Nat) : Int) := by
  unfold divRoundDown
  rw [Int.tdiv_eq_ediv_of_nonneg (by omega)]
  omega

theorem toUnsigned_natCast {n : Nat} (bound : n < 4294967296) : toUnsigned n = n := by
  unfold toUnsigned
  omega

/-! ## Locating a block -/

/-- The sector `ByteToSector` answers for block `k`: the slot itself below
block 8, the signed low byte of an indirect entry from there on. -/
def blockSector (disk : Disk) (hdr : FileHeader) (k : Nat) : Int :=
  if k < 8 then hdr.dataSectors k
  else signedChar ((disk (hdr.dataSectors 8)).mem (4 * (k - 8)))

section Blocks

variable {disk disk' : Disk} {vis : Counters} {fault : Fault → Prop} {hdr hdr' : FileHeader}

theorem blockSector_direct {k : Nat} (direct : k < 8) :
    blockSector disk hdr k = hdr.dataSectors k := if_pos direct

/-- Blocks keep their places while the header's slots and the indirect block
stay as they are. -/
theorem blockSector_congr {k : Nat} (slots : ∀ i, i < 9 → hdr'.dataSectors i = hdr.dataSectors i)
    (indirect : 8 ≤ k → disk' (hdr.dataSectors 8) = disk (hdr.dataSectors 8)) :
    blockSector disk' hdr' k = blockSector disk hdr k := by
  unfold blockSector
  split
  · exact slots k (by omega)
  · rw [slots 8 (by omega), indirect (by omega)]

theorem ensures_ByteToSector {post : Int → Disk → Counters → Prop} {offset : Int} (k : Nat)
    (place : offset = ((k * 128 : Nat) : Int)) (small : k < 40)
    (indirect : 8 ≤ k → ValidSector (hdr.dataSectors 8))
    (holds : post (blockSector disk hdr k) disk vis) :
    Ensures (hdr.ByteToSector offset) post fault disk vis := by
  subst place
  have unsigned : toUnsigned ((k * 128 : Nat) : Int) = k * 128 := toUnsigned_natCast (by omega)
  unfold ByteToSector
  rw [unsigned]
  by_cases direct : k < 8
  · rw [if_pos (by simp; omega)]
    apply ensures_pure
    have block : ((k * 128 : Nat) : Int).toNat / SectorSize = k := by
      simp only [Int.toNat_natCast, SectorSize]
      omega
    rw [blockSector_direct direct] at holds
    rw [block]
    exact holds
  · rw [if_neg (by simp; omega)]
    have tmpOffset : (k * 128 - (NumDirect - 1) * SectorSize) / SectorSize = k - 8 := by
      simp
      omega
    have last : NumDirect - 1 = 8 := rfl
    apply ensures_bind
    rw [last]
    refine ensures_ReadSector (indirect (by omega)) ?_
    simp only [last] at tmpOffset
    rw [tmpOffset, if_pos (by simp; omega), Nat.mul_comm]
    apply ensures_pure
    rw [blockSector, if_neg direct] at holds
    exact holds

theorem ensures_SetTime {post : FileHeader → Disk → Counters → Prop} {mode : TimeMode}
    (holds : ∀ stamped, SameBut mode stamped hdr → post stamped disk vis) :
    Ensures (hdr.SetTime mode) post fault disk vis := by
  apply ensures_bind
  apply ensures_uninitialized
  intro text
  apply ensures_pure
  exact holds _ sameBut_splice

theorem ensures_WriteBack {post : Unit → Disk → Counters → Prop} {s : Int}
    (inRange : ValidSector s) (holds : post () (Function.update disk s hdr.raw) vis) :
    Ensures (hdr.WriteBack s) post fault disk vis := ensures_WriteSector inRange holds

end Blocks

/-! ## Growing a file -/

/-- `Extend` when the free map can supply what is missing: the new slots hold
fresh sectors, everything behind them is untouched. A header that already names
more sectors than it needs takes none. -/
theorem extend_ok (hdr : FileHeader) {bitmap : BitMap} {old total : Nat} {size : Int}
    (bits : bitmap.numBits = 1024) (sectors : hdr.numSectors = old)
    (length : hdr.numBytes + size = total) (bound : total < 2147483648)
    (room : sectorsFor total ≤ 30 ∨ sectorsFor total ≤ old)
    (enough : sectorsFor total - old ≤ bitmap.freeCount) :
    ∃ hdr' after, hdr.Extend bitmap size = .ok (true, hdr', after) ∧ hdr'.numBytes = total ∧
      hdr'.numSectors = sectorsFor total ∧
      bitmap.Takes (hdr'.slots old (sectorsFor total - old)) after ∧
      (∀ j, 8 ≤ j → j < 8 + 4 * old ∨ 8 + 4 * sectorsFor total ≤ j → hdr'.mem j = hdr.mem j) ∧
      (old < sectorsFor total → ∀ t, 0 ≤ t → t < hdr'.dataSectors old → bitmap.Marked t) := by
  have wide : sectorsFor total ≤ 16777216 := by unfold sectorsFor; omega
  let hdr₁ := (hdr.setNumBytes total).setNumSectors (sectorsFor total)
  have bytes₁ : hdr₁.numBytes = total :=
    (field_setField_of_disjoint (by omega) (by omega)).trans
      (field_setField_self (by omega) (by omega) (by omega))
  have sectors₁ : hdr₁.numSectors = sectorsFor total :=
    field_setField_self (by omega) (by omega) (by omega)
  have frame₁ : ∀ j, 8 ≤ j → hdr₁.mem j = hdr.mem j := by
    intro j past
    by_cases inside : j < 128
    · exact (mem_setField inside (by omega)).trans (mem_setField inside (by omega))
    · rw [mem_past_end _ (by omega), mem_past_end _ (by omega)]
  by_cases same : old = sectorsFor total
  · refine ⟨hdr₁, bitmap, ?_, bytes₁, sectors₁, ?_, fun j past _ => frame₁ j past, by omega⟩
    · unfold Extend
      simp only [length, sectors, SectorSize, Nat.cast_ofNat, divRoundUp_natCast]
      rw [if_neg (by omega), if_pos (by omega)]
      rfl
    · rw [same, Nat.sub_self]
      exact BitMap.takes_nil bitmap
  · have supply : ∃ hdr' after, hdr₁.takeSectors bitmap old (sectorsFor total - old) =
        .ok (hdr', after) ∧ bitmap.Takes (hdr'.slots old (sectorsFor total - old)) after ∧
        (∀ j, j < 8 + 4 * old ∨ 8 + 4 * (old + (sectorsFor total - old)) ≤ j →
          hdr'.mem j = hdr₁.mem j) ∧
        (0 < sectorsFor total - old → ∀ t, 0 ≤ t → t < hdr'.dataSectors old → bitmap.Marked t) := by
      by_cases more : old < sectorsFor total
      · exact takeSectors_ok hdr₁ bits enough (by omega)
      · rw [show sectorsFor total - old = 0 by omega]
        exact ⟨hdr₁, bitmap, rfl, BitMap.takes_nil bitmap, fun _ _ => rfl, by omega⟩
    obtain ⟨hdr', after, computed, taken, frame, least⟩ := supply
    have keep : ∀ j, j < 8 → hdr'.mem j = hdr₁.mem j := fun j before => frame j (by omega)
    refine ⟨hdr', after, ?_, ?_, ?_, taken, ?_, fun more => least (by omega)⟩
    · unfold Extend
      simp only [length, sectors, SectorSize, Nat.cast_ofNat, divRoundUp_natCast]
      rw [if_neg (by omega), if_neg (by omega)]
      simp only [BitMap.numClear_ok, bind, Except.bind]
      rw [if_neg (by omega), if_neg (by omega)]
      have count : ((sectorsFor total : Int) - old).toNat = sectorsFor total - old := by omega
      simp only [Int.toNat_natCast, count]
      rw [show (hdr.setNumBytes total).setNumSectors (sectorsFor total) = hdr₁ from rfl, computed]
      rfl
    · rw [← bytes₁]
      exact congrArg BitVec.toInt (Memory.word_congr fun k less => keep _ (by omega))
    · rw [← sectors₁]
      exact congrArg BitVec.toInt (Memory.word_congr fun k less => keep _ (by omega))
    · intro j past outside
      exact (frame j (by omega)).trans (frame₁ j past)

/-! ## Creating and deleting a file's sectors -/

/-- Entry `i` of an indirect block, read as the `int` that was stored. -/
def indirectEntry (block : Sector) (i : Nat) : Int := (block.mem.word (4 * i)).toInt

/-- The first `count` entries of an indirect block. -/
def indirectEntries (block : Sector) (count : Nat) : List Int :=
  (List.range count).map (indirectEntry block)

private theorem takeIndirect_succ (indirect : Memory) (before : BitMap) (count : Nat) :
    takeIndirect indirect before (count + 1) =
      (takeIndirect indirect before count >>= fun (indirect, bitmap) => do
        let (sector, bitmap) ← bitmap.Find
        return (indirect.setWord (4 * count) (BitVec.ofInt 32 sector), bitmap)) := by
  unfold takeIndirect
  rw [List.range_succ, List.foldlM_append]
  simp only [List.foldlM_cons, List.foldlM_nil, bind_pure]

/-- Storing one more entry leaves the earlier ones alone. -/
private theorem words_setWord (indirect : Memory) (count : Nat) (value : BitVec 32) :
    (List.range count).map (fun i => ((indirect.setWord (4 * count) value).word (4 * i)).toInt) =
      (List.range count).map fun i => (indirect.word (4 * i)).toInt := by
  apply List.map_congr_left
  intro i member
  have less := List.mem_range.mp member
  rw [Memory.word_setWord_of_disjoint (by omega)]

/-- The loop over the entries of the indirect block, while the map lasts. -/
private theorem takeIndirect_least (indirect : Memory) {before : BitMap} {count : Nat}
    (size : before.numBits = 1024) (enough : count ≤ before.freeCount) :
    ∃ indirect' after, takeIndirect indirect before count = .ok (indirect', after) ∧
      before.TakesLeast ((List.range count).map fun i => (indirect'.word (4 * i)).toInt) after := by
  induction count with
  | zero => exact ⟨indirect, before, rfl, BitMap.takesLeast_nil before⟩
  | succ count ih =>
    obtain ⟨indirect₁, middle, computed, taken⟩ := ih (by omega)
    have left := BitMap.freeCount_takes taken.toTakes
    simp only [List.length_map, List.length_range] at left
    obtain ⟨s, after, found, one⟩ := @BitMap.find_least middle (by omega)
    obtain ⟨low, high, -⟩ := one.fresh s (by simp)
    rw [taken.size, size] at high
    refine ⟨indirect₁.setWord (4 * count) (BitVec.ofInt 32 s), after, ?_, ?_⟩
    · rw [takeIndirect_succ, computed]
      simp only [bind, Except.bind, found, pure, Except.pure]
    · rw [List.range_succ, List.map_append, words_setWord, List.map_singleton, Memory.word_setWord,
        toInt_ofInt_of_range (by omega) (by omega)]
      exact taken.append one

/-- With one bit too few, the last entry is the -1 of a `Find` that failed. -/
private theorem takeIndirect_short (indirect : Memory) {before : BitMap} {count : Nat}
    (size : before.numBits = 1024) (short : before.freeCount = count) :
    ∃ indirect' after, takeIndirect indirect before (count + 1) = .ok (indirect', after) ∧
      before.TakesLeast ((List.range count).map fun i => (indirect'.word (4 * i)).toInt) after ∧
      (indirect'.word (4 * count)).toInt = -1 := by
  obtain ⟨indirect₁, after, computed, taken⟩ := takeIndirect_least indirect size short.ge
  have left := BitMap.freeCount_takes taken.toTakes
  simp only [List.length_map, List.length_range] at left
  have none : after.Find = .ok (-1, after) := BitMap.find_full (by omega)
  refine ⟨indirect₁.setWord (4 * count) (BitVec.ofInt 32 (-1)), after, ?_, ?_, ?_⟩
  · rw [takeIndirect_succ, computed]
    simp only [bind, Except.bind, none, pure, Except.pure]
  · rw [words_setWord]
    exact taken
  · rw [Memory.word_setWord, toInt_ofInt_of_range (by omega) (by omega)]

section Allocation

variable {disk : Disk} {vis : Counters} {fault : Fault → Prop} {hdr : FileHeader}
  {freeMap : BitMap} {fileSize : Nat}

/-- The header `Allocate` starts from: length and sector count are recorded
whatever happens next. -/
private theorem sized_fields (hdr : FileHeader) (bound : fileSize < 2147483648) :
    ((hdr.setNumBytes fileSize).setNumSectors (sectorsFor fileSize)).numBytes = fileSize ∧
      ((hdr.setNumBytes fileSize).setNumSectors (sectorsFor fileSize)).numSectors =
        sectorsFor fileSize := by
  have wide : sectorsFor fileSize ≤ 16777216 := by unfold sectorsFor; omega
  exact ⟨(field_setField_of_disjoint (by omega) (by omega)).trans
    (field_setField_self (by omega) (by omega) (by omega)),
    field_setField_self (by omega) (by omega) (by omega)⟩

private theorem sized_of_frame {hdr hdr' : FileHeader} (bound : fileSize < 2147483648)
    (frame : ∀ j, j < 8 → hdr'.mem j =
      ((hdr.setNumBytes fileSize).setNumSectors (sectorsFor fileSize)).mem j) :
    hdr'.numBytes = fileSize ∧ hdr'.numSectors = sectorsFor fileSize := by
  obtain ⟨bytes, sectors⟩ := sized_fields hdr bound
  constructor
  · refine Eq.trans ?_ bytes
    exact congrArg BitVec.toInt (Memory.word_congr fun k less => frame (0 + k) (by omega))
  · refine Eq.trans ?_ sectors
    exact congrArg BitVec.toInt (Memory.word_congr fun k less => frame (4 + k) (by omega))

/-- Too few clear bits for the data: `Allocate` refuses and changes nothing. -/
theorem ensures_Allocate_short {post : Bool × FileHeader × BitMap → Disk → Counters → Prop}
    (short : freeMap.freeCount < sectorsFor fileSize)
    (holds : ∀ hdr', post (false, hdr', freeMap) disk vis) :
    Ensures (hdr.Allocate freeMap fileSize) post fault disk vis := by
  unfold Allocate
  apply ensures_bind
  apply ensures_checked (BitMap.numClear_ok freeMap)
  simp only [SectorSize, Nat.cast_ofNat, divRoundUp_natCast]
  rw [if_pos (by omega)]
  exact ensures_pure (holds _)

/-- A file of at most eight sectors: the slots name the sectors taken. The only
way not to return is `myFind` running off the end of a map without a run. -/
theorem ensures_Allocate_direct {post : Bool × FileHeader × BitMap → Disk → Counters → Prop}
    (bits : freeMap.numBits = 1024) (small : sectorsFor fileSize ≤ 8)
    (enough : sectorsFor fileSize ≤ freeMap.freeCount)
    (allowed : (∀ b, ¬ freeMap.FirstRun (sectorsFor fileSize) b) → fault .assertion)
    (holds : ∀ (hdr' : FileHeader) (after : BitMap), hdr'.numBytes = fileSize →
      hdr'.numSectors = sectorsFor fileSize →
      freeMap.Takes (hdr'.slots 0 (sectorsFor fileSize)) after →
      (2 ≤ sectorsFor fileSize ∨ (0 < sectorsFor fileSize ∧
        ∃ b, freeMap.FirstRun (sectorsFor fileSize) b) → ∃ b, freeMap.FirstRun (sectorsFor fileSize) b ∧
        ∀ k, k < sectorsFor fileSize → hdr'.dataSectors k = ((b + k : Nat) : Int)) →
      post (true, hdr', after) disk vis) :
    Ensures (hdr.Allocate freeMap fileSize) post fault disk vis := by
  have bound : fileSize < 2147483648 := by unfold sectorsFor at small; omega
  unfold Allocate
  apply ensures_bind
  apply ensures_checked (BitMap.numClear_ok freeMap)
  simp only [SectorSize, Nat.cast_ofNat, divRoundUp_natCast]
  rw [if_neg (by omega)]
  have unsigned : toUnsigned (sectorsFor fileSize : Int) = sectorsFor fileSize :=
    toUnsigned_natCast (by omega)
  have direct : NumDirect = 9 := rfl
  rw [unsigned, if_pos (by omega)]
  generalize sized : (hdr.setNumBytes fileSize).setNumSectors (sectorsFor fileSize) = hdr₁
  rcases BitMap.myFind_cases freeMap (sectorsFor fileSize) with
    ⟨start, after, found, first, taken⟩ | ⟨failed, -, noRun⟩ | ⟨missing, single, noRun⟩
  · apply ensures_bind
    apply ensures_checked found
    rw [if_pos (by omega)]
    apply ensures_pure
    have fits : start + sectorsFor fileSize ≤ 1024 ∨ sectorsFor fileSize = 0 := by
      by_cases none : sectorsFor fileSize = 0
      · exact .inr none
      · obtain ⟨-, high, -⟩ := taken.fresh ((start + (sectorsFor fileSize - 1) : Nat) : Int)
          (List.mem_map.mpr ⟨_, List.mem_range.mpr (by omega), rfl⟩)
        rw [bits] at high
        omega
    rw [Int.toNat_natCast]
    have stored : ∃ hdr', (List.range (sectorsFor fileSize)).foldl
          (fun hdr (i : Nat) => hdr.setDataSectors i ((start : Int) + i)) hdr₁ = hdr' ∧
        hdr'.slots 0 (sectorsFor fileSize) =
          (List.range (sectorsFor fileSize)).map (fun j => ((start + j : Nat) : Int)) ∧
        ∀ j, j < 8 → hdr'.mem j = hdr₁.mem j := by
      rcases fits with fits | none
      · obtain ⟨slots, frame⟩ := storeRun_ok hdr₁ start (sectorsFor fileSize) (by omega) fits
        exact ⟨_, rfl, slots, fun j less => frame j (by omega)⟩
      · rw [none]
        exact ⟨hdr₁, rfl, rfl, fun _ _ => rfl⟩
    obtain ⟨hdr', computed, slots, frame⟩ := stored
    rw [computed]
    have run : ∀ k, k < sectorsFor fileSize → hdr'.dataSectors k = ((start + k : Nat) : Int) := by
      intro k less
      have here := congrArg (fun l => l[k]?) slots
      simpa [FileHeader.slots, less] using here
    rw [← slots] at taken
    rw [← sized] at frame
    obtain ⟨bytes, sectors⟩ := sized_of_frame bound frame
    exact holds hdr' after bytes sectors taken fun _ => ⟨start, first, run⟩
  · apply ensures_bind
    rw [failed]
    exact ensures_stop (allowed noRun)
  · apply ensures_bind
    apply ensures_checked missing
    rw [if_neg (by simp)]
    obtain ⟨hdr', after, computed, taken, frame, -⟩ :=
      @takeSectors_ok hdr₁ freeMap 0 (sectorsFor fileSize) bits enough (by omega)
    apply ensures_bind
    rw [Int.toNat_natCast]
    apply ensures_checked computed
    apply ensures_pure
    rw [← sized] at frame
    obtain ⟨bytes, sectors⟩ := sized_of_frame bound fun j less => frame j (by omega)
    refine holds hdr' after bytes sectors taken ?_
    rintro (several | ⟨positive, b, run⟩)
    · omega
    · exact absurd run (noRun positive b)

private theorem entries_of {indirect : Memory} {count : Nat} (fits : count ≤ 32) :
    indirectEntries (.of indirect) count =
      (List.range count).map fun i => (indirect.word (4 * i)).toInt := by
  apply List.map_congr_left
  intro i member
  have less := List.mem_range.mp member
  unfold indirectEntry
  rw [Block.word_of (by simp only [SectorSize]; omega)]

/-- A file of nine sectors or more. Only the data sectors were checked for, so
when exactly that many bits are clear the last entry of the indirect block is
the -1 of a `Find` that failed. -/
theorem ensures_Allocate_large {post : Bool × FileHeader × BitMap → Disk → Counters → Prop}
    (bits : freeMap.numBits = 1024) (large : 9 ≤ sectorsFor fileSize)
    (fits : sectorsFor fileSize ≤ 40) (enough : sectorsFor fileSize ≤ freeMap.freeCount)
    (holds : ∀ (hdr' : FileHeader) (middle after : BitMap) (block : Sector),
      hdr'.numBytes = fileSize → hdr'.numSectors = sectorsFor fileSize →
      freeMap.TakesLeast (hdr'.slots 0 9) middle →
      (sectorsFor fileSize < freeMap.freeCount →
        middle.TakesLeast (indirectEntries block (sectorsFor fileSize - 8)) after) →
      (freeMap.freeCount = sectorsFor fileSize →
        middle.TakesLeast (indirectEntries block (sectorsFor fileSize - 9)) after ∧
        indirectEntry block (sectorsFor fileSize - 9) = -1) →
      post (true, hdr', after) (Function.update disk (hdr'.dataSectors 8) block) vis) :
    Ensures (hdr.Allocate freeMap fileSize) post fault disk vis := by
  have bound : fileSize < 2147483648 := by unfold sectorsFor at fits; omega
  unfold Allocate
  apply ensures_bind
  apply ensures_checked (BitMap.numClear_ok freeMap)
  simp only [SectorSize, Nat.cast_ofNat, divRoundUp_natCast]
  rw [if_neg (by omega)]
  have unsigned : toUnsigned (sectorsFor fileSize : Int) = sectorsFor fileSize :=
    toUnsigned_natCast (by omega)
  have direct : NumDirect = 9 := rfl
  rw [unsigned, if_neg (by omega)]
  generalize sized : (hdr.setNumBytes fileSize).setNumSectors (sectorsFor fileSize) = hdr₁
  obtain ⟨hdr', middle, computed, taken, frame⟩ :=
    @takeSectors_least hdr₁ freeMap 0 9 bits (by omega) (by omega)
  rw [direct]
  apply ensures_bind
  apply ensures_checked computed
  have count : toUnsigned ((sectorsFor fileSize : Int) - (9 : Nat) + 1) =
      sectorsFor fileSize - 8 := by
    unfold toUnsigned
    omega
  rw [count, if_neg (by omega)]
  apply ensures_bind
  apply ensures_uninitialized
  intro storage
  have left := BitMap.freeCount_takes taken.toTakes
  rw [length_slots] at left
  obtain ⟨low, high, -⟩ := taken.fresh (hdr'.dataSectors 8) (mem_slots.mpr ⟨8, by omega, rfl⟩)
  rw [bits] at high
  rw [← sized] at frame
  obtain ⟨bytes, sectors⟩ := sized_of_frame bound fun j less => frame j (by omega)
  -- the two ways the entries are filled
  have filled : ∃ indirect after,
      takeIndirect storage middle (sectorsFor fileSize - 8) = .ok (indirect, after) ∧
      (sectorsFor fileSize < freeMap.freeCount →
        middle.TakesLeast (indirectEntries (.of indirect) (sectorsFor fileSize - 8)) after) ∧
      (freeMap.freeCount = sectorsFor fileSize →
        middle.TakesLeast (indirectEntries (.of indirect) (sectorsFor fileSize - 9)) after ∧
        indirectEntry (.of indirect) (sectorsFor fileSize - 9) = -1) := by
    by_cases short : freeMap.freeCount = sectorsFor fileSize
    · obtain ⟨indirect, after, filled, more, missing⟩ := @takeIndirect_short storage middle
        (sectorsFor fileSize - 9) (taken.size.trans bits) (by omega)
      rw [show sectorsFor fileSize - 9 + 1 = sectorsFor fileSize - 8 by omega] at filled
      refine ⟨indirect, after, filled, by omega, fun _ => ⟨?_, ?_⟩⟩
      · rw [entries_of (by omega)]
        exact more
      · unfold indirectEntry
        rw [Block.word_of (by simp only [SectorSize]; omega)]
        exact missing
    · obtain ⟨indirect, after, filled, more⟩ := @takeIndirect_least storage middle
        (sectorsFor fileSize - 8) (taken.size.trans bits) (by omega)
      refine ⟨indirect, after, filled, fun _ => ?_, fun same => absurd same short⟩
      rw [entries_of (by omega)]
      exact more
  obtain ⟨indirect, after, computed', enough', short⟩ := filled
  apply ensures_bind
  apply ensures_checked computed'
  apply ensures_bind
  refine ensures_WriteSector ⟨low, by simpa using high⟩ ?_
  apply ensures_pure
  exact holds hdr' middle after (.of indirect) bytes sectors taken enough' short

/-- A file of nine sectors or more, when there is also room for its indirect
block: slots, indirect block and its entries are all fresh. -/
theorem ensures_Allocate_indirect {post : Bool × FileHeader × BitMap → Disk → Counters → Prop}
    (bits : freeMap.numBits = 1024) (large : 9 ≤ sectorsFor fileSize)
    (fits : sectorsFor fileSize ≤ 40) (enough : sectorsFor fileSize < freeMap.freeCount)
    (holds : ∀ (hdr' : FileHeader) (after : BitMap) (block : Sector), hdr'.numBytes = fileSize →
      hdr'.numSectors = sectorsFor fileSize →
      freeMap.TakesLeast (hdr'.slots 0 9 ++ indirectEntries block (sectorsFor fileSize - 8)) after →
      post (true, hdr', after) (Function.update disk (hdr'.dataSectors 8) block) vis) :
    Ensures (hdr.Allocate freeMap fileSize) post fault disk vis := by
  refine ensures_Allocate_large bits large fits enough.le ?_
  intro hdr' middle after block bytes sectors slots entries _
  exact holds hdr' after block bytes sectors (slots.append (entries enough))

/-- More than forty sectors: `indirect_idx` is filled past its end. -/
theorem ensures_Allocate_huge {post : Bool × FileHeader × BitMap → Disk → Counters → Prop}
    (bits : freeMap.numBits = 1024) (huge : 40 < sectorsFor fileSize) (bound : fileSize < 2147483648)
    (enough : sectorsFor fileSize ≤ freeMap.freeCount) (stops : fault .undefined) :
    Ensures (hdr.Allocate freeMap fileSize) post fault disk vis := by
  have small : sectorsFor fileSize < 2147483648 := by
    unfold sectorsFor
    omega
  unfold Allocate
  apply ensures_bind
  apply ensures_checked (BitMap.numClear_ok freeMap)
  simp only [SectorSize, Nat.cast_ofNat, divRoundUp_natCast]
  rw [if_neg (by omega)]
  have unsigned : toUnsigned (sectorsFor fileSize : Int) = sectorsFor fileSize :=
    toUnsigned_natCast (by omega)
  have direct : NumDirect = 9 := rfl
  rw [unsigned, if_neg (by omega), direct]
  obtain ⟨hdr', middle, computed, -⟩ := @takeSectors_least
    ((hdr.setNumBytes fileSize).setNumSectors (sectorsFor fileSize)) freeMap 0 9 bits (by omega) (by omega)
  apply ensures_bind
  apply ensures_checked computed
  have count : toUnsigned ((sectorsFor fileSize : Int) - (9 : Nat) + 1) = sectorsFor fileSize - 8 := by
    unfold toUnsigned
    omega
  rw [count, if_pos (by omega)]
  exact ensures_stop stops

/-- At most eight sectors and no run of that many clear bits: `myFind` tests
past the end of the map. -/
theorem ensures_Allocate_scattered {post : Bool × FileHeader × BitMap → Disk → Counters → Prop}
    (small : sectorsFor fileSize ≤ 8) (several : 2 ≤ sectorsFor fileSize)
    (enough : sectorsFor fileSize ≤ freeMap.freeCount)
    (scattered : ∀ b, ¬ freeMap.FirstRun (sectorsFor fileSize) b) (stops : fault .assertion) :
    Ensures (hdr.Allocate freeMap fileSize) post fault disk vis := by
  unfold Allocate
  apply ensures_bind
  apply ensures_checked (BitMap.numClear_ok freeMap)
  simp only [SectorSize, Nat.cast_ofNat, divRoundUp_natCast]
  rw [if_neg (by omega)]
  have unsigned : toUnsigned (sectorsFor fileSize : Int) = sectorsFor fileSize :=
    toUnsigned_natCast (by omega)
  have direct : NumDirect = 9 := rfl
  rw [unsigned, if_pos (by omega)]
  apply ensures_bind
  rcases BitMap.myFind_cases freeMap (sectorsFor fileSize) with
    ⟨start, after, found, first, taken⟩ | ⟨failed, -, -⟩ | ⟨-, single | none, -⟩
  · exact absurd first (scattered start)
  · rw [failed]
    exact ensures_stop stops
  · omega
  · have empty : freeMap.freeCount = 0 := by simp [BitMap.freeCount, none]
    omega

end Allocation

/-- Clearing one bit after another. -/
private theorem clearAll_ok {before : BitMap} (sector : Nat → Int) (count : Nat)
    (inRange : ∀ i, i < count → 0 ≤ sector i ∧ sector i < before.numBits) :
    ∃ after, (List.range count).foldlM (fun bitmap i => BitMap.Clear bitmap (sector i)) before =
      .ok after ∧ before.Releases ((List.range count).map sector) after := by
  induction count with
  | zero => exact ⟨before, rfl, BitMap.releases_nil before⟩
  | succ count ih =>
    obtain ⟨middle, computed, released⟩ := ih fun i less => inRange i (by omega)
    obtain ⟨low, high⟩ := inRange count (by omega)
    refine ⟨middle.clearWord (sector count).toNat, ?_, ?_⟩
    · rw [List.range_succ, List.foldlM_append, computed]
      simp only [bind, Except.bind, List.foldlM_cons, List.foldlM_nil,
        BitMap.clear_ok low (by rw [released.size]; exact high), pure, Except.pure]
    · rw [List.range_succ, List.map_append]
      exact released.append (BitMap.releases_one low)

section Deallocation

variable {disk : Disk} {vis : Counters} {fault : Fault → Prop} {hdr : FileHeader}
  {freeMap : BitMap} {count : Nat}

/-- Deleting a file of at most eight sectors clears its slots; the `ASSERT`
holds because they are marked and distinct. -/
theorem ensures_Deallocate_direct {post : BitMap → Disk → Counters → Prop}
    (sectors : hdr.numSectors = count) (small : count ≤ 8)
    (marked : ∀ s ∈ hdr.slots 0 count, freeMap.Marked s) (distinct : (hdr.slots 0 count).Nodup)
    (holds : ∀ after, freeMap.Releases (hdr.slots 0 count) after → post after disk vis) :
    Ensures (hdr.Deallocate freeMap) post fault disk vis := by
  have direct : NumDirect = 9 := rfl
  have unsigned : toUnsigned (count : Int) = count := toUnsigned_natCast (by omega)
  unfold Deallocate
  rw [sectors, unsigned, if_pos (by omega), Int.toNat_natCast]
  have prefixes : ∀ n, n ≤ count → ∃ after, (List.range n).foldlM (fun freeMap i => do
      if ← BitMap.Test freeMap (hdr.dataSectors i) then freeMap.Clear (hdr.dataSectors i)
      else throw Fault.assertion) freeMap = .ok after ∧ freeMap.Releases (hdr.slots 0 n) after := by
    intro n bound
    induction n with
    | zero => exact ⟨freeMap, rfl, BitMap.releases_nil freeMap⟩
    | succ n ih =>
      obtain ⟨middle, computed, released⟩ := ih (by omega)
      have slot : hdr.dataSectors n ∈ hdr.slots 0 count :=
        mem_slots.mpr ⟨n, by omega, by rw [Nat.zero_add]⟩
      have set := marked _ slot
      have unseen : hdr.dataSectors n ∉ hdr.slots 0 n := by
        intro member
        obtain ⟨i, less, same⟩ := mem_slots.mp member
        have positions := List.nodup_iff_injective_get.mp distinct
        have equal := @positions ⟨i, by simp; omega⟩ ⟨n, by simp; omega⟩ (by
          simpa [slots] using same)
        simp at equal
        omega
      have still : middle.Marked (hdr.dataSectors n) := (released.exactly _).mpr ⟨set, unseen⟩
      refine ⟨middle.clearWord (hdr.dataSectors n).toNat, ?_, ?_⟩
      · rw [List.range_succ, List.foldlM_append, computed]
        simp only [bind, Except.bind, List.foldlM_cons, List.foldlM_nil,
          BitMap.test_ok still.1 still.2.1, BitMap.clear_ok still.1 still.2.1, still, decide_true,
          if_true, pure, Except.pure]
      · rw [slots_succ, Nat.zero_add]
        exact released.append (BitMap.releases_one set.1)
  obtain ⟨after, computed, released⟩ := prefixes count le_rfl
  exact ensures_checked computed (holds after released)

/-- Deleting a larger file clears what the indirect block's entries say when
they are read as `char`s, then the nine slots. -/
theorem ensures_Deallocate_indirect {post : BitMap → Disk → Counters → Prop}
    (bits : freeMap.numBits = 1024) (sectors : hdr.numSectors = count) (large : 9 ≤ count)
    (fits : count ≤ 40) (slotsValid : ∀ i, i < 9 → ValidSector (hdr.dataSectors i))
    (blocksValid : ∀ k, 8 ≤ k → k < count → ValidSector (blockSector disk hdr k))
    (holds : ∀ after, freeMap.Releases
      ((List.range (count - 8)).map (fun i => blockSector disk hdr (8 + i)) ++ hdr.slots 0 9)
        after → post after disk vis) :
    Ensures (hdr.Deallocate freeMap) post fault disk vis := by
  have direct : NumDirect = 9 := rfl
  have unsigned : toUnsigned (count : Int) = count := toUnsigned_natCast (by omega)
  have remaining : toUnsigned ((count : Int) - (9 : Nat) + 1) = count - 8 := by
    unfold toUnsigned
    omega
  unfold Deallocate
  rw [sectors, unsigned, direct, if_neg (by omega), remaining]
  apply ensures_bind
  refine ensures_ReadSector (slotsValid 8 (by omega)) ?_
  rw [if_neg (by omega)]
  have entry : ∀ i, signedChar ((disk (hdr.dataSectors 8)).mem (i * 4)) =
      blockSector disk hdr (8 + i) := by
    intro i
    unfold blockSector
    rw [if_neg (by omega), Nat.add_sub_cancel_left, Nat.mul_comm]
  simp only [Nat.add_one_sub_one, entry]
  obtain ⟨middle, computed, released⟩ := @clearAll_ok freeMap (fun i => blockSector disk hdr (8 + i))
    (count - 8) (by
      intro i less
      have valid := blocksValid (8 + i) (by omega) (by omega)
      rw [bits]
      exact ⟨valid.1, by simpa using valid.2⟩)
  apply ensures_bind
  apply ensures_checked computed
  obtain ⟨after, computed', released'⟩ := @clearAll_ok middle (fun i => hdr.dataSectors i) 9 (by
    intro i less
    have valid := slotsValid i less
    rw [released.size, bits]
    exact ⟨valid.1, by simpa using valid.2⟩)
  apply ensures_checked computed'
  apply holds
  have slotList : hdr.slots 0 9 = (List.range 9).map fun i => hdr.dataSectors i := by
    simp [slots]
  rw [slotList]
  exact released.append released'

end Deallocation
end Nachos.FileHeader
