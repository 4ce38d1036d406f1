import Nachos.Filesys.Allocation

/-! The two routines that read what `Allocate` recorded. It stores sector numbers
as 32-bit integers; `ByteToSector` and `Deallocate` read the entries of the
indirect block one `char` at a time. They agree with it as long as the sectors
recorded there lie below 128, which depends on what is clear in the free map. -/
namespace Nachos
open Effects FileHeader


namespace BitMap

/-- The clear bits below `limit`. -/
def clearBelow (bitmap : BitMap) (limit : Nat) : Nat :=
  ((Finset.range limit).filter fun i => bitmap.bit i = false).card

theorem clearBelow_le_freeCount {bitmap : BitMap} {limit : Nat} (within : limit ≤ bitmap.numBits) :
    bitmap.clearBelow limit ≤ bitmap.freeCount := by
  apply Finset.card_le_card
  apply Finset.filter_subset_filter
  simpa using within

theorem freeCount_le_clearBelow {bitmap : BitMap} {limit : Nat} :
    bitmap.freeCount ≤ bitmap.clearBelow limit + (bitmap.numBits - limit) := by
  have split : (Finset.range bitmap.numBits).filter (fun i => bitmap.bit i = false) ⊆
      ((Finset.range limit).filter fun i => bitmap.bit i = false) ∪ Finset.Ico limit bitmap.numBits := by
    intro i member
    obtain ⟨bound, clear⟩ := Finset.mem_filter.mp member
    have less := Finset.mem_range.mp bound
    by_cases low : i < limit
    · exact Finset.mem_union_left _ (Finset.mem_filter.mpr ⟨Finset.mem_range.mpr low, clear⟩)
    · exact Finset.mem_union_right _ (Finset.mem_Ico.mpr ⟨by omega, less⟩)
  have counted := (Finset.card_le_card split).trans (Finset.card_union_le _ _)
  rwa [Nat.card_Ico] at counted

private theorem clear_iff {bitmap : BitMap} {i : Nat} (bound : i < bitmap.numBits) :
    bitmap.bit i = false ↔ ¬ bitmap.Marked i := by
  have low : (0 : Int) ≤ i := by omega
  have high : (i : Int) < bitmap.numBits := by omega
  simp [Marked, low, high]

theorem Same.clearBelow {bitmap bitmap' : BitMap} (same : Same bitmap bitmap') {limit : Nat}
    (within : limit ≤ bitmap.numBits) : bitmap.clearBelow limit = bitmap'.clearBelow limit := by
  unfold BitMap.clearBelow
  congr 1
  apply Finset.filter_congr
  intro i member
  have bound := Finset.mem_range.mp member
  have size := same.size
  rw [clear_iff (by omega), clear_iff (by omega), same.marks]

/-- If nothing is left clear below the sectors taken, they lie below `limit` as long as
enough is clear there. -/
theorem Takes.all_below_iff {before after : BitMap} {sectors : List Int} {limit : Nat}
    (taken : Takes before sectors after) (least : ∀ s ∈ sectors, ∀ t, 0 ≤ t → t < s → after.Marked t)
    (within : limit ≤ before.numBits) :
    (∀ s ∈ sectors, s < limit) ↔ sectors.length ≤ before.clearBelow limit := by
  have positions : (sectors.map Int.toNat).Nodup := by
    refine List.Nodup.map_on (fun s here t there same => ?_) taken.distinct
    have low := (taken.fresh s here).1
    have low' := (taken.fresh t there).1
    omega
  have card : (sectors.map Int.toNat).toFinset.card = sectors.length := by
    rw [List.toFinset_card_of_nodup positions, List.length_map]
  rw [← card]
  constructor
  · intro below
    apply Finset.card_le_card
    intro i member
    obtain ⟨s, here, rfl⟩ := List.mem_map.mp (List.mem_toFinset.mp member)
    obtain ⟨low, high, clear⟩ := taken.fresh s here
    have less := below s here
    refine Finset.mem_filter.mpr ⟨Finset.mem_range.mpr (by omega), ?_⟩
    rw [clear_iff (by omega), Int.toNat_of_nonneg low]
    exact clear
  · intro enough s here
    by_contra above
    -- everything clear below the limit was taken, and `s` besides
    have inside : ((Finset.range limit).filter fun i => before.bit i = false) ⊆
        (sectors.map Int.toNat).toFinset.erase s.toNat := by
      intro i member
      obtain ⟨bound, unset⟩ := Finset.mem_filter.mp member
      have less := Finset.mem_range.mp bound
      have clear := (clear_iff (by omega)).mp unset
      refine Finset.mem_erase.mpr ⟨by omega, List.mem_toFinset.mpr (List.mem_map.mpr ⟨i, ?_, by simp⟩)⟩
      rcases (taken.exactly i).mp (least s here i (by omega) (by omega)) with old | new
      · exact absurd old clear
      · exact new
    have member : s.toNat ∈ (sectors.map Int.toNat).toFinset :=
      List.mem_toFinset.mpr (List.mem_map.mpr ⟨s, here, rfl⟩)
    have counted := Finset.card_le_card inside
    have fewer := Finset.card_erase_lt_of_mem member
    unfold clearBelow at enough
    omega

/-- The sector that is taken `i`-th has `i` clear ones below it. -/
theorem TakesLeast.clearBelow_getElem {before after : BitMap} {sectors : List Int}
    (taken : TakesLeast before sectors after) {i : Nat} {s : Int} (place : sectors[i]? = some s) :
    before.clearBelow s.toNat = i := by
  obtain ⟨bound, here⟩ := List.getElem?_eq_some_iff.mp place
  obtain ⟨low, high, -⟩ := taken.fresh s (here ▸ List.getElem_mem bound)
  have order := List.pairwise_iff_getElem.mp taken.ascending
  have positions : ((sectors.take i).map Int.toNat).Nodup := by
    refine List.Nodup.map_on (fun s here t there same => ?_) (taken.distinct.sublist (List.take_sublist i _))
    have low := (taken.fresh s (List.mem_of_mem_take here)).1
    have low' := (taken.fresh t (List.mem_of_mem_take there)).1
    omega
  have earlier : ((Finset.range s.toNat).filter fun j => before.bit j = false) =
      ((sectors.take i).map Int.toNat).toFinset := by
    ext t
    simp only [Finset.mem_filter, Finset.mem_range, List.mem_toFinset, List.mem_map, List.mem_take_iff_getElem]
    constructor
    · rintro ⟨less, unset⟩
      have clear := (clear_iff (by omega)).mp unset
      have taken' := taken.below s (here ▸ List.getElem_mem bound) t (by omega) (by omega)
      rcases (taken.exactly t).mp taken' with old | new
      · exact absurd old clear
      · obtain ⟨j, inside, same⟩ := List.getElem_of_mem new
        refine ⟨t, ⟨j, ?_, same⟩, Int.toNat_natCast t⟩
        by_contra late
        rcases Nat.lt_or_eq_of_le (show i ≤ j by omega) with later | rfl
        · have above := order i j bound inside later
          omega
        · omega
    · rintro ⟨u, ⟨j, inside, rfl⟩, rfl⟩
      have less := order j i (by omega) bound (by omega)
      obtain ⟨low', high', clear⟩ := taken.fresh sectors[j] (List.getElem_mem _)
      refine ⟨by omega, (clear_iff (by omega)).mpr ?_⟩
      rw [Int.toNat_of_nonneg low']
      exact clear
  unfold BitMap.clearBelow
  rw [earlier, List.toFinset_card_of_nodup positions, List.length_map, List.length_take]
  omega

/-- No two clear sectors have equally many clear ones below. -/
theorem eq_of_clearBelow_eq {bitmap : BitMap} {s t : Int} (clear : ¬ bitmap.Marked s) (clear' : ¬ bitmap.Marked t)
    (valid : 0 ≤ s ∧ s < bitmap.numBits) (valid' : 0 ≤ t ∧ t < bitmap.numBits)
    (same : bitmap.clearBelow s.toNat = bitmap.clearBelow t.toNat) : s = t := by
  have mono : ∀ {s t : Int}, ¬ bitmap.Marked s → 0 ≤ s → s < t → t < bitmap.numBits →
      bitmap.clearBelow s.toNat < bitmap.clearBelow t.toNat := by
    intro s t clear low less high
    refine Finset.card_lt_card (Finset.ssubset_iff_of_subset ?_ |>.mpr ⟨s.toNat, ?_, ?_⟩)
    · exact Finset.filter_subset_filter _ (Finset.range_mono (by omega))
    · refine Finset.mem_filter.mpr ⟨Finset.mem_range.mpr (by omega), (clear_iff (by omega)).mpr ?_⟩
      rw [Int.toNat_of_nonneg low]
      exact clear
    · exact fun member => lt_irrefl _ (Finset.mem_range.mp (Finset.mem_filter.mp member).1)
  rcases Int.lt_trichotomy s t with less | equal | more
  · exact absurd (mono clear valid.1 less valid'.2) (by omega)
  · exact equal
  · exact absurd (mono clear' valid'.1 more valid.2) (by omega)

/-- What `Find` takes one after another. -/
theorem TakesLeast.all_below_iff {before after : BitMap} {sectors : List Int} {limit : Nat}
    (taken : TakesLeast before sectors after) (within : limit ≤ before.numBits) :
    (∀ s ∈ sectors, s < limit) ↔ sectors.length ≤ before.clearBelow limit :=
  taken.toTakes.all_below_iff taken.below within

/-- Releasing what was taken leads back. -/
theorem Takes.released {before after restored : BitMap} {sectors sectors' : List Int}
    (taken : Takes before sectors after) (released : Releases after sectors' restored)
    (same : ∀ s, s ∈ sectors' ↔ s ∈ sectors) : Same restored before where
  size := released.size.trans taken.size
  marks := fun s => by
    rw [released.exactly, taken.exactly, same]
    constructor
    · rintro ⟨old | new, kept⟩
      · exact old
      · exact absurd new kept
    · intro old
      exact ⟨.inl old, fun new => (taken.fresh s new).2.2 old⟩

end BitMap

/-- After `Allocate` has granted a file of `n` sectors, `ByteToSector` sends its
blocks to the data sectors that were marked, each to its own, and `Deallocate`
leads back to the map from before. -/
structure ReadBack (freeMap : BitMap) (n : Nat) (hdr : FileHeader) (after : BitMap) (disk : Disk)
    (vis : Counters) : Prop where
  blocks : ∃ places : List Int, places.length = n ∧
    (∀ k s, places[k]? = some s → Ensures (hdr.ByteToSector ((k * SectorSize : Nat) : Int))
      (fun sector disk' vis' => sector = s ∧ disk' = disk ∧ vis' = vis) (fun _ => False) disk vis) ∧
    places.Nodup ∧ ∀ s, s ∈ places ↔
      after.Marked s ∧ ¬ freeMap.Marked s ∧ ¬ (9 ≤ n ∧ s = hdr.dataSectors 8)
  freed : Ensures (hdr.Deallocate after) (fun restored _ _ => BitMap.Same restored freeMap)
    (fun _ => False) disk vis

/-- Whatever header and disk `Allocate` starts from, a grant can be read back. -/
def ReadersAgree (freeMap : BitMap) (fileSize : Nat) : Prop :=
  ∀ (hdr : FileHeader) (disk : Disk) (vis : Counters), Ensures (hdr.Allocate freeMap fileSize)
    (fun result disk' vis' => result.1 = true →
      ReadBack freeMap (sectorsFor fileSize) result.2.1 result.2.2 disk' vis')
    (fun _ => True) disk vis

section Readers

variable {freeMap after : BitMap} {hdr : FileHeader} {disk : Disk} {vis : Counters}
  {fileSize n : Nat}

theorem signedChar_lt (c : UInt8) : signedChar c < 128 := by
  have bound := @BitVec.toInt_lt 8 c.toBitVec
  unfold signedChar
  omega

/-- Entries that fit in seven bits are read as they were stored. -/
theorem blockSector_of_recorded (valid : ∀ s ∈ recorded disk hdr n, ValidSector s)
    (small : ∀ k, 8 ≤ k → k < n → dataSector disk hdr k < 128) {k : Nat} (bound : k < n) :
    blockSector disk hdr k = dataSector disk hdr k := by
  refine blockSector_eq_dataSector fun large => ⟨?_, small k large bound⟩
  exact (valid _ (mem_recorded.mpr (.inl (mem_dataSectorsOf.mpr ⟨k, bound, rfl⟩)))).1

/-- `Deallocate` clears exactly what is recorded, if the entries of the indirect
block fit in seven bits. -/
theorem ensures_Deallocate_recorded {post : BitMap → Disk → Counters → Prop} {fault : Fault → Prop}
    (bits : freeMap.numBits = 1024) (sectors : hdr.numSectors = n) (fits : n ≤ 40)
    (marked : ∀ s ∈ recorded disk hdr n, freeMap.Marked s) (distinct : (recorded disk hdr n).Nodup)
    (small : ∀ k, 8 ≤ k → k < n → dataSector disk hdr k < 128)
    (holds : ∀ after, freeMap.Releases (recorded disk hdr n) after → post after disk vis) :
    Ensures (hdr.Deallocate freeMap) post fault disk vis := by
  have valid : ∀ s ∈ recorded disk hdr n, ValidSector s := by
    intro s member
    obtain ⟨low, high, -⟩ := marked s member
    rw [bits] at high
    exact ⟨low, high⟩
  by_cases large : 9 ≤ n
  · have slot : ∀ i, i < 9 → hdr.dataSectors i ∈ recorded disk hdr n := by
      intro i bound
      rw [recorded_indirect large]
      exact List.mem_append_left _ (mem_slots.mpr ⟨i, bound, by rw [Nat.zero_add]⟩)
    have read : (List.range (n - 8)).map (fun i => blockSector disk hdr (8 + i)) =
        indirectEntries (disk (hdr.dataSectors 8)) (n - 8) := by
      apply List.map_congr_left
      intro i member
      have bound := List.mem_range.mp member
      rw [blockSector_of_recorded valid small (by omega), dataSector, if_neg (by omega),
        Nat.add_sub_cancel_left]
    refine ensures_Deallocate_indirect bits sectors large fits (fun i bound => valid _ (slot i bound))
      ?_ ?_
    · intro k _ bound
      rw [blockSector_of_recorded valid small bound]
      exact valid _ (mem_recorded.mpr (.inl (mem_dataSectorsOf.mpr ⟨k, bound, rfl⟩)))
    · intro after released
      rw [read] at released
      refine holds after (released.of_mem fun s => ?_)
      rw [recorded_indirect large, List.mem_append, List.mem_append, or_comm]
  · have direct : recorded disk hdr n = hdr.slots 0 n := recorded_direct (by omega)
    rw [direct] at marked distinct holds
    exact ensures_Deallocate_direct sectors (by omega) marked distinct holds

/-- The readers agree on a header whose indirect entries fit in seven bits. -/
theorem readBack_of_recorded (bits : freeMap.numBits = 1024) (sectors : hdr.numSectors = n)
    (fits : n ≤ 40) (taken : freeMap.Takes (recorded disk hdr n) after)
    (small : ∀ k, 8 ≤ k → k < n → dataSector disk hdr k < 128) :
    ReadBack freeMap n hdr after disk vis := by
  have valid : ∀ s ∈ recorded disk hdr n, ValidSector s := by
    intro s member
    obtain ⟨low, high, -⟩ := taken.fresh s member
    rw [bits] at high
    exact ⟨low, high⟩
  obtain ⟨distinct, apart⟩ := nodup_recorded.mp taken.distinct
  refine ⟨⟨dataSectorsOf disk hdr n, by simp [dataSectorsOf], ?_, distinct, ?_⟩, ?_⟩
  · intro k s found
    obtain ⟨bound, rfl⟩ := getElem?_dataSectorsOf.mp found
    refine ensures_ByteToSector k rfl (by omega) (fun large => ?_) ?_
    · exact valid _ (mem_recorded.mpr (.inr ⟨by omega, rfl⟩))
    · exact ⟨blockSector_of_recorded valid small bound, rfl, rfl⟩
  · intro s
    rw [taken.exactly]
    constructor
    · intro member
      have new := mem_recorded.mpr (.inl member)
      refine ⟨.inr new, (taken.fresh s new).2.2, ?_⟩
      rintro ⟨large, rfl⟩
      exact apart large member
    · rintro ⟨old | new, clear, other⟩
      · exact absurd old clear
      · exact (mem_recorded.mp new).resolve_right other
  · refine ensures_Deallocate_recorded (taken.size.trans bits) sectors fits
      (fun s member => (taken.exactly s).mpr (.inr member)) taken.distinct small ?_
    intro restored released
    exact taken.released released fun s => Iff.rfl

/-- The sectors `ByteToSector` answers with, block by block. -/
theorem ReadBack.answers (readBack : ReadBack freeMap n hdr after disk vis) (fits : n ≤ 40)
    (indirect : 9 ≤ n → ValidSector (hdr.dataSectors 8)) :
    ((List.range n).map (blockSector disk hdr)).Nodup ∧
      ∀ s, s ∈ (List.range n).map (blockSector disk hdr) ↔
        after.Marked s ∧ ¬ freeMap.Marked s ∧ ¬ (9 ≤ n ∧ s = hdr.dataSectors 8) := by
  obtain ⟨places, length, answers, distinct, exactly⟩ := readBack.blocks
  have same : (List.range n).map (blockSector disk hdr) = places := by
    apply List.ext_getElem?
    intro k
    by_cases bound : k < n
    · obtain ⟨s, found⟩ : ∃ s, places[k]? = some s :=
        ⟨places[k], List.getElem?_eq_getElem (by omega)⟩
      have reads : Ensures (hdr.ByteToSector ((k * SectorSize : Nat) : Int))
          (fun sector _ _ => sector = blockSector disk hdr k) (fun _ => True) disk vis :=
        ensures_ByteToSector k rfl (by omega) (fun large => indirect (by omega)) rfl
      obtain ⟨sector, _, _, ⟨answered, -, -⟩, located⟩ := ensures_both (answers k s found) reads
      rw [found, List.getElem?_map, List.getElem?_range bound, ← answered, located]
      rfl
    · rw [List.getElem?_eq_none (by simp; omega), List.getElem?_eq_none (by omega)]
  rw [same]
  exact ⟨distinct, exactly⟩

theorem readers_agree_direct (bits : freeMap.numBits = 1024) (small : sectorsFor fileSize ≤ 8)
    (enough : sectorsFor fileSize ≤ freeMap.freeCount) : ReadersAgree freeMap fileSize := by
  intro hdr disk vis
  refine ensures_Allocate_direct bits small enough (fun _ => trivial) ?_
  intro hdr' after _ sectors taken _ _
  refine readBack_of_recorded bits sectors (by omega) ?_ (by omega)
  rw [recorded_direct (by omega)]
  exact taken

theorem readers_agree_indirect (bits : freeMap.numBits = 1024) (large : 9 ≤ sectorsFor fileSize)
    (fits : sectorsFor fileSize ≤ 40) (low : sectorsFor fileSize + 1 ≤ freeMap.clearBelow 128) :
    ReadersAgree freeMap fileSize := by
  intro hdr disk vis
  have spare := @BitMap.clearBelow_le_freeCount freeMap 128 (by omega)
  refine ensures_Allocate_large bits large fits (by omega) ?_
  intro hdr' middle after block _ sectors slots entries _ _
  have here : Function.update disk (hdr'.dataSectors 8) block (hdr'.dataSectors 8) = block :=
    Function.update_self ..
  have taken := slots.append (entries (by omega))
  rw [← here, ← recorded_indirect large] at taken
  have length : (recorded (Function.update disk (hdr'.dataSectors 8) block) hdr'
      (sectorsFor fileSize)).length ≤ freeMap.clearBelow 128 := by
    rw [length_recorded, need, if_neg (by omega)]
    exact low
  have below := (taken.all_below_iff (by omega)).mpr length
  refine readBack_of_recorded bits sectors fits taken.toTakes fun k _ bound => ?_
  exact below _ (mem_recorded.mpr (.inl (mem_dataSectorsOf.mpr ⟨k, bound, rfl⟩)))

/-- Without a sector for its last block, a file has one block more than it has
data sectors. -/
theorem not_readBack_of_short {middle : BitMap} (bits : freeMap.numBits = 1024) (large : 9 ≤ n)
    (fits : n ≤ 40) (slots : freeMap.Takes (hdr.slots 0 9) middle)
    (entries : middle.Takes (indirectEntries (disk (hdr.dataSectors 8)) (n - 9)) after) :
    ¬ ReadBack freeMap n hdr after disk vis := by
  intro readBack
  have valid : ValidSector (hdr.dataSectors 8) := by
    obtain ⟨low, upper, -⟩ := slots.fresh _ (mem_slots.mpr ⟨8, by omega, rfl⟩)
    rw [bits] at upper
    exact ⟨low, upper⟩
  obtain ⟨distinct, exactly⟩ := readBack.answers fits fun _ => valid
  have taken := slots.append entries
  have inside : (List.range n).map (blockSector disk hdr) ⊆
      hdr.slots 0 8 ++ indirectEntries (disk (hdr.dataSectors 8)) (n - 9) := by
    intro s member
    obtain ⟨set, clear, other⟩ := (exactly s).mp member
    have new := ((taken.exactly s).mp set).resolve_left clear
    rw [slots_succ, List.append_assoc, List.mem_append, List.mem_append, List.mem_singleton] at new
    rcases new with slot | block | entry
    · exact List.mem_append_left _ slot
    · exact absurd ⟨large, block⟩ other
    · exact List.mem_append_right _ entry
  have counted := (List.subperm_of_subset distinct inside).length_le
  simp only [List.length_map, List.length_range, List.length_append, length_slots,
    indirectEntries] at counted
  omega

/-- A data sector from 128 on, recorded in the indirect block, is not what any
block is read as. -/
theorem not_readBack_of_high {k : Nat} (bits : freeMap.numBits = 1024) (fits : n ≤ 40)
    (taken : freeMap.Takes (recorded disk hdr n) after) (indirect : 8 ≤ k) (bound : k < n)
    (high : 128 ≤ dataSector disk hdr k) : ¬ ReadBack freeMap n hdr after disk vis := by
  intro readBack
  have large : 9 ≤ n := by omega
  have data : dataSector disk hdr k ∈ dataSectorsOf disk hdr n := mem_dataSectorsOf.mpr ⟨k, bound, rfl⟩
  have member := mem_recorded.mpr (.inl data)
  obtain ⟨distinct, apart⟩ := nodup_recorded.mp taken.distinct
  obtain ⟨low, upper, -⟩ := taken.fresh _ (mem_recorded.mpr (.inr ⟨large, rfl⟩))
  rw [bits] at upper
  obtain ⟨-, exactly⟩ := readBack.answers fits fun _ => ⟨low, upper⟩
  have answered := (exactly (dataSector disk hdr k)).mpr ⟨(taken.exactly _).mpr (.inr member),
    (taken.fresh _ member).2.2, fun ⟨_, same⟩ => apart large (same ▸ data)⟩
  obtain ⟨j, within, read⟩ := List.mem_map.mp answered
  have less := List.mem_range.mp within
  by_cases direct : j < 8
  · rw [blockSector_direct direct, ← @dataSector_direct disk hdr j direct] at read
    have equal := List.inj_on_of_nodup_map distinct within (List.mem_range.mpr bound) read
    omega
  · have small := signedChar_lt ((disk (hdr.dataSectors 8)).mem (4 * (j - 8)))
    rw [blockSector, if_neg direct] at read
    omega

/-- With too few clear bits below 128, an entry of the indirect block is past it. -/
theorem exists_high_entry (bits : freeMap.numBits = 1024) (large : 9 ≤ n)
    (taken : freeMap.TakesLeast (recorded disk hdr n) after) (few : freeMap.clearBelow 128 ≤ n) :
    ∃ k, 8 ≤ k ∧ k < n ∧ 128 ≤ dataSector disk hdr k := by
  by_contra none
  push Not at none
  have entry : ∀ s ∈ indirectEntries (disk (hdr.dataSectors 8)) (n - 8), s < 128 := by
    intro s member
    obtain ⟨i, within, rfl⟩ := List.mem_map.mp member
    have less := List.mem_range.mp within
    have below := none (8 + i) (by omega) (by omega)
    rw [dataSector, if_neg (by omega), Nat.add_sub_cancel_left] at below
    exact below
  have below : ∀ s ∈ recorded disk hdr n, s < (128 : Nat) := by
    intro s member
    have ascending := taken.ascending
    rw [recorded_indirect large] at member ascending
    rcases List.mem_append.mp member with slot | later
    · -- the slots were taken before the first entry
      have first : indirectEntry (disk (hdr.dataSectors 8)) 0 ∈
          indirectEntries (disk (hdr.dataSectors 8)) (n - 8) :=
        List.mem_map.mpr ⟨0, List.mem_range.mpr (by omega), rfl⟩
      exact ((List.pairwise_append.mp ascending).2.2 s slot _ first).trans (entry _ first)
    · exact entry s later
  have counted := (taken.all_below_iff (by omega)).mp below
  rw [length_recorded, need, if_neg (by omega)] at counted
  omega

/-- Too few clear bits below 128 for the file and its indirect block: its last
block is not found again. -/
theorem readers_disagree (bits : freeMap.numBits = 1024) (large : 9 ≤ sectorsFor fileSize)
    (fits : sectorsFor fileSize ≤ 40) (enough : sectorsFor fileSize ≤ freeMap.freeCount)
    (few : freeMap.clearBelow 128 ≤ sectorsFor fileSize) : ¬ ReadersAgree freeMap fileSize := by
  intro agree
  have grants : Ensures (blankHeader.Allocate freeMap fileSize) (fun result disk _ =>
      result.1 = true ∧ ∃ middle, freeMap.TakesLeast (result.2.1.slots 0 9) middle ∧
        (sectorsFor fileSize < freeMap.freeCount → middle.TakesLeast (indirectEntries
          (disk (result.2.1.dataSectors 8)) (sectorsFor fileSize - 8)) result.2.2) ∧
        (freeMap.freeCount = sectorsFor fileSize → middle.TakesLeast (indirectEntries
          (disk (result.2.1.dataSectors 8)) (sectorsFor fileSize - 9)) result.2.2))
      (fun _ => False) blankDisk 0 := by
    refine ensures_Allocate_large bits large fits enough ?_
    intro hdr middle after block _ _ slots entries short
    refine ⟨rfl, middle, slots, fun more => ?_, fun full => ?_⟩
    · simpa only [Function.update_self] using entries more
    · simpa only [Function.update_self] using (short full).1
  obtain ⟨⟨granted, hdr, after⟩, disk, vis, facts, promised⟩ :=
    ensures_both grants (agree blankHeader blankDisk 0)
  obtain ⟨done, middle, slots, entries, short⟩ := facts
  dsimp only at done slots entries short promised
  by_cases full : freeMap.freeCount = sectorsFor fileSize
  · exact not_readBack_of_short bits large fits slots.toTakes (short full).toTakes (promised done)
  · have taken := slots.append (entries (by omega))
    rw [← recorded_indirect large] at taken
    obtain ⟨k, indirect, bound, high⟩ := exists_high_entry bits large taken few
    exact not_readBack_of_high bits fits taken.toTakes indirect bound high (promised done)

/-- The readers and writers of a header agree on every file of at most eight
sectors; on a larger one exactly when that many sectors and one more are clear
below sector 128. -/
theorem header_readers_agree_iff (bits : freeMap.numBits = NumSectors)
    (fits : fileSize ≤ 40 * SectorSize) (enough : sectorsFor fileSize ≤ freeMap.freeCount) :
    ReadersAgree freeMap fileSize ↔
      sectorsFor fileSize ≤ 8 ∨ sectorsFor fileSize + 1 ≤ freeMap.clearBelow 128 := by
  have within : sectorsFor fileSize ≤ 40 := by
    unfold sectorsFor
    simp only [SectorSize] at fits
    omega
  constructor
  · intro agree
    by_contra neither
    push Not at neither
    exact readers_disagree bits (by omega) within enough (by omega) agree
  · intro condition
    by_cases small : sectorsFor fileSize ≤ 8
    · exact readers_agree_direct bits small enough
    · exact readers_agree_indirect bits (by omega) within (condition.resolve_left small)

end Readers

theorem header_readers_agree_empty :
    sectorsFor 1152 ≤ clearMap.freeCount ∧ ReadersAgree clearMap 1152 := by
  have enough : sectorsFor 1152 ≤ clearMap.freeCount := by
    rw [clearMap_free]
    decide
  refine ⟨enough, (header_readers_agree_iff rfl (by decide) enough).mpr (.inr ?_)⟩
  have low : clearMap.clearBelow 128 = 128 := by
    simp [BitMap.clearBelow, BitMap.bit, clearMap]
  rw [low]
  decide

/-- The first 128 sectors are in use. -/
def highClear : BitMap where
  numBits := 1024
  map i := if i < 4 then 0xffffffff#32 else 0

theorem highClear_free : 10 ≤ highClear.freeCount := by
  have inside : Finset.Ico 128 138 ⊆
      (Finset.range highClear.numBits).filter fun i => highClear.bit i = false := by
    intro i member
    obtain ⟨lower, upper⟩ := Finset.mem_Ico.mp member
    have size : highClear.numBits = 1024 := rfl
    refine Finset.mem_filter.mpr ⟨Finset.mem_range.mpr (by omega), ?_⟩
    rw [BitMap.bit, highClear, BitsInWord]
    dsimp only
    rw [if_neg (by omega)]
    simp
  exact Finset.card_le_card inside

private theorem highClear_low : highClear.clearBelow 128 = 0 := by
  unfold BitMap.clearBelow
  rw [Finset.card_eq_zero, Finset.filter_eq_empty_iff]
  intro i member
  have bound := Finset.mem_range.mp member
  have within : i % 32 < 32 := Nat.mod_lt _ (by decide)
  rw [BitMap.bit, highClear, BitsInWord]
  dsimp only
  rw [if_pos (by omega), all_ones within]
  decide

/-- A file of nine sectors on a disk whose first 128 sectors are taken: its last
block is recorded as sector 137 and read as sector -119. -/
theorem header_readers_disagree :
    sectorsFor 1152 ≤ highClear.freeCount ∧ ¬ ReadersAgree highClear 1152 := by
  have nine : sectorsFor 1152 = 9 := rfl
  have free := highClear_free
  have low := highClear_low
  exact ⟨by omega, readers_disagree rfl (by omega) (by omega) (by omega) (by omega)⟩

end Nachos
