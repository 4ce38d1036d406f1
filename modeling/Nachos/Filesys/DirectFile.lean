import Nachos.Filesys.WriteAtProofs

/-! A file of at most eight sectors by itself: all that is asked of the disk is
that the file's header and the free map's are in order. A write keeps them so
and changes the bytes it covers; the other files do not enter. -/
namespace Nachos
open Effects FileHeader OpenFile

/-- The header of a file of `len` bytes in at most eight sectors: they are
distinct, marked, and neither its own sector nor one of the free map's. -/
structure ConsistentHeader (disk : Disk) (hdr : FileHeader) (len : Nat) : Prop where
  length : hdr.numBytes = len
  sectors : hdr.numSectors = sectorsFor len
  small : sectorsFor len ≤ 8
  own : (diskMap disk).Marked hdr.sectorNumber ∧ hdr.sectorNumber ≠ 0 ∧ hdr.sectorNumber ≠ 2
  marked : ∀ k, k < sectorsFor len → (diskMap disk).Marked (hdr.dataSectors k)
  apart : ∀ k, k < sectorsFor len → hdr.dataSectors k ≠ hdr.sectorNumber ∧
    hdr.dataSectors k ≠ 0 ∧ hdr.dataSectors k ≠ 2
  distinct : (hdr.slots 0 (sectorsFor len)).Nodup
  map : IsMapHeader (headerAt disk 0)
  reserved : (diskMap disk).Marked 0 ∧ (diskMap disk).Marked 2

namespace ConsistentHeader

variable {disk disk' : Disk} {vis : Counters} {hdr hdr' : FileHeader} {file : OpenFile}
  {source into : Memory} {len n pos o : Nat}

theorem owned (header : ConsistentHeader disk hdr len) {first last : Nat}
    (within : last ≤ sectorsFor len) : Owned disk hdr (sectorsFor len) first last := by
  have small := header.small
  have place : ∀ k, k < last → blockSector disk hdr k = hdr.dataSectors k := fun k bound =>
    blockSector_direct (by omega)
  refine ⟨header.own, fun k _ high => ?_, fun k _ high => ?_, fun k _ high => ?_, ?_, by omega⟩
  · obtain ⟨low, upper, -⟩ := header.marked k (by omega)
    exact Located.direct (by omega) ⟨low, upper⟩
  · rw [place k high]
    exact header.marked k (by omega)
  · rw [place k high]
    exact header.apart k (by omega)
  · intro k k' _ high _ high' same
    rw [place k high, place k' high'] at same
    exact slot_inj header.distinct (by omega) (by omega) same

/-- A write keeps the header in order, on disk as in the handle. -/
theorem written (header : ConsistentHeader disk hdr len)
    (written : Written disk disk' hdr hdr' source pos n len) (fits : sectorsFor (max len (pos + n)) ≤ 8) :
    ConsistentHeader disk' hdr' (max len (pos + n)) := by
  have small := header.small
  have grown : sectorsFor len ≤ sectorsFor (max len (pos + n)) := by
    unfold sectorsFor
    omega
  have keeps : ∀ s, (diskMap disk).Marked s → (diskMap disk').Marked s := fun s old =>
    (written.taken.exactly s).mpr (.inl old)
  -- a slot is an old one, or fresh
  have slot : ∀ k, k < sectorsFor (max len (pos + n)) →
      k < sectorsFor len ∧ hdr'.dataSectors k = hdr.dataSectors k ∨
        ¬ (diskMap disk).Marked (hdr'.dataSectors k) ∧ (diskMap disk').Marked (hdr'.dataSectors k) := by
    intro k bound
    by_cases old : k < sectorsFor len
    · exact .inl ⟨old, written.slots k (by omega) (.inl old)⟩
    · have member : hdr'.dataSectors k ∈ hdr'.slots (sectorsFor len)
          (sectorsFor (max len (pos + n)) - sectorsFor len) :=
        mem_slots.mpr ⟨k - sectorsFor len, by omega, by rw [Nat.add_sub_cancel' (by omega)]⟩
      exact .inr ⟨(written.taken.fresh _ member).2.2, (written.taken.exactly _).mpr (.inr member)⟩
  have split : hdr'.slots 0 (sectorsFor (max len (pos + n))) = hdr.slots 0 (sectorsFor len) ++
      hdr'.slots (sectorsFor len) (sectorsFor (max len (pos + n)) - sectorsFor len) := by
    have whole := slots_append hdr' 0 (sectorsFor len)
      (sectorsFor (max len (pos + n)) - sectorsFor len)
    rw [Nat.zero_add, Nat.add_sub_cancel' grown] at whole
    rw [whole, slots_congr fun i bound => ?_]
    rw [Nat.zero_add]
    exact written.slots i (by omega) (.inl bound)
  refine ⟨written.length, written.sectors, fits, ?_, ?_, ?_, ?_, ?_, ?_⟩
  · rw [written.number]
    exact ⟨keeps _ header.own.1, header.own.2⟩
  · intro k bound
    rcases slot k bound with ⟨old, same⟩ | ⟨-, new⟩
    · rw [same]
      exact keeps _ (header.marked k old)
    · exact new
  · intro k bound
    rw [written.number]
    rcases slot k bound with ⟨old, same⟩ | ⟨clear, -⟩
    · rw [same]
      exact header.apart k old
    · exact ⟨fun same => clear (same ▸ header.own.1), fun same => clear (same ▸ header.reserved.1),
        fun same => clear (same ▸ header.reserved.2)⟩
  · rw [split]
    refine List.nodup_append.mpr ⟨header.distinct, written.taken.distinct, ?_⟩
    rintro s here t there rfl
    obtain ⟨k, bound, rfl⟩ := mem_slots.mp here
    rw [Nat.zero_add] at there
    exact (written.taken.fresh _ there).2.2 (header.marked k bound)
  · exact header.map.agrees written.map
  · exact ⟨keeps _ header.reserved.1, keeps _ header.reserved.2⟩

/-- A write leaves the sectors alone that are still free afterwards. -/
theorem free_kept (header : ConsistentHeader disk hdr len)
    (written : Written disk disk' hdr hdr' source pos n len)
    (fits : sectorsFor (max len (pos + n)) ≤ 8) {s : Int} (clear : ¬ (diskMap disk').Marked s) :
    disk' s = disk s := by
  have after := header.written written fits
  refine written.frame s ?_ ?_ ?_ fun k _ high => ?_
  · rintro rfl
    rw [← written.number] at clear
    exact clear after.own.1
  · rintro rfl
    exact clear after.reserved.1
  · rintro rfl
    exact clear after.reserved.2
  · rintro rfl
    have bound : k < sectorsFor (max len (pos + n)) := lt_sectorsFor_iff.mpr (by omega)
    rw [blockSector_direct (by omega)] at clear
    exact clear (after.marked k bound)

/-- The bytes of the file after a write. -/
theorem content (header : ConsistentHeader disk hdr len)
    (written : Written disk disk' hdr hdr' source pos n len)
    (fits : sectorsFor (max len (pos + n)) ≤ 8) (reached : pos ≤ len)
    (inside : o < max len (pos + n)) : fileByte disk' hdr' o =
      if pos ≤ o ∧ o < pos + n then source (o - pos) else fileByte disk hdr o := by
  split
  · rename_i covered
    exact written.written o covered.1 covered.2
  · rename_i outside
    have small := header.small
    have old : o < len := by omega
    have block : o / 128 < sectorsFor len := lt_sectorsFor_iff.mpr (by omega)
    by_cases touched : pos / 128 ≤ o / 128 ∧ o / 128 * 128 < pos + n
    · exact written.kept o old touched.1 touched.2 (by omega)
    · have place : ∀ k, k < sectorsFor len → hdr'.dataSectors k = hdr.dataSectors k := fun k bound =>
        written.slots k (by omega) (.inl bound)
      -- a block of another sector was written, not this one
      have away : ∀ k, pos / 128 ≤ k → k * 128 < pos + n →
          hdr.dataSectors (o / 128) ≠ blockSector disk' hdr' k := by
        intro k low high same
        have bound : k < sectorsFor (max len (pos + n)) := lt_sectorsFor_iff.mpr (by omega)
        rw [blockSector_direct (by omega)] at same
        by_cases before : k < sectorsFor len
        · rw [place k before] at same
          have equal := slot_inj header.distinct (by omega) (by omega) same
          omega
        · have member : hdr'.dataSectors k ∈ hdr'.slots (sectorsFor len)
              (sectorsFor (max len (pos + n)) - sectorsFor len) :=
            mem_slots.mpr ⟨k - sectorsFor len, by omega, by rw [Nat.add_sub_cancel' (by omega)]⟩
          exact (written.taken.fresh _ member).2.2 (same ▸ header.marked _ block)
      obtain ⟨notOwn, notZero, notTwo⟩ := header.apart _ block
      apply fileByte_congr
      · rw [blockSector_direct (by omega), blockSector_direct (by omega), place _ block]
      · rw [blockSector_direct (by omega)]
        exact written.frame _ notOwn notZero notTwo away

/-- Writing the header back with another clock text keeps it in order. -/
theorem clock (header : ConsistentHeader disk hdr len) (agrees : Agrees hdr' hdr) :
    ConsistentHeader (Function.update disk hdr.sectorNumber hdr'.raw) hdr' len := by
  have small := header.small
  obtain ⟨mine, notZero, notTwo⟩ := header.own
  have map : (diskMap (Function.update disk hdr.sectorNumber hdr'.raw)) = diskMap disk := by
    unfold diskMap
    rw [Function.update_of_ne notTwo.symm]
  have slot : ∀ k, k < sectorsFor len → hdr'.dataSectors k = hdr.dataSectors k := fun k bound =>
    agrees.dataSectors (by omega)
  refine ⟨agrees.numBytes.trans header.length, agrees.numSectors.trans header.sectors, small, ?_, ?_,
    ?_, ?_, ?_, ?_⟩
  · rw [map, agrees.sectorNumber]
    exact header.own
  · intro k bound
    rw [map, slot k bound]
    exact header.marked k bound
  · intro k bound
    rw [agrees.sectorNumber, slot k bound]
    exact header.apart k bound
  · have same : hdr'.slots 0 (sectorsFor len) = hdr.slots 0 (sectorsFor len) :=
      slots_congr fun i bound => agrees.dataSectors (by omega)
    rw [same]
    exact header.distinct
  · unfold headerAt
    rw [Function.update_of_ne notZero.symm]
    exact header.map
  · rw [map]
    exact header.reserved

/-- It leaves the bytes of the file alone, too. -/
theorem clock_byte (header : ConsistentHeader disk hdr len) (agrees : Agrees hdr' hdr)
    (inside : o < len) : fileByte (Function.update disk hdr.sectorNumber hdr'.raw) hdr' o =
      fileByte disk hdr o := by
  have small := header.small
  have block : o / 128 < sectorsFor len := lt_sectorsFor_iff.mpr (by omega)
  apply fileByte_congr
  · rw [blockSector_direct (by omega), blockSector_direct (by omega), agrees.dataSectors (by omega)]
  · rw [blockSector_direct (by omega), Function.update_of_ne (header.apart _ block).1]

/-- A read returns the bytes of the file. At the end of an empty file it may
fail an `ASSERT`, because it still looks at slot 0. -/
theorem ensures_ReadAt {post : Int × Memory × OpenFile → Disk → Counters → Prop}
    {fault : Fault → Prop} (header : ConsistentHeader disk file.hdr len) (positive : 0 < n)
    (reached : pos ≤ len) (sum : pos + n < 2147483648 ∨ fault .undefined)
    (empty : len = 0 → fault .assertion) (holds : ∀ hdr' into' disk',
      (∀ j, j < min n (len - pos) → into' j = fileByte disk file.hdr (pos + j)) →
      (∀ j, min n (len - pos) ≤ j → into' j = into j) → ConsistentHeader disk' hdr' len →
      (∀ o, o < len → fileByte disk' hdr' o = fileByte disk file.hdr o) →
      post ((min n (len - pos) : Nat), into', { file with hdr := hdr' }) disk' vis) :
    Ensures (file.ReadAt into n pos) post fault disk vis := by
  have small := header.small
  obtain ⟨low, upper, -⟩ := header.own.1
  refine OpenFile.ensures_ReadAt header.length positive reached sum ⟨low, upper⟩ ?_
    (fun none => .inl (empty none)) ?_
  · intro k _ high
    have block : k < sectorsFor len := lt_sectorsFor_iff.mpr (by omega)
    obtain ⟨low, upper, -⟩ := header.marked k block
    exact Located.direct (by omega) ⟨low, upper⟩
  · intro hdr' into' visited copied kept
    exact holds hdr' into' _ copied kept (header.clock visited.agrees)
      fun o => header.clock_byte visited.agrees

end ConsistentHeader
end Nachos
