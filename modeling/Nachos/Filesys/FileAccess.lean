import Nachos.Effects.Requests
import Nachos.Filesys.SessionProofs

/-! Reading and writing a file of at most eight sectors through its one handle:
which bytes an access returns and changes, and which sectors a read asks for. -/
namespace Nachos
open Effects FileHeader OpenFile

variable {disk : Disk} {vis : Counters} {file : OpenFile} {len : Nat}

/-- A read of `n` bytes at `pos` returns the bytes that are there and changes none. The
header stays in order, so the same can be said of the next access. -/
def ReadsExactly (disk : Disk) (vis : Counters) (file : OpenFile) (len : Nat) (into : Memory)
    (n pos : Nat) : Prop :=
  Ensures (file.ReadAt into n pos) (fun result disk' vis' =>
    result.1 = (min n (len - pos) : Nat) ∧ vis' = vis ∧
    (∀ j, j < min n (len - pos) → result.2.1 j = fileByte disk file.hdr (pos + j)) ∧
    (∀ j, min n (len - pos) ≤ j → result.2.1 j = into j) ∧
    ConsistentHeader disk' result.2.2.hdr len ∧
    ∀ o, o < len → fileByte disk' result.2.2.hdr o = fileByte disk file.hdr o)
    (fun _ => False) disk vis

/-- A write inside or at the end of the file stores its bytes and nothing else,
one with nothing to do does nothing, and a read returns the bytes that are
there, exactly where an `int` holds its end. -/
theorem file_access_is_exact (header : ConsistentHeader disk file.hdr len) :
    (∀ (source : Memory) (n pos : Nat), 0 < n → pos ≤ len → pos + n ≤ 8 * SectorSize →
      sectorsFor (pos + n) - sectorsFor len ≤ (diskMap disk).freeCount →
      Ensures (file.WriteAt source n pos) (fun result disk' vis' => result.1 = n ∧ vis' = vis ∧
        ConsistentHeader disk' result.2.hdr (max len (pos + n)) ∧
        headerAt disk' file.hdr.sectorNumber = result.2.hdr ∧
        ∀ o, o < max len (pos + n) → fileByte disk' result.2.hdr o =
          if pos ≤ o ∧ o < pos + n then source (o - pos) else fileByte disk file.hdr o)
        (fun _ => False) disk vis) ∧
    (∀ (source : Memory) (n pos : Int), len < pos ∨ n ≤ 0 →
      Ensures (file.WriteAt source n pos)
        (fun result disk' vis' => result = (0, file) ∧ disk' = disk ∧ vis' = vis)
        (fun _ => False) disk vis) ∧
    (∀ (into : Memory) (n pos : Nat), 0 < n → pos < len →
      (ReadsExactly disk vis file len into n pos ↔ pos + n < 2147483648)) := by
  refine ⟨?_, ?_, ?_⟩
  · intro source n pos positive reached fits enough
    have small := header.small
    have within : sectorsFor (pos + n) ≤ 8 := sectorsFor_le_iff.mpr fits
    have direct : sectorsFor (max len (pos + n)) ≤ 8 := by
      unfold sectorsFor at small within ⊢
      omega
    refine ensures_writeAt header.length header.sectors positive reached
      (by simp only [SectorSize] at fits; omega) (.inl within) header.map header.reserved enough
      (header.owned (Nat.min_le_left _ _)) ?_
    intro hdr' disk' written
    refine ⟨rfl, rfl, header.written written direct, ?_, fun o inside => ?_⟩
    · unfold headerAt
      rw [written.header]
    · exact header.content written direct reached inside
  · intro source n pos nothing
    refine ensures_WriteAt_nothing ?_ ⟨rfl, rfl, rfl⟩
    rw [header.length]
    exact nothing.symm
  · intro into n pos positive inside
    constructor
    · intro exact
      by_contra sum
      unfold ReadsExactly at exact
      rw [ReadAt_overflow header.length positive inside.le sum] at exact
      exact ensures_stop_iff.mp exact
    · intro sum
      exact header.ensures_ReadAt positive inside.le (.inl sum) (fun empty => by omega)
        fun hdr' into' disk' copied kept consistent same => ⟨rfl, rfl, copied, kept, consistent, same⟩

/-- A disk with one file of `size` bytes, and a handle on it. -/
theorem zeroMachine_handle {size : Nat} (fits : sectorsFor size ≤ 8) : ∃ (disk : Disk) (file : OpenFile),
    ConsistentHeader disk file.hdr size ∧ file.hdr = headerAt disk 6 := by
  obtain ⟨before, disk, i, shape, created, -⟩ := zeroMachine_file fits
  have current : Current disk { hdr := headerAt disk 6, seekPosition := 0 } 6 := Agrees.refl _
  exact ⟨disk, _, (created.sheltered shape.consistent.sheltered).header (.inl rfl) created.headed current fits,
    rfl⟩

theorem file_access_is_exact_read : ∃ (disk : Disk) (file : OpenFile), ConsistentHeader disk file.hdr 200 ∧
    Ensures (file.ReadAt (fun _ => 7) (100 : Nat) (150 : Nat)) (fun result _ _ =>
      result.1 = (50 : Nat) ∧ ∀ j, j < 50 → result.2.1 j = fileByte disk file.hdr (150 + j))
      (fun _ => False) disk fun _ => 0 := by
  obtain ⟨disk, file, header, -⟩ := @zeroMachine_handle 200 (by decide)
  refine ⟨disk, file, header, ?_⟩
  refine ensures_post (((file_access_is_exact header).2.2 (fun _ => 7) 100 150 (by omega) (by omega)).mpr
    (by omega)) ?_
  rintro result disk' vis' ⟨count, -, copied, -⟩
  exact ⟨count, copied⟩

/-- Asking a file of two hundred bytes for as many as an `int` can say, from byte 100 on. -/
theorem read_past_int_fails : ∃ (disk : Disk) (file : OpenFile), ConsistentHeader disk file.hdr 200 ∧
    ¬ ReadsExactly disk (fun _ => 0) file 200 (fun _ => 7) 2147483647 100 := by
  obtain ⟨disk, file, header, -⟩ := @zeroMachine_handle 200 (by decide)
  refine ⟨disk, file, header, fun exact => ?_⟩
  unfold ReadsExactly at exact
  rw [ReadAt_overflow header.length (by omega) (by omega) (by omega)] at exact
  exact ensures_stop_iff.mp exact

/-! ## The sectors a read asks for -/

/-- What a read may ask for: sectors of the file, and its header's write-back. -/
def OwnRequest (hdr : FileHeader) (len : Nat) : KernelRequest → Prop
  | .readSector s => s ∈ hdr.slots 0 (sectorsFor len)
  | .writeSector s _ => s = hdr.sectorNumber
  | .uninitialized => True
  | _ => False

/-- The header's write-back alone, with its new clock text. -/
def HeaderRequest (hdr : FileHeader) : KernelRequest → Prop
  | .writeSector s _ => s = hdr.sectorNumber
  | .uninitialized => True
  | _ => False

/-- A read asks for sectors of its file only and fails no `ASSERT`; at the end of
the file or behind it, it returns 0 without asking for any. -/
structure SafeRead (disk : Disk) (vis : Counters) (file : OpenFile) (len : Nat) (into : Memory)
    (n pos : Int) : Prop where
  requests : Program.Issues (OwnRequest file.hdr len) (fun _ => False) (fun _ => True)
    (file.ReadAt into n pos)
  returns : Ensures (file.ReadAt into n pos) (fun result _ _ => len ≤ pos → result.1 = 0)
    (fun _ => False) disk vis
  quiet : len ≤ pos →
    Program.Issues (HeaderRequest file.hdr) (fun _ => False) (fun _ => True) (file.ReadAt into n pos)

section Requests

variable {allowed : KernelRequest → Prop} {hdr : FileHeader} {into : Memory} {n pos : Nat}

theorem ByteToSector_direct {k : Nat} (direct : k < 8) :
    hdr.ByteToSector ((k : Int) * SectorSize) = pure (hdr.dataSectors k) := by
  have unsigned : toUnsigned ((k : Int) * SectorSize) = k * 128 := by
    unfold toUnsigned
    simp only [SectorSize]
    omega
  have block : ((k : Int) * SectorSize).toNat / SectorSize = k := by
    simp only [SectorSize]
    omega
  unfold ByteToSector
  rw [unsigned, if_pos (by simp; omega), block]

theorem issues_uninitialized {stops : Fault → Prop} {post : Memory → Prop} :
    Program.Issues allowed stops post uninitialized ↔
      allowed .uninitialized ∧ ∀ storage, post storage := Iff.rfl

theorem issues_readSectors {first count : Nat} {buf : Memory} (direct : first + count ≤ 8)
    (reads : ∀ k, first ≤ k → k < first + count → allowed (.readSector (hdr.dataSectors k))) :
    Program.Issues allowed (fun _ => False) (fun _ => True) (readSectors hdr first count buf) := by
  refine Program.issues_loop fun i buf bound => ?_
  have place : ((first : Int) + i) * SectorSize = ((first + i : Nat) : Int) * SectorSize := by
    rw [Int.natCast_add]
  rw [place, ByteToSector_direct (by omega)]
  exact ⟨reads _ (by omega) (by omega), fun _ => trivial⟩

/-- The sectors a read of `m` bytes at `pos` fetches, as `ReadAt` counts them. -/
def sectorsRead (pos m : Nat) : Nat :=
  (1 + divRoundDown ((pos : Int) + m - 1) SectorSize - ((pos / 128 : Nat) : Int)).toNat

/-- `ReadAt` when there is something to do, with its arithmetic carried out. -/
theorem ReadAt_eq (length : file.hdr.numBytes = len) (positive : 0 < n) (reached : pos ≤ len)
    (sum : pos + n < 2147483648) :
    file.ReadAt into n pos = (do
      let buf ← uninitialized
      let buf ← readSectors file.hdr ((pos / 128 : Nat) : Int) (sectorsRead pos (min n (len - pos))) buf
      let hdr ← file.hdr.SetTime .visit
      hdr.WriteBack hdr.sectorNumber
      return (((min n (len - pos) : Nat) : Int), into.splice 0 (min n (len - pos)) (fun j =>
        buf (((pos : Int) - ((pos / 128 : Nat) : Int) * SectorSize).toNat + j)),
        ({ file with hdr := hdr } : OpenFile))) := by
  have trimmed : (if (pos : Int) + n > len then (len : Int) - pos else (n : Int)) =
      ((min n (len - pos) : Nat) : Int) := by
    split <;> omega
  have first : divRoundDown (pos : Int) SectorSize = ((pos / 128 : Nat) : Int) :=
    divRoundDown_natCast pos
  unfold ReadAt
  simp only [FileLength, length]
  rw [if_neg (by omega), if_neg (by omega), trimmed, first]
  rfl

/-- What `ReadAt` asks for: the sectors it counted, and its header's write-back. -/
theorem issues_ReadAt (length : file.hdr.numBytes = len) (positive : 0 < n) (reached : pos ≤ len)
    (sum : pos + n < 2147483648) (direct : pos / 128 + sectorsRead pos (min n (len - pos)) ≤ 8)
    (storage : allowed .uninitialized)
    (own : ∀ data, allowed (.writeSector file.hdr.sectorNumber data))
    (reads : ∀ k, pos / 128 ≤ k → k < pos / 128 + sectorsRead pos (min n (len - pos)) →
      allowed (.readSector (file.hdr.dataSectors k))) :
    Program.Issues allowed (fun _ => False) (fun _ => True) (file.ReadAt into n pos) := by
  rw [ReadAt_eq length positive reached sum]
  refine Program.issues_bind.mpr (issues_uninitialized.mpr ⟨storage, fun _ => ?_⟩)
  refine Program.issues_bind.mpr (Program.issues_mono (issues_readSectors direct reads) ?_)
  intro buf _
  refine ⟨storage, fun text => ?_⟩
  have same : (file.hdr.splice TimeMode.visit.offset 25
      fun k => if k < 24 then text k else 0).sectorNumber = file.hdr.sectorNumber :=
    Agrees.sectorNumber sameBut_splice.agrees
  refine ⟨?_, fun _ => trivial⟩
  rw [same]
  exact own _

/-- A read that counts one sector asks for it. -/
theorem issues_ReadAt_one (length : file.hdr.numBytes = len) (positive : 0 < n) (reached : pos ≤ len)
    (sum : pos + n < 2147483648) (direct : pos / 128 < 8) (one : sectorsRead pos (min n (len - pos)) = 1)
    (issues : Program.Issues allowed (fun _ => False) (fun _ => True) (file.ReadAt into n pos)) :
    allowed (.readSector (file.hdr.dataSectors (pos / 128))) := by
  rw [ReadAt_eq length positive reached sum, one] at issues
  have rest := Program.issues_bind.mp ((Program.issues_bind.mp issues).2 fun _ => 0)
  have place : (((pos / 128 : Nat) : Int) + (0 : Nat)) * SectorSize =
      ((pos / 128 : Nat) : Int) * SectorSize := by
    rw [Nat.cast_zero, add_zero]
  change Program.Issues allowed _ _ (file.hdr.ByteToSector
    ((((pos / 128 : Nat) : Int) + (0 : Nat)) * SectorSize) >>= _) at rest
  rw [place, ByteToSector_direct direct] at rest
  exact rest.1

end Requests

/-- The count of sectors at the end of the file is right only where the file
fills its last sector. -/
theorem sectorsRead_end (len : Nat) :
    sectorsRead len 0 = if 0 < len ∧ len % 128 = 0 then 0 else 1 := by
  unfold sectorsRead divRoundDown
  simp only [SectorSize, Nat.cast_ofNat]
  rw [Int.tdiv_eq_ediv]
  simp only [Int.sign]
  split <;> split <;> omega

theorem sectorsRead_inside {pos m : Nat} (positive : 0 < m) :
    sectorsRead pos m = (pos + m - 1) / 128 + 1 - pos / 128 := by
  unfold sectorsRead
  have last : (pos : Int) + m - 1 = ((pos + m - 1 : Nat) : Int) := by omega
  rw [last]
  simp only [SectorSize, Nat.cast_ofNat, divRoundDown_natCast]
  omega

section Safety

variable {into : Memory} {n pos : Nat}

/-- A read behind the end, or of no bytes, asks for nothing. -/
private theorem safe_of_nothing {n pos : Int} (length : file.hdr.numBytes = len)
    (nothing : n ≤ 0 ∨ (len : Int) < pos) : SafeRead disk vis file len into n pos := by
  have idle : file.ReadAt into n pos = pure (0, into, file) := by
    have refused : n ≤ 0 ∨ pos > file.hdr.FileLength := by
      rw [show file.hdr.FileLength = file.hdr.numBytes from rfl, length]
      exact nothing
    unfold ReadAt
    dsimp only
    rw [if_pos refused]
  refine ⟨?_, ?_, fun _ => ?_⟩ <;> rw [idle]
  · trivial
  · exact ensures_pure fun _ => rfl
  · trivial

/-- A read inside the file keeps to its sectors. -/
private theorem safe_inside (header : ConsistentHeader disk file.hdr len) (positive : 0 < n)
    (inside : pos < len) (sum : pos + n < 2147483648) : SafeRead disk vis file len into n pos := by
  have small := header.small
  have count := @sectorsRead_inside pos (min n (len - pos)) (by omega)
  have last : (pos + min n (len - pos) - 1) / 128 < sectorsFor len := lt_sectorsFor_iff.mpr (by omega)
  refine ⟨?_, ?_, by omega⟩
  · refine issues_ReadAt header.length positive inside.le sum (by omega) trivial (fun _ => rfl) ?_
    intro k _ high
    exact mem_slots.mpr ⟨k, by omega, by rw [Nat.zero_add]⟩
  · refine header.ensures_ReadAt positive inside.le (.inl sum) (by omega) fun _ _ _ _ _ _ _ => ?_
    intro past
    omega

/-- At the end of a file that fills its last sector, no sector is counted. -/
private theorem safe_at_end (header : ConsistentHeader disk file.hdr len) (positive : 0 < n)
    (some : 0 < len) (full : len % 128 = 0) (sum : len + n < 2147483648) : SafeRead disk vis file len into n len := by
  have small := header.small
  have none : sectorsRead len (min n (len - len)) = 0 := by
    rw [Nat.sub_self, Nat.min_zero, sectorsRead_end, if_pos ⟨some, full⟩]
  have within : len / 128 ≤ 8 := by
    have bound := sectorsFor_le_iff.mp small
    omega
  refine ⟨?_, ?_, fun _ => ?_⟩
  · exact issues_ReadAt header.length positive le_rfl sum (by omega) trivial (fun _ => rfl) (by omega)
  · refine header.ensures_ReadAt positive le_rfl (.inl sum) (by omega) fun _ _ _ _ _ _ _ _ => ?_
    simp
  · exact issues_ReadAt header.length positive le_rfl sum (by omega) trivial (fun _ => rfl) (by omega)

/-- At the end of any other file, the sector after its last byte is read. -/
private theorem unsafe_at_end (header : ConsistentHeader disk file.hdr len) (positive : 0 < n)
    (sum : len + n < 2147483648) (partly : ¬ (0 < len ∧ len % 128 = 0)) : ¬ SafeRead disk vis file len into n len := by
  intro safe
  have one : sectorsRead len (min n (len - len)) = 1 := by
    rw [Nat.sub_self, Nat.min_zero, sectorsRead_end, if_neg partly]
  have within : len / 128 < 8 := by
    have bound := sectorsFor_le_iff.mp header.small
    omega
  exact issues_ReadAt_one header.length positive le_rfl sum within one (safe.quiet le_rfl)

/-- A read whose end no `int` holds does not keep to anything. -/
private theorem unsafe_of_overflow (length : file.hdr.numBytes = len) (positive : 0 < n)
    (reached : pos ≤ len) (sum : ¬ pos + n < 2147483648) : ¬ SafeRead disk vis file len into n pos := by
  intro safe
  have stops := safe.requests
  rw [ReadAt_overflow length positive reached sum] at stops
  exact stops

end Safety

/-- A read is safe except at the very end of a file, where it still fetches the
sector after the last byte unless that byte filled its sector, and except where no `int`
holds its end. -/
theorem read_is_safe_iff (header : ConsistentHeader disk file.hdr len) {into : Memory} {n : Int}
    {pos : Nat} : SafeRead disk vis file len into n pos ↔
      n ≤ 0 ∨ len < pos ∨
        (pos ≠ len ∨ 0 < len ∧ len % SectorSize = 0) ∧ pos + n < 2147483648 := by
  simp only [SectorSize]
  by_cases nothing : n ≤ 0
  · exact ⟨fun _ => .inl nothing, fun _ => safe_of_nothing header.length (.inl nothing)⟩
  obtain ⟨n, rfl⟩ : ∃ count : Nat, n = count := ⟨n.toNat, by omega⟩
  by_cases behind : len < pos
  · exact ⟨fun _ => .inr (.inl behind),
      fun _ => safe_of_nothing header.length (.inr (by exact_mod_cast behind))⟩
  by_cases sum : pos + n < 2147483648
  swap
  · exact ⟨fun safe => absurd safe (unsafe_of_overflow header.length (by omega) (by omega) sum),
      fun either => by omega⟩
  by_cases inside : pos < len
  · exact ⟨fun _ => .inr (.inr ⟨.inl (by omega), by omega⟩),
      fun _ => safe_inside header (by omega) inside sum⟩
  · obtain rfl : pos = len := by omega
    constructor
    · intro safe
      by_contra wrong
      refine unsafe_at_end header (by omega) sum (fun both => wrong ?_) safe
      exact .inr (.inr ⟨.inr both, by omega⟩)
    · rintro (none | past | ⟨other | ⟨some, full⟩, -⟩)
      · exact absurd none nothing
      · exact absurd past behind
      · exact absurd rfl other
      · exact safe_at_end header (by omega) some full sum

theorem read_is_safe_inside : ∃ (disk : Disk) (file : OpenFile), ConsistentHeader disk file.hdr 200 ∧
    SafeRead disk (fun _ => 0) file 200 (fun _ => 7) 100 (150 : Nat) := by
  obtain ⟨disk, file, header, -⟩ := @zeroMachine_handle 200 (by decide)
  exact ⟨disk, file, header, (read_is_safe_iff header).mpr (.inr (.inr ⟨.inl (by decide), by decide⟩))⟩

/-- Reading one byte at the end of a file of two hundred fetches its second
sector, reading an empty file fetches whatever its first slot holds, and the end of a
read of 2147483520 bytes at 128 overflows. -/
theorem read_at_end_is_not_safe :
    (∃ (disk : Disk) (file : OpenFile), ConsistentHeader disk file.hdr 200 ∧
      ¬ SafeRead disk (fun _ => 0) file 200 (fun _ => 7) (1 : Nat) (200 : Nat)) ∧
    (∃ (disk : Disk) (file : OpenFile), ConsistentHeader disk file.hdr 0 ∧
      ¬ SafeRead disk (fun _ => 0) file 0 (fun _ => 7) (1 : Nat) (0 : Nat)) ∧
    ∃ (disk : Disk) (file : OpenFile), ConsistentHeader disk file.hdr 200 ∧
      ¬ SafeRead disk (fun _ => 0) file 200 (fun _ => 7) (2147483520 : Nat) (128 : Nat) := by
  refine ⟨?_, ?_, ?_⟩
  · obtain ⟨disk, file, header, -⟩ := @zeroMachine_handle 200 (by decide)
    exact ⟨disk, file, header, unsafe_at_end header (by omega) (by omega) (by decide)⟩
  · obtain ⟨disk, file, header, -⟩ := @zeroMachine_handle 0 (by decide)
    exact ⟨disk, file, header, unsafe_at_end header (by omega) (by omega) (by decide)⟩
  · obtain ⟨disk, file, header, -⟩ := @zeroMachine_handle 200 (by decide)
    exact ⟨disk, file, header, unsafe_of_overflow header.length (by omega) (by omega) (by omega)⟩

end Nachos
