import Nachos.Filesys.OpenFileProofs

/-! The free map as a file, and `WriteAt` with growth. Growing goes through a
second handle on sector 0: the map is fetched, the header takes the sectors
that are missing, and the map is written back before any data is. -/
namespace Nachos
open Effects FileHeader

/-- The header a sector holds. -/
def headerAt (disk : Disk) (s : Int) : FileHeader := ⟨disk s⟩

/-- The free map's header as formatting lays it out. -/
structure IsMapHeader (hdr : FileHeader) : Prop where
  length : hdr.numBytes = 128
  slot : hdr.dataSectors 0 = 2
  number : hdr.sectorNumber = 0

/-- The free map as sector 2 holds it. -/
def diskMap (disk : Disk) : BitMap where
  numBits := 1024
  map := fun i => (disk 2).mem.word (4 * i)

theorem IsMapHeader.agrees {hdr hdr' : FileHeader} (map : IsMapHeader hdr)
    (agrees : Agrees hdr' hdr) : IsMapHeader hdr' where
  length := agrees.numBytes.trans map.length
  slot := (agrees.dataSectors (by omega)).trans map.slot
  number := agrees.sectorNumber.trans map.number

namespace BitMap

/-- Two maps of one size mark the same sectors. -/
structure Same (bitmap bitmap' : BitMap) : Prop where
  size : bitmap.numBits = bitmap'.numBits
  marks : ∀ s, bitmap.Marked s ↔ bitmap'.Marked s

theorem Same.refl (bitmap : BitMap) : Same bitmap bitmap := ⟨rfl, fun _ => Iff.rfl⟩

theorem Same.symm {bitmap bitmap' : BitMap} (same : Same bitmap bitmap') : Same bitmap' bitmap :=
  ⟨same.size.symm, fun s => (same.marks s).symm⟩

theorem Same.trans {bitmap bitmap' bitmap'' : BitMap} (first : Same bitmap bitmap')
    (second : Same bitmap' bitmap'') : Same bitmap bitmap'' :=
  ⟨first.size.trans second.size, fun s => (first.marks s).trans (second.marks s)⟩

theorem Same.freeCount {bitmap bitmap' : BitMap} (same : Same bitmap bitmap') :
    bitmap.freeCount = bitmap'.freeCount := freeCount_congr same.size same.marks

theorem Takes.congr {before before' after after' : BitMap} {sectors : List Int}
    (taken : Takes before sectors after) (first : Same before' before)
    (second : Same after' after) : Takes before' sectors after' where
  size := second.size.trans (taken.size.trans first.size.symm)
  fresh := fun s member => by
    obtain ⟨low, high, clear⟩ := taken.fresh s member
    exact ⟨low, by rw [first.size]; exact high, fun set => clear ((first.marks s).mp set)⟩
  distinct := taken.distinct
  exactly := fun s => by rw [second.marks, taken.exactly, first.marks]

theorem TakesLeast.congr {before before' after after' : BitMap} {sectors : List Int}
    (taken : TakesLeast before sectors after) (first : Same before' before)
    (second : Same after' after) : TakesLeast before' sectors after' where
  toTakes := taken.toTakes.congr first second
  ascending := taken.ascending
  below := fun s member t low less => (second.marks t).mpr (taken.below s member t low less)

theorem Releases.congr {before before' after after' : BitMap} {sectors : List Int}
    (released : Releases before sectors after) (first : Same before' before)
    (second : Same after' after) : Releases before' sectors after' where
  size := second.size.trans (released.size.trans first.size.symm)
  exactly := fun s => by rw [second.marks, released.exactly, first.marks]

/-- Only the 32 words that hold the 1024 bits matter. -/
theorem same_of_words {bitmap bitmap' : BitMap} (size : bitmap.numBits = 1024)
    (size' : bitmap'.numBits = 1024) (words : ∀ i, i < 32 → bitmap.map i = bitmap'.map i) :
    Same bitmap bitmap' := by
  refine ⟨size.trans size'.symm, fun s => ?_⟩
  simp only [Marked, size, size', bit, BitsInWord]
  constructor
  · rintro ⟨low, high, set⟩
    rw [words _ (by omega)] at set
    exact ⟨low, high, set⟩
  · rintro ⟨low, high, set⟩
    rw [← words _ (by omega)] at set
    exact ⟨low, high, set⟩

theorem word_bytes (bitmap : BitMap) (i : Nat) : bitmap.bytes.word (4 * i) = bitmap.map i := by
  refine (Memory.word_congr fun k bound => ?_).trans (Memory.word_wordByte (bitmap.map i))
  have block : (4 * i + k) / 4 = i := by omega
  have inside : (4 * i + k) % 4 = 0 + k := by omega
  rw [bytes, block, inside]

theorem numWords_bytes {bitmap : BitMap} (bits : bitmap.numBits = 1024) :
    bitmap.numWords * 4 = ((128 : Nat) : Int) := by
  rw [numWords, bits]
  rfl

end BitMap

theorem diskMap_same {disk disk' : Disk} (data : disk' 2 = disk 2) :
    BitMap.Same (diskMap disk') (diskMap disk) := by
  unfold diskMap
  rw [data]
  exact BitMap.Same.refl _

section MapFile

variable {disk : Disk} {vis : Counters} {fault : Fault → Prop} {file : OpenFile} {bitmap : BitMap}

private theorem map_located {hdr : FileHeader} (map : IsMapHeader hdr) {k : Nat} (zero : k = 0) :
    OpenFile.Located disk hdr k := by
  subst zero
  exact OpenFile.Located.direct (by omega) (by rw [map.slot]; decide)

private theorem map_block {hdr : FileHeader} (map : IsMapHeader hdr) {o : Nat} (bound : o < 128) :
    blockSector disk hdr (o / 128) = 2 := by
  have zeroth : o / 128 = 0 := by omega
  rw [zeroth, blockSector_direct (by omega), map.slot]

/-- Fetching the free map reads sector 2 and touches the clock of sector 0. -/
theorem BitMap.ensures_FetchFrom {post : BitMap × OpenFile → Disk → Counters → Prop}
    (bits : bitmap.numBits = 1024) (map : IsMapHeader file.hdr)
    (holds : ∀ fetched hdr', Same fetched (diskMap disk) → SameBut .visit hdr' file.hdr →
      post (fetched, { file with hdr := hdr' }) (Function.update disk 0 hdr'.raw) vis) :
    Ensures (bitmap.FetchFrom file) post fault disk vis := by
  unfold BitMap.FetchFrom
  rw [numWords_bytes bits]
  have length : file.hdr.numBytes = ((128 : Nat) : Int) := map.length
  apply ensures_bind
  change Ensures (file.ReadAt bitmap.bytes ((128 : Nat) : Int) ((0 : Nat) : Int)) _ _ _ _
  refine OpenFile.ensures_ReadAt length (by omega) (by omega) (.inl (by omega))
    (by rw [map.number]; decide) (fun k _ high => map_located map (by omega)) (by omega) ?_
  intro hdr' into visited copied _
  apply ensures_pure
  rw [map.number]
  apply holds _ _ _ visited
  refine same_of_words bits rfl fun i bound => Memory.word_congr fun k less => ?_
  rw [copied _ (by omega), OpenFile.fileByte, map_block map (by omega)]
  congr 1
  omega

/-- A write that stays inside the file never looks at the free map. -/
theorem OpenFile.ensures_writeAt_inside {post : Int × OpenFile → Disk → Counters → Prop}
    {depth : Nat} {source : Memory} {n pos len : Nat} (length : file.hdr.numBytes = len)
    (positive : 0 < n) (inside : pos + n ≤ len) (own : ValidSector file.hdr.sectorNumber)
    (separate : OpenFile.Separate disk file.hdr pos n)
    (holds : ∀ hdr' disk', OpenFile.Wrote disk disk' file.hdr hdr' source pos n len →
      post ((n : Int), { file with hdr := hdr' }) disk' vis) :
    Ensures (OpenFile.writeAt (depth + 1) file source n pos) post fault disk vis := by
  have within := (separate.located ((pos + n - 1) / 128) (by omega) (by omega)).1
  unfold OpenFile.writeAt
  simp only [FileLength, length]
  rw [if_neg (by omega), if_neg (by omega), if_neg (by omega)]
  exact OpenFile.ensures_writeBlocks length positive inside own separate holds

/-- Writing a map back replaces sector 2 and touches the clock of sector 0. -/
private theorem ensures_writeAt_map {post : Int × OpenFile → Disk → Counters → Prop}
    {depth : Nat} (bits : bitmap.numBits = 1024) (map : IsMapHeader file.hdr)
    (holds : ∀ hdr' disk' result, Agrees hdr' file.hdr → disk' 0 = hdr'.raw →
      BitMap.Same (diskMap disk') bitmap → (∀ s, s ≠ 0 → s ≠ 2 → disk' s = disk s) →
      post (result, { file with hdr := hdr' }) disk' vis) :
    Ensures (OpenFile.writeAt (depth + 1) file bitmap.bytes (bitmap.numWords * 4) 0)
      post fault disk vis := by
  have length : file.hdr.numBytes = ((128 : Nat) : Int) := map.length
  rw [BitMap.numWords_bytes bits]
  change Ensures (OpenFile.writeAt _ file bitmap.bytes ((128 : Nat) : Int) ((0 : Nat) : Int)) _ _ _ _
  refine OpenFile.ensures_writeAt_inside length (by omega) (by omega)
    (by rw [map.number]; decide) ⟨?_, ?_, ?_, by omega⟩ ?_
  · exact fun k _ high => map_located map (by omega)
  · intro k k' _ high _ high' _
    omega
  · intro k _ high
    have zeroth : k = 0 := by omega
    rw [zeroth, blockSector_direct (by omega), map.slot, map.number]
    decide
  · intro hdr' disk' wrote
    refine holds hdr' disk' _ wrote.agrees ?_ ?_ ?_
    · have header := wrote.header
      rwa [map.number] at header
    · refine BitMap.same_of_words rfl bits fun i bound => ?_
      rw [← BitMap.word_bytes bitmap i]
      refine Memory.word_congr fun k less => ?_
      have written := wrote.written (4 * i + k) (by omega) (by omega)
      rw [map_block map (by omega), Nat.mod_eq_of_lt (by omega)] at written
      exact written
    · intro s notHeader notData
      refine wrote.frame s (by rw [map.number]; exact notHeader) fun k _ high => ?_
      have zeroth : k = 0 := by omega
      rw [zeroth, blockSector_direct (by omega), map.slot]
      exact notData

theorem BitMap.ensures_WriteBack {post : OpenFile → Disk → Counters → Prop}
    (bits : bitmap.numBits = 1024) (map : IsMapHeader file.hdr)
    (holds : ∀ hdr' disk', Agrees hdr' file.hdr → disk' 0 = hdr'.raw →
      Same (diskMap disk') bitmap → (∀ s, s ≠ 0 → s ≠ 2 → disk' s = disk s) →
      post { file with hdr := hdr' } disk' vis) :
    Ensures (bitmap.WriteBack file) post fault disk vis := by
  apply ensures_bind
  refine ensures_writeAt_map bits map ?_
  intro hdr' disk' result agrees header same frame
  exact ensures_pure (holds hdr' disk' agrees header same frame)

theorem BitMap.ensures_create {post : BitMap → Disk → Counters → Prop} {nitems : Nat}
    (holds : ∀ bitmap : BitMap, bitmap.numBits = nitems → (∀ s, ¬ bitmap.Marked s) →
      post bitmap disk vis) :
    Ensures (BitMap.create nitems) post fault disk vis := by
  apply ensures_bind
  apply ensures_uninitialized
  intro storage
  obtain ⟨bitmap, computed, size, clear⟩ := new_ok (fun i => storage.word (4 * i)) nitems
  exact ensures_checked computed (holds bitmap size clear)

end MapFile

namespace OpenFile

variable {disk disk' : Disk} {vis : Counters} {fault : Fault → Prop} {hdr hdr' : FileHeader}
  {file : OpenFile}

/-- Blocks `first .. last - 1` of a file of `count` sectors lie in marked
sectors of their own, apart from its header, its indirect block and the free
map. -/
structure Owned (disk : Disk) (hdr : FileHeader) (count first last : Nat) : Prop where
  number : (diskMap disk).Marked hdr.sectorNumber ∧ hdr.sectorNumber ≠ 0 ∧ hdr.sectorNumber ≠ 2
  located : ∀ k, first ≤ k → k < last → Located disk hdr k
  marked : ∀ k, first ≤ k → k < last → (diskMap disk).Marked (blockSector disk hdr k)
  apart : ∀ k, first ≤ k → k < last → blockSector disk hdr k ≠ hdr.sectorNumber ∧
    blockSector disk hdr k ≠ 0 ∧ blockSector disk hdr k ≠ 2
  distinct : ∀ k k', first ≤ k → k < last → first ≤ k' → k' < last →
    blockSector disk hdr k = blockSector disk hdr k' → k = k'
  indirect : 8 < count → (hdr.dataSectors 8 ≠ hdr.sectorNumber ∧ hdr.dataSectors 8 ≠ 0 ∧
    hdr.dataSectors 8 ≠ 2) ∧
      ∀ k, first ≤ k → k < last → blockSector disk hdr k ≠ hdr.dataSectors 8

theorem Owned.valid {count first last : Nat} (owned : Owned disk hdr count first last) :
    ValidSector hdr.sectorNumber := ⟨owned.number.1.1, owned.number.1.2.1⟩

theorem Owned.mono {count first last first' last' : Nat} (owned : Owned disk hdr count first last)
    (lower : first ≤ first') (upper : last' ≤ last) : Owned disk hdr count first' last' where
  number := owned.number
  located := fun k low high => owned.located k (by omega) (by omega)
  marked := fun k low high => owned.marked k (by omega) (by omega)
  apart := fun k low high => owned.apart k (by omega) (by omega)
  distinct := fun k k' low high low' high' =>
    owned.distinct k k' (by omega) (by omega) (by omega) (by omega)
  indirect := fun large => ⟨(owned.indirect large).1, fun k low high =>
    (owned.indirect large).2 k (by omega) (by omega)⟩

/-- Everything one `WriteAt` of `n` bytes at `pos` does to the disk. -/
structure Written (disk disk' : Disk) (hdr hdr' : FileHeader) (source : Memory)
    (pos n len : Nat) : Prop where
  length : hdr'.numBytes = (max len (pos + n) : Nat)
  sectors : hdr'.numSectors = sectorsFor (max len (pos + n))
  number : hdr'.sectorNumber = hdr.sectorNumber
  slots : ∀ i, i < 9 → i < sectorsFor len ∨ sectorsFor (max len (pos + n)) ≤ i →
    hdr'.dataSectors i = hdr.dataSectors i
  taken : (diskMap disk).Takes
    (hdr'.slots (sectorsFor len) (sectorsFor (max len (pos + n)) - sectorsFor len)) (diskMap disk')
  map : Agrees (headerAt disk' 0) (headerAt disk 0)
  header : disk' hdr.sectorNumber = hdr'.raw
  indirect : 8 < sectorsFor len → disk' (hdr.dataSectors 8) = disk (hdr.dataSectors 8)
  frame : ∀ s, s ≠ hdr.sectorNumber → s ≠ 0 → s ≠ 2 →
    (∀ k, pos / 128 ≤ k → k * 128 < pos + n → s ≠ blockSector disk' hdr' k) → disk' s = disk s
  written : ∀ o, pos ≤ o → o < pos + n → fileByte disk' hdr' o = source (o - pos)
  kept : ∀ o, o < len → pos / 128 ≤ o / 128 → o / 128 * 128 < pos + n → o < pos ∨ pos + n ≤ o →
    fileByte disk' hdr' o = fileByte disk hdr o
  clock : pos + n ≤ len → Agrees hdr' hdr

theorem sectorsFor_le_iff {n k : Nat} : sectorsFor n ≤ k ↔ n ≤ k * 128 := by
  unfold sectorsFor
  omega

theorem lt_sectorsFor_iff {n k : Nat} : k < sectorsFor n ↔ k * 128 < n := by
  unfold sectorsFor
  omega

/-- A write inside the file leaves the free map alone. -/
theorem Wrote.written_inside {source : Memory} {n pos len : Nat} {hdr' : FileHeader}
    (wrote : Wrote disk disk' hdr hdr' source pos n len) (length : hdr.numBytes = len)
    (sectors : hdr.numSectors = sectorsFor len) (inside : pos + n ≤ len)
    (owned : Owned disk hdr (sectorsFor len) (pos / 128) (sectorsFor (pos + n))) :
    Written disk disk' hdr hdr' source pos n len := by
  have whole : max len (pos + n) = len := by omega
  have free : ∀ s, s = 0 ∨ s = 2 → disk' s = disk s := by
    intro s reserved
    have number := owned.number.2
    apply wrote.frame s
    · rintro rfl
      omega
    · rintro k low high rfl
      have apart := (owned.apart k low (lt_sectorsFor_iff.mpr high)).2
      omega
  have far : 8 < sectorsFor len → disk' (hdr.dataSectors 8) = disk (hdr.dataSectors 8) := by
    intro large
    obtain ⟨notOwn, notBlock⟩ := owned.indirect large
    exact wrote.frame _ notOwn.1 fun k low high => (notBlock k low (lt_sectorsFor_iff.mpr high)).symm
  have place : ∀ k, pos / 128 ≤ k → k * 128 < pos + n →
      blockSector disk' hdr' k = blockSector disk hdr k := by
    intro k low high
    refine blockSector_congr (fun i bound => wrote.agrees.dataSectors bound) fun large => far ?_
    exact lt_sectorsFor_iff.mpr (by omega)
  refine ⟨?_, ?_, wrote.agrees.sectorNumber, fun i bound _ => wrote.agrees.dataSectors bound,
    ?_, ?_, wrote.header, far, ?_, ?_, ?_, fun _ => wrote.agrees⟩
  · rw [whole, wrote.agrees.numBytes, length]
  · rw [whole, wrote.agrees.numSectors, sectors]
  · rw [whole, Nat.sub_self]
    exact (BitMap.takes_nil _).congr (BitMap.Same.refl _) (diskMap_same (free 2 (.inr rfl)))
  · unfold headerAt
    rw [free 0 (.inl rfl)]
    exact Agrees.refl _
  · intro s notOwn _ _ blocks
    exact wrote.frame s notOwn fun k low high => by rw [← place k low high]; exact blocks k low high
  · intro o low high
    unfold fileByte
    rw [place _ (by omega) (by omega)]
    exact wrote.written o low high
  · intro o within low high outside
    unfold fileByte
    rw [place _ low high]
    exact wrote.kept o within low high outside

/-- The blocks a write covers are apart when the file owns them. -/
theorem Owned.separate {n pos len : Nat} (inside : pos + n ≤ len)
    (owned : Owned disk hdr (sectorsFor len) (pos / 128) (sectorsFor (pos + n))) :
    Separate disk hdr pos n where
  located := fun k low high => owned.located k low (lt_sectorsFor_iff.mpr high)
  distinct := fun k k' low high low' high' => owned.distinct k k' low (lt_sectorsFor_iff.mpr high)
    low' (lt_sectorsFor_iff.mpr high')
  header := fun k low high => (owned.apart k low (lt_sectorsFor_iff.mpr high)).1
  indirect := fun far => by
    obtain ⟨notOwn, notBlock⟩ := owned.indirect (lt_sectorsFor_iff.mpr (by omega))
    exact ⟨notOwn.1, fun k low high => notBlock k low (lt_sectorsFor_iff.mpr high)⟩

/-- A header that has taken fresh sectors owns its blocks on the disk where it
and the free map have been written back. -/
private theorem Owned.extend {hdr₁ : FileHeader} {after : BitMap} {first old new : Nat}
    (owned : Owned disk hdr old first old) (grows : old ≤ new) (room : new ≤ 8 ∨ new = old)
    (number : hdr₁.sectorNumber = hdr.sectorNumber)
    (slots : ∀ i, i < 9 → i < old ∨ new ≤ i → hdr₁.dataSectors i = hdr.dataSectors i)
    (taken : (diskMap disk).Takes (hdr₁.slots old (new - old)) after)
    (same : BitMap.Same (diskMap disk') after)
    (reserved : (diskMap disk).Marked 0 ∧ (diskMap disk).Marked 2)
    (frame : ∀ s, s ≠ hdr.sectorNumber → s ≠ 0 → s ≠ 2 → disk' s = disk s) :
    Owned disk' hdr₁ new first new ∧
      ∀ k, first ≤ k → k < old → blockSector disk' hdr₁ k = blockSector disk hdr k := by
  have keeps : ∀ s, (diskMap disk).Marked s → (diskMap disk').Marked s := fun s set =>
    (same.marks s).mpr ((taken.exactly s).mpr (.inl set))
  have place : ∀ k, first ≤ k → k < old → blockSector disk' hdr₁ k = blockSector disk hdr k := by
    intro k low high
    unfold blockSector
    split
    · exact slots k (by omega) (.inl high)
    · have apart := (owned.indirect (by omega)).1
      rw [slots 8 (by omega) (by omega), frame _ apart.1 apart.2.1 apart.2.2]
  -- a block past the old end is one of the sectors just taken
  have fresh : ∀ k, old ≤ k → k < new → blockSector disk' hdr₁ k = hdr₁.dataSectors k ∧
      hdr₁.dataSectors k ∈ hdr₁.slots old (new - old) := by
    intro k low high
    refine ⟨blockSector_direct (by omega), mem_slots.mpr ⟨k - old, by omega, ?_⟩⟩
    congr 1
    omega
  have unmarked : ∀ k, old ≤ k → k < new → ¬ (diskMap disk).Marked (blockSector disk' hdr₁ k) := by
    intro k low high
    rw [(fresh k low high).1]
    exact (taken.fresh _ (fresh k low high).2).2.2
  have nowMarked : ∀ k, first ≤ k → k < new → (diskMap disk').Marked (blockSector disk' hdr₁ k) := by
    intro k low high
    by_cases before : k < old
    · rw [place k low before]
      exact keeps _ (owned.marked k low before)
    · obtain ⟨here, member⟩ := fresh k (by omega) high
      rw [here]
      exact (same.marks _).mpr ((taken.exactly _).mpr (.inr member))
  refine ⟨⟨?_, ?_, nowMarked, ?_, ?_, ?_⟩, place⟩
  · rw [number]
    exact ⟨keeps _ owned.number.1, owned.number.2⟩
  · intro k low high
    obtain ⟨lower, upper, -⟩ := nowMarked k low high
    refine ⟨?_, ?_, lower, upper⟩
    · by_cases before : k < old
      · exact (owned.located k low before).1
      · omega
    · intro far
      rw [slots 8 (by omega) (by omega)]
      exact (owned.located k low (by omega)).2.1 far
  · intro k low high
    rw [number]
    by_cases before : k < old
    · rw [place k low before]
      exact owned.apart k low before
    · have clear := unmarked k (by omega) high
      refine ⟨?_, ?_, ?_⟩ <;> intro equal <;> rw [equal] at clear
      · exact clear owned.number.1
      · exact clear reserved.1
      · exact clear reserved.2
  · intro k k' low high low' high' equal
    by_cases before : k < old
    · by_cases before' : k' < old
      · rw [place k low before, place k' low' before'] at equal
        exact owned.distinct k k' low before low' before' equal
      · have clear := unmarked k' (by omega) high'
        rw [← equal, place k low before] at clear
        exact absurd (owned.marked k low before) clear
    · by_cases before' : k' < old
      · have clear := unmarked k (by omega) high
        rw [equal, place k' low' before'] at clear
        exact absurd (owned.marked k' low' before') clear
      · rw [(fresh k (by omega) high).1, (fresh k' (by omega) high').1] at equal
        exact slot_inj taken.distinct (by omega) (by omega) equal
  · intro large
    have unchanged : new = old := by omega
    subst unchanged
    obtain ⟨apart, notBlock⟩ := owned.indirect large
    rw [slots 8 (by omega) (by omega), number]
    exact ⟨apart, fun k low high => by rw [place k low high]; exact notBlock k low high⟩

/-- A write past the end, up to the point where the data is written: `Extend`
has turned the header into `hdr₁` and the fetched map into `after`, and both
are on disk. The second handle on sector 0 is opened and closed again, so the
counters end as they were. -/
theorem ensures_writeAt_past_end {post : Int × OpenFile → Disk → Counters → Prop}
    {depth : Nat} {source : Memory} {n pos len : Nat} (length : file.hdr.numBytes = len)
    (reached : pos ≤ len) (grows : len < pos + n) (bound : pos + n < 2147483648)
    (map : IsMapHeader (headerAt disk 0)) (own : ValidSector file.hdr.sectorNumber)
    (rest : ∀ fetched, BitMap.Same fetched (diskMap disk) → ∃ hdr₁ after,
      file.hdr.Extend fetched ((pos : Int) + n - len) = .ok (true, hdr₁, after) ∧
      hdr₁.sectorNumber = file.hdr.sectorNumber ∧ after.numBits = 1024 ∧
      ∀ disk₃, BitMap.Same (diskMap disk₃) after → Agrees (headerAt disk₃ 0) (headerAt disk 0) →
        (file.hdr.sectorNumber ≠ 0 → file.hdr.sectorNumber ≠ 2 →
          disk₃ file.hdr.sectorNumber = hdr₁.raw) →
        (∀ s, s ≠ file.hdr.sectorNumber → s ≠ 0 → s ≠ 2 → disk₃ s = disk s) →
        Ensures (writeBlocks { file with hdr := hdr₁ } source n pos) post fault disk₃ vis) :
    Ensures (writeAt (depth + 2) file source n pos) post fault disk vis := by
  unfold writeAt
  simp only [FileLength, length]
  rw [if_neg (by omega), if_neg (by omega), if_pos (by omega)]
  apply ensures_bind
  have zeroOwn : FileHeader.sectorNumber ⟨disk 0⟩ = 0 := map.number
  refine ensures_new (by decide) (by rw [zeroOwn]; decide) ?_
  rw [zeroOwn]
  apply ensures_bind
  apply BitMap.ensures_create
  intro blank blankBits _
  apply ensures_bind
  refine BitMap.ensures_FetchFrom (by rw [blankBits]; rfl) map ?_
  intro fetched hdrA fetchedSame visitedA
  have agreesA := visitedA.agrees
  obtain ⟨hdr₁, after, computed, number₁, afterBits, rest⟩ := rest fetched fetchedSame
  apply ensures_bind
  refine ensures_checked computed ?_
  apply ensures_bind
  rw [number₁]
  refine ensures_WriteBack own ?_
  apply ensures_bind
  refine ensures_writeAt_map afterBits (map.agrees agreesA) ?_
  intro hdrB disk₃ result agreesB zeroth same frame
  have mapB : IsMapHeader hdrB := (map.agrees agreesA).agrees agreesB
  apply ensures_bind
  refine ensures_delete (by rw [mapB.number]; decide) ?_
  have restored : Function.update (Function.update vis 0 (vis 0 + 1)) hdrB.sectorNumber
      (Function.update vis 0 (vis 0 + 1) hdrB.sectorNumber - 1) = vis := by
    rw [mapB.number, Function.update_self, Function.update_idem]
    simp
  rw [restored]
  refine rest disk₃ same ?_ ?_ ?_
  · unfold headerAt
    rw [zeroth]
    exact agreesB.trans agreesA
  · intro notMap notTwo
    rw [frame _ notMap notTwo, Function.update_self]
  · intro s notOwn notZero notTwo
    rw [frame s notZero notTwo, Function.update_of_ne notOwn, Function.update_of_ne notZero]

private theorem ensures_writeAt_growth {post : Int × OpenFile → Disk → Counters → Prop}
    {depth : Nat} {source : Memory} {n pos len : Nat} (length : file.hdr.numBytes = len)
    (sectors : file.hdr.numSectors = sectorsFor len) (reached : pos ≤ len) (grows : len < pos + n)
    (bound : pos + n < 2147483648)
    (room : sectorsFor (pos + n) ≤ 8 ∨ sectorsFor (pos + n) = sectorsFor len)
    (map : IsMapHeader (headerAt disk 0))
    (reserved : (diskMap disk).Marked 0 ∧ (diskMap disk).Marked 2)
    (enough : sectorsFor (pos + n) - sectorsFor len ≤ (diskMap disk).freeCount)
    (owned : Owned disk file.hdr (sectorsFor len) (pos / 128) (sectorsFor len))
    (holds : ∀ hdr' disk', Written disk disk' file.hdr hdr' source pos n len →
      post ((n : Int), { file with hdr := hdr' }) disk' vis) :
    Ensures (writeAt (depth + 2) file source n pos) post fault disk vis := by
  have more : sectorsFor len ≤ sectorsFor (pos + n) := by unfold sectorsFor; omega
  have total : file.hdr.numBytes + ((pos : Int) + n - len) = ((pos + n : Nat) : Int) := by
    rw [length]
    omega
  refine ensures_writeAt_past_end length reached grows bound map owned.valid ?_
  intro fetched fetchedSame
  have fetchedBits : fetched.numBits = 1024 := fetchedSame.size
  obtain ⟨hdr₁, after, computed, length₁, sectors₁, taken, rest, -⟩ := extend_ok file.hdr fetchedBits
    sectors total bound (by omega) (by rw [fetchedSame.freeCount]; exact enough)
  have outside : ∀ offset, 8 ≤ offset → offset + 4 ≤ 8 + 4 * sectorsFor len ∨
      8 + 4 * sectorsFor (pos + n) ≤ offset → hdr₁.field offset = file.hdr.field offset := by
    intro offset low disjoint
    exact congrArg BitVec.toInt (Memory.word_congr fun k less => rest _ (by omega) (by omega))
  have number₁ : hdr₁.sectorNumber = file.hdr.sectorNumber := outside 124 (by omega) (by omega)
  have slots₁ : ∀ i, i < 9 → i < sectorsFor len ∨ sectorsFor (pos + n) ≤ i →
      hdr₁.dataSectors i = file.hdr.dataSectors i := fun i _ apart =>
    outside (8 + 4 * i) (by omega) (by omega)
  refine ⟨hdr₁, after, computed, number₁, taken.size.trans fetchedBits, ?_⟩
  intro disk₃ same zeroth _ frame₃
  have taken' := taken.congr fetchedSame.symm (BitMap.Same.refl after)
  obtain ⟨owned₁, place⟩ := owned.extend more (by omega) number₁ slots₁ taken' same reserved frame₃
  have whole : max len (pos + n) = pos + n := by omega
  refine ensures_writeBlocks length₁ (by omega) (by omega)
    (by rw [number₁]; exact owned.valid) (owned₁.separate (Nat.le_refl _)) ?_
  intro hdr' disk' wrote
  have inside := wrote.written_inside length₁ sectors₁ (Nat.le_refl _) owned₁
  have none : sectorsFor (max (pos + n) (pos + n)) - sectorsFor (pos + n) = 0 := by
    rw [max_self, Nat.sub_self]
  apply holds
  have agrees := wrote.agrees
  refine ⟨inside.length.trans (by rw [max_self, whole]),
    inside.sectors.trans (by rw [max_self, whole]), inside.number.trans number₁, ?_, ?_,
    inside.map.trans zeroth, by rw [← number₁]; exact inside.header, ?_, ?_, inside.written, ?_,
    by omega⟩
  · intro i bound apart
    rw [whole] at apart
    exact (agrees.dataSectors bound).trans (slots₁ i bound apart)
  · rw [whole]
    have slotsSame : hdr'.slots (sectorsFor len) (sectorsFor (pos + n) - sectorsFor len) =
        hdr₁.slots (sectorsFor len) (sectorsFor (pos + n) - sectorsFor len) := by
      apply slots_congr
      intro i less
      exact agrees.dataSectors (by omega)
    rw [slotsSame]
    refine taken'.congr (BitMap.Same.refl _) (BitMap.Same.trans ?_ same)
    have unchanged := inside.taken
    rw [none] at unchanged
    exact ⟨unchanged.size, fun s => by simpa [FileHeader.slots] using unchanged.exactly s⟩
  · intro large
    have apart := (owned.indirect large).1
    rw [← frame₃ _ apart.1 apart.2.1 apart.2.2, ← slots₁ 8 (by omega) (by omega)]
    exact inside.indirect (by omega)
  · intro s notOwn notZero notTwo blocks
    rw [inside.frame s (by rw [number₁]; exact notOwn) notZero notTwo blocks]
    exact frame₃ s notOwn notZero notTwo
  · intro o within low high apart
    rw [inside.kept o (by omega) low high apart]
    have block : o / 128 < sectorsFor len := lt_sectorsFor_iff.mpr (by omega)
    have away := owned.apart _ low block
    exact fileByte_congr (place _ low block) (frame₃ _ away.1 away.2.1 away.2.2)

/-- `WriteAt` on a file that owns the blocks it covers: either no new sector
crosses the border to the indirect block, or the number of sectors stays. -/
theorem ensures_writeAt {post : Int × OpenFile → Disk → Counters → Prop}
    {depth : Nat} {source : Memory} {n pos len : Nat} (length : file.hdr.numBytes = len)
    (sectors : file.hdr.numSectors = sectorsFor len) (positive : 0 < n) (reached : pos ≤ len)
    (bound : pos + n < 2147483648)
    (room : sectorsFor (pos + n) ≤ 8 ∨ sectorsFor (pos + n) ≤ sectorsFor len)
    (map : IsMapHeader (headerAt disk 0))
    (reserved : (diskMap disk).Marked 0 ∧ (diskMap disk).Marked 2)
    (enough : sectorsFor (pos + n) - sectorsFor len ≤ (diskMap disk).freeCount)
    (owned : Owned disk file.hdr (sectorsFor len) (pos / 128)
      (min (sectorsFor len) (sectorsFor (pos + n))))
    (holds : ∀ hdr' disk', Written disk disk' file.hdr hdr' source pos n len →
      post ((n : Int), { file with hdr := hdr' }) disk' vis) :
    Ensures (writeAt (depth + 2) file source n pos) post fault disk vis := by
  by_cases grows : len < pos + n
  · have more : sectorsFor len ≤ sectorsFor (pos + n) := by unfold sectorsFor; omega
    rw [min_eq_left more] at owned
    exact ensures_writeAt_growth length sectors reached grows bound (by omega) map reserved enough
      owned holds
  · have fewer : sectorsFor (pos + n) ≤ sectorsFor len := by unfold sectorsFor; omega
    rw [min_eq_right fewer] at owned
    refine ensures_writeAt_inside length positive (by omega) owned.valid
      (owned.separate (by omega)) fun hdr' disk' wrote => holds hdr' disk' ?_
    exact wrote.written_inside length sectors (by omega) owned

theorem ensures_WriteAt_nothing {post : Int × OpenFile → Disk → Counters → Prop}
    {source : Memory} {n pos : Int} (nothing : n ≤ 0 ∨ pos > file.hdr.numBytes)
    (holds : post (0, file) disk vis) :
    Ensures (file.WriteAt source n pos) post fault disk vis := by
  have nothing : n ≤ 0 ∨ pos > file.hdr.FileLength := nothing
  unfold WriteAt writeDepth writeAt
  dsimp only
  rw [if_pos nothing]
  exact ensures_pure holds

end OpenFile

end Nachos
