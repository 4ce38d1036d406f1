import Nachos.Filesys.SessionProofs

/-! Which sectors one `WriteAt` changes. Inside the eight direct slots it stays
within the file and the free map. When a file of eight sectors gets a ninth,
`Extend` puts the new sector where `ByteToSector` expects the indirect block,
and the bytes go wherever its old contents lead. -/
namespace Nachos
open Effects FileHeader OpenFile

variable {layout : Layout} {disk disk' : Disk} {vis : Counters} {file : OpenFile} {h : Int}
  {len n pos : Nat} {source : Memory}

/-- A write to the file with header `h` has changed nothing but that file, what
it newly marked, and the free map's sectors; the free map's header changed in
its clock texts only, and the other files are as they were. -/
structure WriteFrame (layout : Layout) (disk disk' : Disk) (h : Int) : Prop where
  changed : ∀ s, disk' s ≠ disk s → (∃ part, HasPart disk h part s) ∨
    (¬ (diskMap disk).Marked s ∧ (diskMap disk').Marked s) ∨
    s = FreeMapSector ∨ s = (headerAt disk FreeMapSector).dataSectors 0
  mapHeader : Agrees (headerAt disk' FreeMapSector) (headerAt disk FreeMapSector)
  others : ∀ q ∈ layout.files, q ≠ h → ∀ part s, HasPart disk q part s → disk' s = disk s

/-- The first two fields give the third: no sector has two owners. -/
theorem Consistent.others_kept (consistent : Consistent layout disk) (known : h ∈ layout.files)
    (changed : ∀ s, disk' s ≠ disk s → (∃ part, HasPart disk h part s) ∨
      (¬ (diskMap disk).Marked s ∧ (diskMap disk').Marked s) ∨ s = 0 ∨ s = 2)
    {q : Int} (knownQ : q ∈ layout.files) (other : q ≠ h) {part : Part} {s : Int}
    (owned : HasPart disk q part s) : disk' s = disk s := by
  have claimed : Claims layout disk (q, part) s := ⟨.inr (.inr knownQ), owned⟩
  obtain ⟨notMap, notTwo⟩ := consistent.sheltered.file_apart knownQ
  by_contra differs
  rcases changed s differs with ⟨part', mine⟩ | ⟨clear, -⟩ | zero | two
  · have same := consistent.storage.single (q, part) (h, part') s claimed ⟨.inr (.inr known), mine⟩
    exact other (congrArg Prod.fst same)
  · exact clear (consistent.storage.marked_of_owns claimed)
  · rw [zero] at claimed
    have same := consistent.storage.single (q, part) (0, .header) 0 claimed ⟨.inl rfl, rfl⟩
    exact notMap (congrArg Prod.fst same)
  · exact consistent.sheltered.ne_two (.inr (.inr knownQ)) owned (.inl notMap) two

/-- A write through a current handle that stays clear of the border between the
direct slots and the indirect block, and of indirect entries that do not fit in
seven bits, keeps the frame. -/
theorem write_at_frame (consistent : Consistent layout disk) (known : h ∈ layout.files)
    (headed : Headed disk h len) (current : Current disk file h) (positive : 0 < n)
    (reached : pos ≤ len)
    (enough : sectorsFor (pos + n) - sectorsFor len ≤ (diskMap disk).freeCount)
    (room : sectorsFor (pos + n) ≤ 8 ∨ sectorsFor (pos + n) ≤ sectorsFor len)
    (small : SmallBetween disk h (pos / 128) (min (sectorsFor len) (sectorsFor (pos + n)))) :
    Ensures (file.WriteAt source n pos) (fun result disk' _ => result.1 = n ∧
      WriteFrame layout disk disk' h) (fun _ => False) disk vis := by
  refine ensures_WriteAt_file consistent.sheltered known known headed current positive reached room enough small ?_
  intro file' disk' written grew _ _
  have changed : ∀ s, disk' s ≠ disk s → (∃ part, HasPart disk h part s) ∨
      (¬ (diskMap disk).Marked s ∧ (diskMap disk').Marked s) ∨ s = 0 ∨ s = 2 := by
    intro s differs
    by_contra outside
    push Not at outside
    obtain ⟨notOwned, stays, notZero, notTwo⟩ := outside
    refine differs (written.frame s ?_ notZero notTwo fun k low high same => ?_)
    · rw [consistent.sheltered.number (.inr (.inr known)) current]
      exact notOwned .header
    · rcases written.block_cases consistent.sheltered known headed current room small low high with
        ⟨old, place⟩ | ⟨new, clear⟩
      · rw [place] at same
        exact notOwned (.data k) (same ▸ headed.data old)
      · rw [← same] at clear
        refine stays clear ((written.taken.exactly s).mpr (.inr (mem_slots.mpr
          ⟨k - sectorsFor len, ?_, ?_⟩)))
        · have inside : k < sectorsFor (pos + n) := lt_sectorsFor_iff.mpr high
          have total : sectorsFor (pos + n) ≤ sectorsFor (max len (pos + n)) := by
            unfold sectorsFor
            omega
          omega
        · have inside : k < sectorsFor (pos + n) := lt_sectorsFor_iff.mpr high
          rw [same, blockSector_direct (by omega)]
          congr 1
          omega
  have slot : (headerAt disk FreeMapSector).dataSectors 0 = 2 := consistent.map.slot
  refine ⟨rfl, ?_, written.map, fun q knownQ other part s owned =>
    consistent.others_kept known changed knownQ other owned⟩
  rw [slot]
  exact changed

/-- Two hundred bytes appended to a file of two hundred. -/
theorem write_at_frame_append : ∃ layout disk file,
    Consistent layout disk ∧ (6 : Int) ∈ layout.files ∧ Headed disk 6 200 ∧ Current disk file 6 ∧
      Ensures (file.WriteAt (fun _ => 7) (200 : Nat) (200 : Nat)) (fun result disk' _ =>
        result.1 = (200 : Nat) ∧ WriteFrame layout disk disk' 6) (fun _ => False) disk
        fun _ => 0 := by
  obtain ⟨before, disk, i, shape, created, room⟩ := zeroMachine_file (show sectorsFor 200 ≤ 8 by decide)
  rw [show 1017 - sectorsFor 200 = 1015 from rfl] at room
  have consistent := created.consistent shape.consistent
  have known : (6 : Int) ∈ (emptyLayout.add 6 false).files := .inl rfl
  have current : Current disk { hdr := headerAt disk 6, seekPosition := 0 } 6 := Agrees.refl _
  have small : SmallBetween disk 6 (200 / 128) (min (sectorsFor 200) (sectorsFor (200 + 200))) := by
    intro k far _ bound
    rw [show min (sectorsFor 200) (sectorsFor (200 + 200)) = 2 from rfl] at bound
    omega
  exact ⟨_, disk, _, consistent, known, created.headed, current,
    write_at_frame consistent known created.headed current (by omega) (by omega)
      (by rw [show sectorsFor (200 + 200) - sectorsFor 200 = 2 from rfl]; omega)
      (.inl (by decide)) small⟩

/-! ## Over the border -/

/-- One byte written behind the end of a file of eight full sectors goes to the
sector the first byte of the first free sector names. -/
theorem ensures_WriteAt_border {post : Int × OpenFile → Disk → Counters → Prop}
    {fault : Fault → Prop} {f t : Int} (consistent : Consistent layout disk)
    (known : h ∈ layout.files) (headed : Headed disk h 1024) (current : Current disk file h)
    (first : FirstFree disk f) (names : signedChar ((disk f).mem 0) = t) (inRange : ValidSector t)
    (apart : t ≠ h ∧ t ≠ f)
    (holds : ∀ file' disk', (disk' t).mem 0 = source 0 → post (1, file') disk' vis) :
    Ensures (file.WriteAt source 1 1024) post fault disk vis := by
  have head : layout.Head h := .inr (.inr known)
  have number := consistent.sheltered.number head current
  obtain ⟨validF, clear⟩ := first.1
  obtain ⟨notMap, notTwo⟩ := consistent.sheltered.file_apart known
  have differs : ∀ s, (diskMap disk).Marked s → f ≠ s := fun s marked same => clear (same ▸ marked)
  have notH := differs h (consistent.sheltered.head_marked head)
  have notZero := differs 0 (consistent.sheltered.head_marked (.inl rfl))
  have notData := differs 2 (consistent.storage.marked_of_owns (k := (0, .data 0))
    ⟨.inl rfl, consistent.sheltered.map_data⟩)
  have length : file.hdr.numBytes = ((1024 : Nat) : Int) := current.numBytes.trans headed.length
  have nine : sectorsFor 1025 = 9 := rfl
  have own : ValidSector file.hdr.sectorNumber := by
    rw [number]
    exact consistent.sheltered.valid_head head
  change Ensures (writeAt (6 + 2) file source ((1 : Nat) : Int) ((1024 : Nat) : Int)) _ _ _ _
  refine ensures_writeAt_past_end length (by omega) (by omega) (by omega) consistent.map own ?_
  intro fetched same
  have free : 1 ≤ fetched.freeCount := by
    obtain ⟨b, run⟩ := @BitMap.exists_firstRun fetched 1 f.toNat
      (by have bits : fetched.numBits = 1024 := same.size; have high : f < 1024 := validF.2; omega)
      fun j less marked => by
        rw [show ((f.toNat + j : Nat) : Int) = f by have low := validF.1; omega] at marked
        exact clear ((same.marks f).mp marked)
    exact run.le_freeCount
  obtain ⟨hdr₁, after, computed, length₁, -, taken, rest, least⟩ := extend_ok file.hdr
    same.size (show file.hdr.numSectors = ((8 : Nat) : Int) from
      current.numSectors.trans headed.sectors)
    (show file.hdr.numBytes + (((1024 : Nat) : Int) + (1 : Nat) - ((1024 : Nat) : Int)) =
      (1025 : Nat) by rw [length]; omega) (by omega) (.inl (by decide))
    (by rw [nine]; exact free)
  rw [nine] at taken rest least
  have number₁ : hdr₁.sectorNumber = file.hdr.sectorNumber :=
    congrArg BitVec.toInt (Memory.word_congr fun k less => rest _ (by omega) (by omega))
  -- the ninth sector lies in the slot of the indirect block
  have slot : hdr₁.dataSectors 8 = f := by
    obtain ⟨low, high, fresh⟩ := taken.fresh (hdr₁.dataSectors 8) (mem_slots.mpr ⟨0, by omega, rfl⟩)
    rw [same.size] at high
    exact FirstFree.unique ⟨⟨⟨low, high⟩, fun marked => fresh ((same.marks _).mpr marked)⟩,
      fun t low less => (same.marks t).mp (least (by omega) t low less)⟩ first
  refine ⟨hdr₁, after, computed, number₁, taken.size.trans same.size, ?_⟩
  intro disk₃ _ _ _ frame₃
  have stale : disk₃ f = disk f := frame₃ f (by rw [number]; exact notH) notZero notData
  have place : blockSector disk₃ hdr₁ 8 = t := by
    rw [← names, ← stale, ← slot]
    rfl
  have only : ∀ k, 1024 / 128 ≤ k → k * 128 < 1024 + 1 → k = 8 := by omega
  refine ensures_writeBlocks (show hdr₁.numBytes = ((1025 : Nat) : Int) from length₁) (by omega)
    (by omega) (show ValidSector hdr₁.sectorNumber by rw [number₁]; exact own) ⟨?_, ?_, ?_, ?_⟩ ?_
  · intro k low high
    rw [only k low high]
    exact ⟨by omega, fun _ => by rw [slot]; exact validF, by rw [place]; exact inRange⟩
  · intro k k' low high low' high' _
    rw [only k low high, only k' low' high']
  · intro k low high
    rw [only k low high, place, number₁, number]
    exact apart.1
  · intro _
    rw [slot, number₁, number]
    refine ⟨notH, fun k low high => ?_⟩
    rw [only k low high, place]
    exact apart.2
  · intro hdr' disk' wrote
    have written := wrote.written 1024 (by omega) (by omega)
    have block : blockSector disk₃ hdr₁ (1024 / 128) = t := place
    rw [block] at written
    exact holds _ disk' written

/-- A file of eight sectors on a new disk, and one more byte: the byte lands in
the header of the free map. -/
theorem write_at_breaks_frame :
    ¬ ∀ (layout : Layout) (disk : Disk) (vis : Counters) (file : OpenFile) (h : Int)
      (source : Memory) (len n pos : Nat), Consistent layout disk → h ∈ layout.files →
      Headed disk h len → Current disk file h → 0 < n → pos ≤ len →
      sectorsFor (max len (pos + n)) ≤ 40 →
      sectorsFor (pos + n) - sectorsFor len ≤ (diskMap disk).freeCount →
      Ensures (file.WriteAt source n pos) (fun _ disk' _ => WriteFrame layout disk disk' h)
        (fun _ => False) disk vis := by
  intro always
  obtain ⟨before, disk, i, shape, created, room⟩ := zeroMachine_file (show sectorsFor 1024 ≤ 8 by decide)
  rw [show 1017 - sectorsFor 1024 = 1009 from rfl] at room
  have consistent := created.consistent shape.consistent
  have known : (6 : Int) ∈ (emptyLayout.add 6 false).files := .inl rfl
  obtain ⟨f, after, -, taken, least⟩ := BitMap.find_of_free (show 0 < (diskMap disk).freeCount by omega)
  have first := firstFree_of_takes taken least
  have clear : ¬ (diskMap before).Marked f := fun marked =>
    first.1.2 ((created.taken.exactly f).mpr (.inl marked))
  have behind : 6 ≤ f := by
    by_contra low
    exact clear ((shape.marked f).mpr ⟨first.1.1.1, by omega⟩)
  have stale : disk f = zeroMachine.disk f :=
    (created.rest f first.1.2).trans (shape.rest f (.inr behind))
  let file : OpenFile := { hdr := headerAt disk 6, seekPosition := 0 }
  have current : Current disk file 6 := Agrees.refl _
  have lands : Ensures (file.WriteAt (fun _ => 0) 1 1024)
      (fun _ disk' _ => (disk' 0).mem 0 = 0) (fun _ => False) disk fun _ => 0 :=
    ensures_WriteAt_border consistent known created.headed current first
      (by rw [stale]; rfl) (by decide) ⟨by omega, by omega⟩ fun _ _ written => written
  have frame := always _ disk (fun _ => 0) file 6 (fun _ => 0) 1024 1 1024 consistent known created.headed
    current (by omega) (by omega) (by decide) (by rw [show sectorsFor (1024 + 1) = 9 from rfl]; omega)
  obtain ⟨-, disk', -, written, kept⟩ := ensures_both lands frame
  -- the header said 128 bytes
  have length : (headerAt disk' 0).numBytes = 128 :=
    kept.mapHeader.numBytes.trans consistent.map.length
  have number := Memory.toNat_word (headerAt disk' 0).mem 0
  have zeroth : (headerAt disk' 0).mem 0 = 0 := written
  have bytes : ((headerAt disk' 0).mem.word 0).toInt = 128 := length
  rw [BitVec.toInt_eq_toNat_cond] at bytes
  rw [zeroth] at number
  have literal : (0 : UInt8).toNat = 0 := rfl
  split at bytes <;> omega

end Nachos
