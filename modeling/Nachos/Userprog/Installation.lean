import Nachos.Filesys.FileTests
import Nachos.Userprog.Conversion
import Nachos.Userprog.FirstTouch

/-! A program on its way from the compiler to its first access. `coff2noff` makes a NOFF
file of it (`bin/coff2noff.c`), `Copy` brings that to the disk (`filesys/fstest.cc`),
`Open` and the constructor of `AddrSpace` load it (`userprog/progtest.cc`,
`userprog/addrspace.cc`), and page faults bring its pages into memory. -/
namespace Nachos

/-! ## The magic number -/

namespace Coff2noff

variable {file : File} {m m' : State} {s : Scnhdr}

theorem Write_noffH {buf : Effects.Memory} {nBytes : BitVec 32} (wrote : Write m buf nBytes = .ok m') :
    m'.noffH = m.noffH := by
  unfold Write at wrote
  split at wrote
  · cases wrote
  split at wrote
  · cases wrote
    rfl
  · cases wrote

/-- A step that has a result went through. -/
theorem ok_of_bind {A B : Type} {b : B} {first : Except Stop A} {rest : A → Except Stop B}
    (ok : first >>= rest = .ok b) : ∃ a, first = .ok a ∧ rest a = .ok b := by
  cases first with
  | error stop => cases ok
  | ok a => exact ⟨a, rfl, ok⟩

theorem copySection_noffH (copied : copySection file s m = .ok m') : m'.noffH = m.noffH := by
  unfold copySection at copied
  obtain ⟨got, -, copied⟩ := ok_of_bind copied
  obtain ⟨m₁, wrote, copied⟩ := ok_of_bind copied
  have same := Write_noffH wrote
  cases copied
  exact same

theorem convertSection_magic (converted : convertSection file m s = .ok m') :
    m'.noffH.noffMagic = m.noffH.noffMagic := by
  unfold convertSection at converted
  split at converted
  · cases converted
    rfl
  split at converted
  · rw [copySection_noffH converted]
  split at converted
  · split at converted
    · cases converted
    · rw [copySection_noffH converted]
  split at converted
  · split at converted
    · split at converted
      · cases converted
      · cases converted
        rfl
    · cases converted
      rfl
  · cases converted

/-- The loop leaves the magic number in the header. -/
theorem foldlM_magic {sections : List Scnhdr}
    (converted : sections.foldlM (convertSection file) m = .ok m') : m'.noffH.noffMagic = m.noffH.noffMagic := by
  induction sections generalizing m with
  | nil =>
    cases converted
    rfl
  | cons s sections ih =>
    rw [List.foldlM_cons] at converted
    obtain ⟨m₁, first, converted⟩ := ok_of_bind converted
    exact (ih converted).trans (convertSection_magic first)

theorem magic_of_ok {noff : File} {garbage : Loading.NoffHeader} (ok : main file garbage = .ok noff) :
    noff.header.noffMagic = Loading.NOFFMAGIC := by
  rw [main_eq] at ok
  split at ok
  · cases converted : file.sections.foldlM (convertSection file)
        (begin_ garbage (filehdrSize + aouthdrSize + scnhdrSize * file.numsections.toNat)) with
    | error stop =>
      rw [converted] at ok
      cases ok
    | ok m =>
      rw [converted] at ok
      cases ok
      rw [header_finished, foldlM_magic converted]
      rfl
  · cases ok

/-- The bytes of a segment are there, as `int`s tell it. -/
theorem Stored.fits {segment : Loading.Segment} {stop : Nat} (stored : Stored segment stop)
    (small : stop ≤ 1024) : segment.Stored stop := by
  intro positive
  have nonempty : segment.size ≠ 0 := by
    intro zero
    rw [zero] at positive
    exact absurd positive (by decide)
  obtain ⟨behind, inside⟩ := stored nonempty
  rw [BitVec.toInt_eq_toNat_of_lt (by omega), BitVec.toInt_eq_toNat_of_lt (by omega)]
  omega

/-- What the converter's output holds of the sections that are loaded. -/
structure Carried (file noff : File) : Prop where
  code : Holds file noff Scnhdr.isText file.sections noff.header.code
  initData : Holds file noff Scnhdr.isData file.sections noff.header.initData
  codeStored : Stored noff.header.code noff.size
  initDataStored : Stored noff.header.initData noff.size
  convertible : Convertible file file.sections
  long : Loading.noffSize ≤ noff.size

theorem carried_of_ok {file : CoffFile} {noff : File} {garbage : Loading.NoffHeader}
    (ok : main file.toFile garbage = .ok noff) : Carried file.toFile noff := by
  obtain ⟨m, rfl, legal, converted⟩ := converted_of_ok ok
  have code := converted.code.finished isText_nonempty converted.codeStored
  have initData := converted.initData.finished isData_nonempty converted.initDataStored
  refine ⟨?_, ?_, ?_, ?_, legal.convertible, le_max_right _ _⟩
  · rw [header_finished]
    exact code
  · rw [header_finished]
    exact initData
  · rw [header_finished]
    exact code.stored converted.codeStored
  · rw [header_finished]
    exact initData.stored converted.initDataStored

/-- The bytes of the sections are at their addresses. -/
def SectionsAt (file : File) (image : Effects.Memory) : Prop :=
  ∀ s ∈ file.sections, s.isLoaded → ∀ k < s.s_size.toNat,
    image (s.s_paddr.toNat + k) = file.bytes (s.s_scnptr.toNat + k)

/-- An image that holds the two segments holds the sections. -/
theorem Carried.sectionsAt {file noff : File} {image : Effects.Memory} (carried : Carried file noff)
    (texts : TextsAgree file)
    (holds : ∀ segment ∈ [noff.header.code, noff.header.initData], ∀ k < segment.size.toNat,
      image (segment.virtualAddr.toNat + k) = noff.bytes (segment.inFileAddr.toNat + k)) :
    SectionsAt file image := by
  have placed : ∀ {segment : Loading.Segment} {s : Scnhdr}, segment ∈ [noff.header.code, noff.header.initData] →
      Placed file noff segment s → ∀ k < s.s_size.toNat,
        image (s.s_paddr.toNat + k) = file.bytes (s.s_scnptr.toNat + k) := by
    intro segment s member placed k inside
    rw [← placed.address, ← placed.bytes k inside]
    exact holds segment member k (by rw [placed.size]; exact inside)
  intro s member loaded
  cases text : s.isText with
  | true =>
    rcases carried.code with ⟨t, there, isText, here⟩ | ⟨none, -⟩
    · obtain ⟨address, size, bytes⟩ := texts s member t there text isText
      exact placed (List.mem_cons_self ..) (here.of_same address size bytes)
    · exact absurd text (none s member)
  | false =>
    have data : s.isData = true := by
      unfold Scnhdr.isLoaded at loaded
      rwa [text, Bool.false_or] at loaded
    rcases carried.initData with ⟨t, there, isData, here⟩ | ⟨none, -⟩
    · have same := carried.convertible.one_data member data there isData
      subst same
      exact placed (List.mem_cons_of_mem _ (List.mem_cons_self ..)) here
    · exact absurd data (none s member)

end Coff2noff

/-! ## Room for two files -/

/-- Taking sectors leaves as many low ones as there were but for those taken. -/
theorem BitMap.Takes.le_clearBelow {before after : BitMap} {sectors : List Int} {limit : Nat}
    (taken : Takes before sectors after) (within : limit ≤ before.numBits) :
    before.clearBelow limit ≤ after.clearBelow limit + sectors.length := by
  have split : (Finset.range limit).filter (fun i => before.bit i = false) ⊆
      ((Finset.range limit).filter fun i => after.bit i = false) ∪ (sectors.map Int.toNat).toFinset := by
    intro i member
    obtain ⟨bound, clear⟩ := Finset.mem_filter.mp member
    have less := Finset.mem_range.mp bound
    by_cases still : after.bit i = false
    · exact Finset.mem_union_left _ (Finset.mem_filter.mpr ⟨bound, still⟩)
    · have size := taken.size
      have marked : after.Marked i := ⟨by omega, by omega, by simpa using still⟩
      obtain ⟨-, -, old⟩ | new := (taken.exactly i).mp marked
      · rw [Int.toNat_natCast, clear] at old
        cases old
      · exact Finset.mem_union_right _ (List.mem_toFinset.mpr (List.mem_map.mpr ⟨i, new, Int.toNat_natCast i⟩))
  have counted := (Finset.card_le_card split).trans (Finset.card_union_le _ _)
  have few := (sectors.map Int.toNat).toFinset_card_le
  rw [List.length_map] at few
  unfold BitMap.clearBelow
  omega

namespace Loading

open Effects Machine FileHeader OpenFile FileTests
open Paging (AddrSpace Paged blankTable flatAccesses)

variable {layout : Layout} {disk disk₁ : Disk} {vis vis₁ : Counters} {fs : FileSystem} {executable : OpenFile}
  {e hs : Int} {i n pages : Nat} {name : Name} {data : Memory} {noffH : NoffHeader}

/-- With two entries of the root free, a new file leaves one for `virtual_memory`. -/
theorem roomy_of_piped (piped : Piped disk vis name data n hs i disk₁ vis₁) (sheltered : Sheltered layout disk)
    (small : n ≤ 1024) (many : 9 ≤ pages)
    (slots : ∃ j k, j ≠ k ∧ j < 10 ∧ k < 10 ∧ (tableAt disk 1).inUse j = false ∧ (tableAt disk 1).inUse k = false)
    (room : pages + 2 + (sectorsFor n + 1) ≤ (diskMap disk).clearBelow 128) : Roomy disk₁ pages := by
  obtain ⟨j, k, differ, boundJ, boundK, freeJ, freeK⟩ := slots
  obtain ⟨x, bound, other, free⟩ : ∃ x, x < 10 ∧ x ≠ i ∧ (tableAt disk 1).inUse x = false := by
    by_cases same : j = i
    · exact ⟨k, boundK, fun equal => differ (same.trans equal.symm), freeK⟩
    · exact ⟨j, boundJ, same, freeJ⟩
  have created := piped.created.widen sheltered.bare
  have eight : sectorsFor n ≤ 8 := sectorsFor_le_iff.mpr (by omega)
  refine ⟨Directory.freeSlot_ne_none ⟨x, bound, ?_⟩, ?_, fun few => absurd few (by omega)⟩
  · rw [(created.old_entry sheltered sheltered.root bound (.inr other)).inUse]
    exact free
  · have low := created.taken.le_clearBelow (by decide : 128 ≤ 1024)
    rw [claimed_direct created.headed.sectors eight] at low
    simp only [List.length_cons, length_slots] at low
    omega

/-! ## The program on the disk -/

/-- A program whose segments lie below the sum of their sizes takes nine to forty pages. -/
theorem Placed.pageCount (placed : Placed noffH) :
    noffH.numPages.toNat ≤ 40 ∧ (0 < noffH.total → 9 ≤ noffH.numPages.toNat) := by
  have size : noffH.size.toNat = ((noffH.code.size + noffH.initData.size + noffH.uninitData.size).toNat +
      1024) % 4294967296 := BitVec.toNat_add _ _
  have bound := (noffH.code.size + noffH.initData.size + noffH.uninitData.size).isLt
  have total : noffH.total = _ := BitVec.toInt_eq_toNat_cond _
  have lower := placed.lower
  have upper := placed.upper
  rw [numPages_toNat]
  generalize (noffH.code.size + noffH.initData.size + noffH.uninitData.size).toNat = sum at *
  unfold sectorsFor
  split at total <;> omega

/-- The file that `coff2noff` has written, as the host has it. -/
def hostFile (noff : Coff2noff.File) : HostFile where
  size := noff.size
  bytes k := if k < noff.size then noff.bytes k else 0
  ended _ behind := if_neg (Nat.not_lt.mpr behind)

/-- The constructor finds the converter's header and accepts it. -/
theorem loadable_of_carried {file noff : Coff2noff.File} (carried : Coff2noff.Carried file noff)
    (magic : noff.header.noffMagic = NOFFMAGIC) (small : noff.size ≤ 1024) (placed : Placed noff.header)
    (apart : noff.header.code.Apart noff.header.initData) (sheltered : Sheltered layout disk)
    (mounted : Mounted fs disk) (opened : Opened layout disk executable e noff.size)
    (bytes : ∀ o, o < noff.size → fileByte disk (headerAt disk e) o = noff.bytes o) :
    noffHeader disk e = noff.header ∧ Loadable layout fs executable e noff.size disk := by
  have long : 40 ≤ noff.size := carried.long
  have header : noffHeader disk e = noff.header := ofBytes_congr fun j inside => bytes j (by omega)
  refine ⟨header, sheltered, mounted, opened, long, ?_, ?_, ?_, ?_⟩
  · rw [header]
    exact magic
  · rw [header]
    exact placed.pageCount.1.trans (by decide)
  · rw [header]
    simp only [List.mem_cons, List.not_mem_nil, or_false, forall_eq_or_imp, forall_eq]
    exact ⟨carried.codeStored.fits small, carried.initDataStored.fits small⟩
  · rw [header]
    exact apart

/-- The two segments are in `virtual_memory` as they are in the converter's output. -/
theorem Made.holds {noff : Coff2noff.File} {disk' : Disk} {v : Int} {o : Nat} {segment : Segment}
    (made : Made disk disk' e v noff.header) (small : noff.size ≤ 1024)
    (bytes : ∀ o, o < noff.size → fileByte disk (headerAt disk e) o = noff.bytes o)
    (contained : Contained noff.header noff.header.numPages.toNat)
    (member : segment ∈ [noff.header.code, noff.header.initData])
    (stored : Coff2noff.Stored segment noff.size) (inside : o < segment.size.toNat) :
    fileByte disk' (headerAt disk' v) (segment.virtualAddr.toNat + o) =
      noff.bytes (segment.inFileAddr.toNat + o) := by
  have nonempty : segment.size ≠ 0 := by
    intro zero
    rw [zero] at inside
    exact absurd inside (Nat.not_lt_zero o)
  obtain ⟨-, whole⟩ := stored nonempty
  have size : segment.size.toInt = (segment.size.toNat : Int) := BitVec.toInt_eq_toNat_of_lt (by omega)
  have count : segment.count = segment.size.toNat := by
    unfold Segment.count
    rw [size, Int.toNat_natCast]
  obtain ⟨low, high⟩ := contained.segments segment member (by omega)
  have place := toNat_of_nonneg low
  have bound : segment.virtualAddr.toNat + o < noff.header.space := by
    unfold NoffHeader.space
    omega
  have covers : segment.Covers (segment.virtualAddr.toNat + o) := ⟨Nat.le_add_right .., by omega⟩
  have here : fileByte disk' (headerAt disk' v) (segment.virtualAddr.toNat + o) =
      segment.byte disk e (segment.virtualAddr.toNat + o) := by
    simp only [List.mem_cons, List.not_mem_nil, or_false] at member
    rcases member with rfl | rfl
    · exact made.code _ bound covers
    · exact made.initData _ bound covers
  rw [here, Segment.byte, Nat.add_sub_cancel_left, bytes _ (by omega)]

/-- `Open` gives a handle on the copied file that can be loaded. -/
theorem ensures_Open_of_piped {file noff : Coff2noff.File}
    (piped : Piped disk vis name (hostFile noff).bytes noff.size hs i disk₁ vis₁) (sheltered : Sheltered layout disk)
    (mounted : Mounted fs disk₁) (plain : name.Plain) (carried : Coff2noff.Carried file noff)
    (magic : noff.header.noffMagic = NOFFMAGIC) (small : noff.size ≤ 1024) (placed : Placed noff.header)
    (apart : noff.header.code.Apart noff.header.initData) :
    Ensures (fs.Open name) (fun result disk' _ => ∃ executable,
      result.1 = some executable ∧ noffHeader disk' hs = noff.header ∧
      Loadable (layout.add hs false) result.2 executable hs noff.size disk' ∧
      Quiet (layout.add hs false) disk₁ disk' ∧
      ∀ o, o < noff.size → fileByte disk' (headerAt disk' hs) o = noff.bytes o) (fun _ => False) disk₁ vis₁ := by
  have created := piped.created.widen sheltered.bare
  have sheltered₁ := created.sheltered sheltered
  have sector := (created.new_entry sheltered).2.1
  have eight : sectorsFor noff.size ≤ 8 := sectorsFor_le_iff.mpr (by omega)
  refine sheltered₁.ensures_Open_plain sheltered₁.whole mounted plain (created.entryIndex_new sheltered) ?_
  intro fs' executable disk' quiet mounted' current _
  rw [sector] at current
  have fresh : Opened (layout.add hs false) disk₁ { hdr := headerAt disk₁ hs, seekPosition := 0 } hs noff.size :=
    ⟨.inl rfl, created.headed, Agrees.refl _, .of_direct eight⟩
  have opened := fresh.quiet sheltered₁ quiet current
  have bytes : ∀ o, o < noff.size → fileByte disk' (headerAt disk' hs) o = noff.bytes o := by
    intro o inside
    rw [quiet.byte sheltered₁ fresh.head created.headed (.of_direct eight) inside, piped.bytes o inside]
    exact if_pos inside
  obtain ⟨header, loadable⟩ :=
    loadable_of_carried carried magic small placed apart (quiet.sheltered sheltered₁) mounted' opened bytes
  exact ⟨executable, rfl, header, loadable, quiet, bytes⟩

/-! ## From the compiler's output to the accesses of the program -/

/-- The machine of a program that has just been loaded. -/
def loaded (mainMemory : Memory) (bitmap : Machine.Bitmap) (space : AddrSpace) (disk : Disk) : Paged where
  mainMemory := mainMemory
  bitmap := bitmap
  space := space
  file := backingFile disk

/-- Nothing has been paged in, and `virtual_memory` holds `image`. -/
def Starts (space : AddrSpace) (disk : Disk) (image : Memory) : Prop :=
  (backingFile disk).bytes = image ∧ ∀ mainMemory bitmap, (loaded mainMemory bitmap space disk).Started

/-- The constructor of `AddrSpace` on a file that holds the converter's output. -/
theorem Loadable.ensures_starts {file noff : Coff2noff.File} (loadable : Loadable layout fs executable e noff.size disk)
    (carried : Coff2noff.Carried file noff) (texts : Coff2noff.TextsAgree file)
    (header : noffHeader disk e = noff.header) (small : noff.size ≤ 1024) (placed : Placed noff.header)
    (bytes : ∀ o, o < noff.size → fileByte disk (headerAt disk e) o = noff.bytes o)
    (absent : (tableAt disk 1).entryIndex virtualMemory = none) (roomy : Roomy disk noff.header.numPages.toNat) :
    Ensures (newAddrSpace fs executable) (fun result disk' _ => result.1.numPages = noff.header.numPages ∧
      ∃ image, Coff2noff.SectionsAt file image ∧ Starts result.1 disk' image) (fun _ => False) disk vis := by
  have fits := placed.pageCount.1
  have few : noff.header.numPages.toNat ≤ NumPhysPages := fits.trans (by decide)
  have contained := ((placed_iff few).mp placed).2
  have makes : Ensures (newAddrSpace fs executable) (fun result disk' _ => ∃ v fs',
      result.1 = { pageTable := blankTable, numPages := noff.header.numPages } ∧
      Backing (layout.add v false) fs' disk' v noff.header.space ∧
      Made disk disk' e v noff.header) (fun _ => False) disk vis := by
    rw [← header] at roomy contained fits ⊢
    exact loadable.ensures_made absent roomy contained fits
  refine ensures_post makes ?_
  rintro ⟨space, executable', fs'⟩ disk' vis' ⟨v, fs'', same, backing, made⟩
  dsimp only at same ⊢
  subst same
  refine ⟨rfl, fileByte disk' (headerAt disk' v), carried.sectionsAt texts fun segment member o inside => ?_, ?_⟩
  · refine made.holds small bytes contained member ?_ inside
    simp only [List.mem_cons, List.not_mem_nil, or_false] at member
    rcases member with rfl | rfl
    · exact carried.codeStored
    · exact carried.initDataStored
  · unfold Starts loaded
    rw [backing.file]
    exact ⟨rfl, fun _ _ => ⟨rfl, few, le_rfl⟩⟩

/-- A program that the converter accepts, of at most 1024 bytes, whose segments are placed
apart in the pages that the sum of their sizes takes; a new name for it that is not the
one of the backing file; no backing file yet; and room on the disk for the program and
its pages. -/
structure Installable (system : System) (name : Name) (file : Coff2noff.CoffFile) (noff : Coff2noff.File)
    (garbage : NoffHeader) : Prop where
  converts : Coff2noff.main file.toFile garbage = .ok noff
  texts : Coff2noff.TextsAgree file.toFile
  small : noff.size ≤ 1024
  placed : Placed noff.header
  nonempty : 0 < noff.header.total
  apart : noff.header.code.Apart noff.header.initData
  plain : name.Plain
  extension : (name.drop (name.findIdx (· == dot) + 1)).length ≤ 4
  absent : (tableAt system.disk 1).entryIndex name = none
  unbacked : (tableAt system.disk 1).entryIndex virtualMemory = none
  other : ¬ Name.strncmpEq name.chars virtualMemory.chars FileNameMaxLen = true
  slots : ∃ j k, j ≠ k ∧ j < 10 ∧ k < 10 ∧ (tableAt system.disk 1).inUse j = false ∧
    (tableAt system.disk 1).inUse k = false
  room : noff.header.numPages.toNat + 2 + (sectorsFor noff.size + 1) ≤ (diskMap system.disk).clearBelow 128
  possible : ¬ CreateAborts system.disk name (sectorsFor noff.size)

/-- Such a program is copied, opened and loaded. -/
theorem Installable.loads {trace : List (Call × Reply)} {system : System} {file : Coff2noff.CoffFile}
    {noff : Coff2noff.File} {garbage : NoffHeader} (installable : Installable system name file noff garbage)
    (runs : System.Runs SmallCall trace system) :
    ∃ fs₁ machine₁ executable fs₂ machine₂ space rest machine₃,
      (Copy system.session.fs (some (hostFile noff)) name).run SynchDisk.handle system.machine =
        .done (.copied, fs₁) machine₁ ∧
      (fs₁.Open name).run SynchDisk.handle machine₁ = .done (some executable, fs₂) machine₂ ∧
      (newAddrSpace fs₂ executable).run SynchDisk.handle machine₂ = .done (space, rest) machine₃ ∧
      ValidSector executable.hdr.sectorNumber ∧ machine₃.cache.Coherent machine₃.disk ∧
      Contained noff.header space.numPages.toNat ∧
      ∃ image, Coff2noff.SectionsAt file.toFile image ∧ Starts space machine₃.disk image := by
  obtain ⟨converts, texts, small, placed, nonempty, apart, plain, extension, absent, unbacked, other, slots, room,
    possible⟩ := installable
  obtain ⟨⟨layout, deeds, sturdy⟩, coherent⟩ := sturdy_of_runs runs
  have sheltered := sturdy.sheltered
  have carried := Coff2noff.carried_of_ok converts
  have short : ShortExtension name := by
    unfold ShortExtension SectorSize
    omega
  have fits := placed.pageCount.1
  have contained := ((placed_iff (fits.trans (by decide))).mp placed).2
  obtain ⟨j, k, differ, boundJ, boundK, freeJ, freeK⟩ := slots
  have free : (diskMap system.disk).clearBelow 128 ≤ (diskMap system.disk).freeCount :=
    BitMap.clearBelow_le_freeCount (by decide : 128 ≤ 1024)
  obtain ⟨⟨outcome, fs₁⟩, machine₁, ran₁, ⟨hs, i, copied, mounted₁, piped⟩, coherent₁⟩ :=
    ensures_returns coherent (sturdy.ensures_Copy plain short absent
      (Directory.freeSlot_ne_none ⟨j, boundJ, freeJ⟩) (show (hostFile noff).size ≤ 1024 from small)
      (le_trans (Nat.le_add_left _ _) (room.trans free)) possible)
  dsimp only at copied mounted₁
  subst copied
  have created := piped.created.widen sheltered.bare
  have sheltered₁ := created.sheltered sheltered
  obtain ⟨⟨found, fs₂⟩, machine₂, ran₂, ⟨executable, here, header, loadable, quiet, bytes⟩, coherent₂⟩ :=
    ensures_returns coherent₁ (ensures_Open_of_piped piped sheltered mounted₁ plain carried
      (Coff2noff.magic_of_ok converts) small placed apart)
  dsimp only at here loadable
  subst here
  have unbacked₁ := created.entryIndex_none sheltered unbacked other
  have roomy := roomy_of_piped piped sheltered small (placed.pageCount.2 nonempty)
    ⟨j, k, differ, boundJ, boundK, freeJ, freeK⟩ room
  obtain ⟨⟨space, rest⟩, machine₃, ran₃, ⟨pages, image, holds, starts⟩, coherent₃⟩ :=
    ensures_returns coherent₂ (loadable.ensures_starts carried texts header small placed bytes
      ((Directory.entryIndex_congr (quiet.same_table sheltered₁ sheltered₁.root) _).trans unbacked₁)
      (roomy.quiet sheltered₁ quiet))
  dsimp only at pages starts
  rw [← pages] at contained
  have valid : ValidSector executable.hdr.sectorNumber := by
    rw [loadable.sheltered.number loadable.opened.head loadable.opened.current]
    exact loadable.sheltered.valid_head loadable.opened.head
  exact ⟨fs₁, machine₁, executable, fs₂, machine₂, space, rest, machine₃, ran₁, ran₂, ran₃, valid, coherent₃,
    contained, image, holds, starts⟩

end Loading

end Nachos
