import Nachos.Filesys.Allocation
import Nachos.Filesys.LayoutSteps

/-! What `Create`, `Open` and `Remove` do to a consistent disk. Every step in
between only touches clock texts (`Quiet`) until the tables, headers and the
free map are written back; the final disk is then described by `Created`,
`Removed` or by no change at all. -/
namespace Nachos
open Effects FileHeader

variable {layout scope : Layout} {disk disk' disk'' : Disk} {vis : Counters} {fault : Fault → Prop}
  {fs : FileSystem} {file : OpenFile} {dir : Directory} {h p : Int}

theorem headerAt_congr {s : Int} (same : disk' s = disk s) : headerAt disk' s = headerAt disk s := by
  unfold headerAt
  rw [same]

/-! ## Steps that only touch clock texts -/

/-- Nothing but clock texts changed. -/
abbrev Quiet (layout : Layout) (disk disk' : Disk) : Prop := Frame layout disk disk' fun _ => False

namespace Quiet

theorem sheltered (quiet : Quiet layout disk disk') (before : Sheltered layout disk) :
    Sheltered layout disk' := before.quiet (Frame.mono quiet fun _ impossible => impossible.elim)

theorem consistent (quiet : Quiet layout disk disk') (before : Consistent layout disk) :
    Consistent layout disk' := before.quiet (Frame.mono quiet fun _ impossible => impossible.elim)

/-- Touching fewer headers is touching less. -/
theorem widen (quiet : Quiet scope disk disk') (within : scope.Within layout) :
    Quiet layout disk disk' := Frame.widen quiet within

theorem agrees (quiet : Quiet layout disk disk') (known : layout.Head h) :
    Agrees (headerAt disk' h) (headerAt disk h) := quiet.headers h known id

theorem data (quiet : Quiet layout disk disk') (before : Sheltered layout disk)
    (known : layout.Head h) {part : Part} {s : Int} (owned : HasPart disk h part s)
    (other : part ≠ .header) : disk' s = disk s :=
  quiet.others s (before.not_head known owned other) id

theorem map (quiet : Quiet layout disk disk') (before : Sheltered layout disk) :
    BitMap.Same (diskMap disk') (diskMap disk) :=
  diskMap_same (quiet.others 2 before.two_not_head id)

theorem same_table (quiet : Quiet layout disk disk') (before : Sheltered layout disk)
    (known : h ∈ layout.dirs) : Directory.Same (tableAt disk' h) (tableAt disk h) :=
  Frame.table quiet before known id fun _ _ => id

theorem hasPart_iff (quiet : Quiet layout disk disk') (before : Sheltered layout disk)
    (known : layout.Head h) {part : Part} {s : Int} :
    HasPart disk' h part s ↔ HasPart disk h part s :=
  Frame.hasPart_iff quiet before known id fun _ => id

end Quiet

/-! ## Handles on directories -/

/-- The handle's header copy is the one on disk, up to clock texts. -/
def Current (disk : Disk) (file : OpenFile) (h : Int) : Prop := Agrees file.hdr (headerAt disk h)

theorem Current.quiet (current : Current disk file h) (quiet : Quiet layout disk disk')
    (known : layout.Head h) : Current disk' file h :=
  Agrees.trans current (quiet.agrees known).symm

theorem Sheltered.tableHeader (sheltered : Sheltered layout disk) (known : h ∈ layout.dirs)
    (current : Current disk file h) : Directory.IsTableHeader file.hdr := by
  refine Directory.IsTableHeader.agrees ⟨(sheltered.tables h known).length, ?_, ?_⟩ current
  · intro k bound
    obtain ⟨low, high, -⟩ := sheltered.storage.marked_of_owns (k := (h, .data k))
      ⟨.inr (.inl known), sheltered.table_slot known bound⟩
    exact ⟨low, high⟩
  · rw [(sheltered.tables h known).number]
    exact sheltered.valid_head (.inr (.inl known))

theorem Sheltered.number (sheltered : Sheltered layout disk) (known : layout.Head h)
    (current : Current disk file h) : file.hdr.sectorNumber = h := by
  obtain ⟨len, headed⟩ := sheltered.headed h known
  exact current.sectorNumber.trans headed.number

/-- A read through `file` puts its copy of the header, with a new visit time, on
the disk at `h`, and writes nothing else. -/
structure Visited (disk disk' : Disk) (file file' : OpenFile) (h : Int) : Prop where
  stored : disk' = Function.update disk h file'.hdr.raw
  same : SameBut .visit file'.hdr file.hdr

theorem ensures_fetchTable {post : Directory × OpenFile → Disk → Counters → Prop}
    (sheltered : Sheltered layout disk) (within : scope.Within layout) (known : h ∈ scope.dirs)
    (current : Current disk file h) (size : dir.tableSize = 10)
    (holds : ∀ dir' file' disk', Directory.Same dir' (tableAt disk h) → Current disk' file' h →
      file'.seekPosition = file.seekPosition → Quiet scope disk disk' →
      Visited disk disk' file file' h → post (dir', file') disk' vis) :
    Ensures (dir.FetchFrom file) post fault disk vis := by
  have dirs := within.dirs h known
  have number := sheltered.number (.inr (.inl dirs)) current
  refine Directory.ensures_FetchFrom size (sheltered.tableHeader dirs current) ?_
  intro dir' hdr' same visited
  rw [number]
  refine holds dir' _ _ (same.trans ?_) ?_ rfl
    (Frame.clock (.inr (.inl known)) (visited.agrees.trans current) _) ⟨rfl, visited⟩
  · exact Directory.tableOf_congr (fun k bound => current.dataSectors (by omega)) fun _ _ => rfl
  · unfold Current headerAt
    rw [Function.update_self]
    exact Agrees.refl _

/-- Writing a table back touches nothing outside the directory. What is known
about the directory may come from an earlier disk. -/
theorem ensures_writeTable {post : OpenFile → Disk → Counters → Prop} {before : Disk}
    (sheltered : Sheltered layout before) (known : h ∈ layout.dirs)
    (current : Current before file h) (size : dir.tableSize = 10)
    (holds : ∀ file' disk', Current disk' file' h → Agrees (headerAt disk' h) (headerAt before h) →
      Directory.Same (tableAt disk' h) dir →
      (∀ s, s ≠ h → (∀ k, k < 3 → s ≠ (headerAt before h).dataSectors k) → disk' s = disk s) →
      post file' disk' vis) :
    Ensures (dir.WriteBack file) post fault disk vis := by
  have head : layout.Head h := .inr (.inl known)
  have number := sheltered.number head current
  have slot : ∀ k, k < 3 → file.hdr.dataSectors k = (headerAt before h).dataSectors k :=
    fun k bound => current.dataSectors (by omega)
  refine Directory.ensures_WriteBack size (sheltered.tableHeader known current) ?_ ?_ ?_
  · intro k bound
    rw [slot k bound, number]
    exact ((sheltered.dir_apart known).2.2 k bound).2.2
  · intro k k' bound bound' same
    rw [slot k bound, slot k' bound'] at same
    have owned := sheltered.table_slot known bound'
    rw [← same] at owned
    have equal := sheltered.storage.single (h, .data k) (h, .data k') _
      ⟨head, sheltered.table_slot known bound⟩ ⟨head, owned⟩
    simpa using congrArg Prod.snd equal
  · intro hdr' disk' agrees header same frame
    rw [number] at header frame
    have stored : headerAt disk' h = hdr' := by
      unfold headerAt
      rw [header]
    refine holds _ disk' ?_ ?_ ?_ ?_
    · unfold Current
      rw [stored]
      exact Agrees.refl _
    · rw [stored]
      exact agrees.trans current
    · unfold tableAt
      rw [stored]
      exact same
    · intro s notHeader blocks
      exact frame s notHeader fun k bound => by rw [slot k bound]; exact blocks k bound

/-! ## Preparing a header -/

/-- The text after the first `'.'` fits between `type` and the object's end. -/
def ShortExtension (name : Name) : Prop :=
  44 + (name.drop (name.findIdx (· == dot) + 1)).length < SectorSize

instance (name : Name) : Decidable (ShortExtension name) := inferInstanceAs (Decidable (_ < _))

/-- The fields up to and including the nine slots are the same. -/
def SameFields (hdr hdr' : FileHeader) : Prop := ∀ i, i < 44 → hdr.mem i = hdr'.mem i

theorem SameFields.trans {hdr hdr' hdr'' : FileHeader} (first : SameFields hdr hdr')
    (second : SameFields hdr' hdr'') : SameFields hdr hdr'' := fun i bound =>
  (first i bound).trans (second i bound)

theorem SameFields.field {hdr hdr' : FileHeader} (same : SameFields hdr hdr') {offset : Nat}
    (bound : offset + 4 ≤ 44) : hdr.field offset = hdr'.field offset :=
  congrArg BitVec.toInt (Memory.word_congr fun _ less => same _ (by omega))

theorem SameFields.slot {hdr hdr' : FileHeader} (same : SameFields hdr hdr') {k : Nat}
    (bound : k < 9) : hdr.dataSectors k = hdr'.dataSectors k := same.field (by omega)

theorem setType_ok (hdr : FileHeader) {name : Name} (short : ShortExtension name) :
    ∃ hdr', hdr.setType name = .ok hdr' ∧ SameFields hdr' hdr := by
  have short : 44 + (name.drop (name.findIdx (· == dot) + 1)).length < SectorSize := short
  unfold FileHeader.setType
  dsimp only
  rw [if_pos short]
  exact ⟨_, rfl, fun i bound => mem_splice (by omega) (by omega)⟩

theorem ensures_stamp {hdr : FileHeader} {post : FileHeader → Disk → Counters → Prop} {s : Int}
    (inRange : ValidSector s)
    (holds : ∀ hdr', SameFields hdr' hdr → hdr'.sectorNumber = s → post hdr' disk vis) :
    Ensures (hdr.stamp s) post fault disk vis := by
  obtain ⟨low, high⟩ := inRange
  simp only [NumSectors, SectorsPerTrack, NumTracks] at high
  apply ensures_bind
  apply ensures_SetTime
  intro hdr₁ same₁
  apply ensures_bind
  apply ensures_SetTime
  intro hdr₂ same₂
  apply ensures_bind
  apply ensures_SetTime
  intro hdr₃ same₃
  apply ensures_pure
  apply holds
  · intro i bound
    refine (mem_setField (by omega) (by omega)).trans ?_
    exact ((same₃.agrees.trans same₂.agrees).trans same₁.agrees) i (.inl (by omega))
  · exact field_setField_self (by omega) (by omega) (by omega)

/-- `Allocate` for up to 40 sectors, when it is not left one sector short: it
refuses, fails the `ASSERT` of `myFind`, or takes `sectors`, which are then
exactly what any copy of the header lays claim to besides its own sector. The
data sectors keep what they held. -/
theorem ensures_Allocate {post : Bool × FileHeader × BitMap → Disk → Counters → Prop}
    {hdr : FileHeader} {freeMap : BitMap} {size : Nat}
    (bits : freeMap.numBits = 1024) (fits : sectorsFor size ≤ 40)
    (spare : 9 ≤ sectorsFor size → freeMap.freeCount ≠ sectorsFor size)
    (allowed : sectorsFor size ≤ 8 → (∀ b, ¬ freeMap.FirstRun (sectorsFor size) b) → fault .assertion)
    (short : freeMap.freeCount < sectorsFor size → ∀ hdr', post (false, hdr', freeMap) disk vis)
    (holds : ∀ (hdr' : FileHeader) (after : BitMap) (disk' : Disk) (sectors : List Int),
      hdr'.numBytes = size → hdr'.numSectors = sectorsFor size → freeMap.Takes sectors after →
      (∀ s, s ∉ sectors → disk' s = disk s) →
      (∀ disk'' h, SameFields (headerAt disk'' h) hdr' → (∀ s ∈ sectors, disk'' s = disk' s) →
        (claimed disk'' h).Perm (h :: sectors) ∧
          recorded disk'' (headerAt disk'' h) (sectorsFor size) = sectors) →
      (∀ s ∈ sectors, (9 ≤ sectorsFor size → s ≠ hdr'.dataSectors 8) → disk' s = disk s) →
      (9 ≤ sectorsFor size → freeMap.TakesLeast sectors after) →
      (2 ≤ sectorsFor size → sectorsFor size ≤ 8 → ∃ b, freeMap.FirstRun (sectorsFor size) b ∧
        ∀ k, k < sectorsFor size → hdr'.dataSectors k = ((b + k : Nat) : Int)) →
      post (true, hdr', after) disk' vis) :
    Ensures (hdr.Allocate freeMap size) post fault disk vis := by
  by_cases lacking : freeMap.freeCount < sectorsFor size
  · exact ensures_Allocate_short lacking (short lacking)
  · by_cases small : sectorsFor size ≤ 8
    · refine ensures_Allocate_direct bits small (by omega) (allowed small) ?_
      intro hdr' after bytes sectors taken run
      refine holds hdr' after disk _ bytes sectors taken (fun _ _ => rfl) ?_ (fun _ _ _ => rfl) (by omega)
        fun several _ => run (.inl several)
      intro disk'' h fields _
      rw [claimed_direct ((fields.field (by omega)).trans sectors) small, recorded_direct (by omega),
        slots_congr fun i less => fields.slot (by omega)]
      exact ⟨.refl _, rfl⟩
    · have large : 9 ≤ sectorsFor size := by omega
      have notEqual := spare large
      refine ensures_Allocate_indirect bits large fits (by omega) ?_
      intro hdr' after block bytes sectors taken
      have slot8 : hdr'.dataSectors 8 ∈
          hdr'.slots 0 9 ++ indirectEntries block (sectorsFor size - 8) :=
        List.mem_append_left _ (mem_slots.mpr ⟨8, by omega, rfl⟩)
      refine holds hdr' after _ _ bytes sectors taken.toTakes ?_ ?_
        (fun s _ other => Function.update_of_ne (other large) _ _) (fun _ => taken) (by omega)
      · intro s other
        refine Function.update_of_ne ?_ _ _
        rintro rfl
        exact other slot8
      · intro disk'' h fields same
        have eighth := fields.slot (show 8 < 9 by omega)
        have stored : disk'' ((headerAt disk'' h).dataSectors 8) = block := by
          rw [eighth, same _ slot8, Function.update_self]
        have perm := claimed_indirect ((fields.field (by omega)).trans sectors) large
        have slots : (headerAt disk'' h).slots 0 9 = hdr'.slots 0 9 :=
          slots_congr fun i less => fields.slot (by omega)
        rw [stored, slots] at perm
        rw [recorded_indirect large, stored, slots]
        exact ⟨perm, rfl⟩

/-! ## Creating a file -/

/-- The two handles the file system keeps open are current. -/
structure Mounted (fs : FileSystem) (disk : Disk) : Prop where
  map : Current disk fs.freeMapFile 0
  root : Current disk fs.directoryFile 1

theorem Mounted.quiet (mounted : Mounted fs disk) (sheltered : Sheltered layout disk)
    (quiet : Quiet layout disk disk') : Mounted fs disk' :=
  ⟨mounted.map.quiet quiet (.inl rfl), mounted.root.quiet quiet (.inr (.inl sheltered.root))⟩

theorem ensures_fetchMap {post : BitMap × OpenFile → Disk → Counters → Prop} {bitmap : BitMap}
    (sheltered : Sheltered layout disk) (current : Current disk file 0)
    (bits : bitmap.numBits = 1024)
    (holds : ∀ fetched file' disk', BitMap.Same fetched (diskMap disk) → Current disk' file' 0 →
      (∀ scope, Quiet scope disk disk') → Visited disk disk' file file' 0 →
      post (fetched, file') disk' vis) :
    Ensures (bitmap.FetchFrom file) post fault disk vis := by
  refine BitMap.ensures_FetchFrom bits (sheltered.map.agrees current) ?_
  intro fetched hdr' same visited
  refine holds fetched _ _ same ?_
    (fun scope => Frame.clock (.inl rfl) (visited.agrees.trans current) _) ⟨rfl, visited⟩
  unfold Current headerAt
  rw [Function.update_self]
  exact Agrees.refl _

theorem ensures_writeMap {post : OpenFile → Disk → Counters → Prop} {bitmap : BitMap}
    (map : IsMapHeader (headerAt disk 0)) (current : Current disk file 0)
    (bits : bitmap.numBits = 1024)
    (holds : ∀ file' disk', Current disk' file' 0 → Agrees (headerAt disk' 0) (headerAt disk 0) →
      BitMap.Same (diskMap disk') bitmap → (∀ s, s ≠ 0 → s ≠ 2 → disk' s = disk s) →
      post file' disk' vis) :
    Ensures (bitmap.WriteBack file) post fault disk vis := by
  refine BitMap.ensures_WriteBack bits (map.agrees current) ?_
  intro hdr' disk' agrees header same frame
  have stored : headerAt disk' 0 = hdr' := by
    unfold headerAt
    rw [header]
  refine holds _ disk' ?_ ?_ same frame
  · unfold Current
    rw [stored]
    exact Agrees.refl _
  · rw [stored]
    exact agrees.trans current

/-! ## A new entry -/

/-- Sectors nobody owned were written, and with them the table of `p` and the free map. -/
private structure Inserted (disk disk' : Disk) (p : Int) (fresh : List Int) : Prop where
  free : ∀ s ∈ fresh, ¬ (diskMap disk).Marked s
  map : Agrees (headerAt disk' 0) (headerAt disk 0)
  parent : Agrees (headerAt disk' p) (headerAt disk p)
  others : ∀ s, s ∉ fresh → s ≠ 0 → s ≠ 2 → s ≠ p → (∀ k, k < 3 → s ≠ (headerAt disk p).dataSectors k) →
    disk' s = disk s

private theorem Inserted.edited {fresh : List Int} (inserted : Inserted disk disk' p fresh)
    (known : p ∈ layout.dirs) : Edited layout disk disk' p := by
  have old : ∀ s, (diskMap disk).Marked s → s ∉ fresh := fun s marked new => inserted.free s new marked
  refine ⟨known, fun h head unchanged => ?_, fun s free unchanged => ?_⟩
  · push Not at unchanged
    obtain ⟨notTwo, marked, slots⟩ := unchanged
    by_cases zero : h = 0
    · subst zero
      exact inserted.map
    by_cases own : h = p
    · subst own
      exact inserted.parent
    · rw [headerAt_congr (inserted.others h (old h marked) zero notTwo own slots)]
      exact Agrees.refl _
  · push Not at unchanged
    obtain ⟨notTwo, marked, slots⟩ := unchanged
    exact inserted.others s (old s marked) (fun zero => free (.inl zero)) notTwo
      (fun dir => free (.inr (.inl (dir ▸ known)))) slots

/-- Sectors that are still free were not written. -/
private theorem Inserted.rest {fresh claims : List Int} {after : BitMap} (inserted : Inserted disk disk' p fresh)
    (sheltered : Sheltered layout disk) (known : p ∈ layout.dirs) (taken : (diskMap disk).Takes claims after)
    (claimed : ∀ s ∈ fresh, s ∈ claims) {s : Int} (clear : ¬ after.Marked s) : disk' s = disk s := by
  have head : layout.Head p := .inr (.inl known)
  have old : ∀ t, (diskMap disk).Marked t → s ≠ t := fun t marked same =>
    clear ((taken.exactly s).mpr (.inl (same ▸ marked)))
  refine inserted.others s (fun new => clear ((taken.exactly s).mpr (.inr (claimed s new)))) ?_ ?_ ?_ fun k bound => ?_
  · exact old 0 (sheltered.head_marked (.inl rfl))
  · exact old 2 (sheltered.part_marked (.inl rfl) sheltered.map_data)
  · exact old p (sheltered.head_marked head)
  · exact old _ (sheltered.part_marked head (sheltered.table_slot known bound))

private theorem Headed.of_stored {hdr : FileHeader} {len : Nat} (stored : headerAt disk h = hdr)
    (length : hdr.numBytes = len) (sectors : hdr.numSectors = sectorsFor len) (number : hdr.sectorNumber = h)
    (fits : sectorsFor len ≤ 40) : Headed disk h len := by
  subst stored
  exact ⟨length, sectors, number, fits⟩

theorem Mounted.edited (mounted : Mounted fs disk) {mapFile : OpenFile} (sheltered : Sheltered layout disk)
    (edited : Edited layout disk disk' p) (current : Current disk' mapFile 0) :
    Mounted { fs with freeMapFile := mapFile } disk' :=
  ⟨current, Agrees.trans mounted.root (edited.frame.headers 1 (.inr (.inl sheltered.root))
    (edited.header_unchanged sheltered (.inr (.inl sheltered.root)))).symm⟩

/-- The table of `p` is left alone by later writes to the free map and to other sectors. -/
theorem Sheltered.table_kept {disk₁ disk₂ : Disk} (sheltered : Sheltered layout disk) (known : p ∈ layout.dirs)
    (parent : Agrees (headerAt disk₁ p) (headerAt disk p))
    (later : ∀ s, (diskMap disk).Marked s → s ≠ 0 → s ≠ 2 → disk₂ s = disk₁ s) :
    headerAt disk₂ p = headerAt disk₁ p ∧ Directory.Same (tableAt disk₂ p) (tableAt disk₁ p) := by
  have head : layout.Head p := .inr (.inl known)
  obtain ⟨apartZero, apartTwo, apartSlot⟩ := sheltered.dir_apart known
  have header : headerAt disk₂ p = headerAt disk₁ p :=
    headerAt_congr (later p (sheltered.head_marked head) apartZero apartTwo)
  refine ⟨header, Directory.tableOf_congr (fun k _ => by rw [header]) fun k bound => ?_⟩
  rw [parent.dataSectors (by omega)]
  exact later _ (sheltered.part_marked head (sheltered.table_slot known bound)) (apartSlot k bound).1
    (apartSlot k bound).2.1

/-! ## The table of a new directory -/

/-- A header that was left in a sector describes the directory about to be put
there: it says it lives in sector `hs`, is no longer than a table, and its
first three slots are `b`, `b + 1` and `b + 2`. -/
structure Reusable (hdr : FileHeader) (hs : Int) (b : Nat) : Prop where
  number : hdr.sectorNumber = hs
  low : 0 ≤ hdr.numBytes
  high : hdr.numBytes ≤ 360
  enough : 3 ≤ hdr.numSectors
  whole : hdr.numBytes = 360 → hdr.numSectors = 3
  slots : ∀ k, k < 3 → hdr.dataSectors k = ((b + k : Nat) : Int)

/-- Three sectors in a row apart from a header and the free map. -/
structure TableRun (hs : Int) (b : Nat) : Prop where
  valid : ∀ k, k < 3 → ValidSector ((b + k : Nat) : Int)
  apart : ∀ k, k < 3 → ((b + k : Nat) : Int) ≠ hs ∧ ((b + k : Nat) : Int) ≠ 0 ∧
    ((b + k : Nat) : Int) ≠ 2

/-- So are three free sectors that are taken together with the header's. -/
private theorem TableRun.of_takes {hs : Int} {b : Nat} {sectors : List Int} {after : BitMap}
    (sheltered : Sheltered layout disk) (taken : (diskMap disk).Takes (hs :: sectors) after)
    (run : ∀ k, k < 3 → ((b + k : Nat) : Int) ∈ sectors) : TableRun hs b := by
  have differs : ∀ k, k < 3 → ∀ t, (diskMap disk).Marked t → ((b + k : Nat) : Int) ≠ t :=
    fun k bound t marked same =>
      (taken.fresh _ (List.mem_cons_of_mem _ (run k bound))).2.2 (same ▸ marked)
  refine ⟨fun k bound => ?_, fun k bound => ⟨fun same => ?_, ?_, ?_⟩⟩
  · obtain ⟨low, high, -⟩ := taken.fresh _ (List.mem_cons_of_mem _ (run k bound))
    exact ⟨low, high⟩
  · exact (List.nodup_cons.mp taken.distinct).1 (same ▸ run k bound)
  · exact differs k bound 0 (sheltered.head_marked (.inl rfl))
  · exact differs k bound 2 (sheltered.part_marked (.inl rfl) sheltered.map_data)

/-- Through a reusable header the whole table goes where it belongs. -/
private theorem ensures_writeNewBlocks {post : Int × OpenFile → Disk → Counters → Prop}
    {source : Memory} {hs : Int} {b : Nat} (length : file.hdr.numBytes = 360)
    (number : file.hdr.sectorNumber = hs) (inRange : ValidSector hs) (run : TableRun hs b)
    (slots : ∀ k, k < 3 → file.hdr.dataSectors k = ((b + k : Nat) : Int))
    (holds : ∀ hdr' disk', Agrees hdr' file.hdr → disk' hs = hdr'.raw →
      (∀ o, o < 360 → OpenFile.fileByte disk' hdr' o = source o) →
      (∀ s, s ≠ hs → (∀ k, k < 3 → s ≠ ((b + k : Nat) : Int)) → disk' s = disk s) →
      post ((360 : Nat), { file with hdr := hdr' }) disk' vis) :
    Ensures (file.writeBlocks source (360 : Nat) (0 : Nat)) post fault disk vis := by
  have length' : file.hdr.numBytes = ((360 : Nat) : Int) := length
  have block : ∀ k, k * 128 < 0 + 360 → blockSector disk file.hdr k = ((b + k : Nat) : Int) := by
    intro k high
    rw [blockSector_direct (by omega), slots k (by omega)]
  refine OpenFile.ensures_writeBlocks length' (by omega) (by omega) (by rw [number]; exact inRange)
    ⟨?_, ?_, ?_, by omega⟩ ?_
  · intro k _ high
    refine OpenFile.Located.direct (by omega) ?_
    rw [slots k (by omega)]
    exact run.valid k (by omega)
  · intro k k' _ high _ high' same
    rw [block k high, block k' high'] at same
    omega
  · intro k _ high
    rw [block k high, number]
    exact (run.apart k (by omega)).1
  · intro hdr' disk' wrote
    refine holds hdr' disk' wrote.agrees (by rw [← number]; exact wrote.header) ?_ ?_
    · intro o bound
      have written := wrote.written o (by omega) (by omega)
      rw [block _ (by omega)] at written
      unfold OpenFile.fileByte
      rw [blockSector_direct (by omega), wrote.agrees.dataSectors (by omega), slots _ (by omega)]
      exact written
    · intro s notOwn blocks
      refine wrote.frame s (by rw [number]; exact notOwn) fun k _ high => ?_
      rw [block k high]
      exact blocks k (by omega)

theorem ensures_writeNewTable {post : OpenFile → Disk → Counters → Prop} {hs : Int} {b : Nat}
    (size : dir.tableSize = 10) (reusable : Reusable file.hdr hs b) (inRange : ValidSector hs)
    (run : TableRun hs b) (notMap : hs ≠ 0 ∧ hs ≠ 2) (map : IsMapHeader (headerAt disk 0))
    (holds : ∀ (hdr' : FileHeader) disk', hdr'.numBytes = 360 → hdr'.numSectors = 3 →
      hdr'.sectorNumber = hs → (∀ k, k < 3 → hdr'.dataSectors k = ((b + k : Nat) : Int)) →
      disk' hs = hdr'.raw → Directory.Same (Directory.tableOf disk' hdr') dir →
      Agrees (headerAt disk' 0) (headerAt disk 0) →
      (∀ s, s ≠ hs → s ≠ 0 → s ≠ 2 → (∀ k, k < 3 → s ≠ ((b + k : Nat) : Int)) →
        disk' s = disk s) → post { file with hdr := hdr' } disk' vis) :
    Ensures (dir.WriteBack file) post fault disk vis := by
  obtain ⟨len, length⟩ := Int.eq_ofNat_of_zero_le reusable.low
  have short : len ≤ 360 := by
    have high := reusable.high
    omega
  obtain ⟨old, sectors⟩ := Int.eq_ofNat_of_zero_le (show 0 ≤ file.hdr.numSectors by
    have enough := reusable.enough
    omega)
  have three : 3 ≤ old := by
    have enough := reusable.enough
    omega
  unfold Directory.WriteBack
  rw [size]
  apply ensures_bind
  change Ensures (OpenFile.writeAt (6 + 2) file dir.table ((360 : Nat) : Int) ((0 : Nat) : Int))
    _ _ _ _
  by_cases whole : len = 360
  · subst whole
    unfold OpenFile.writeAt
    simp only [FileLength, length]
    rw [if_neg (by omega), if_neg (by omega), if_neg (by omega)]
    refine ensures_writeNewBlocks length reusable.number inRange run reusable.slots ?_
    intro hdr' disk' agrees header written frame
    apply ensures_pure
    refine holds hdr' disk' (agrees.numBytes.trans length)
      (agrees.numSectors.trans (reusable.whole length))
      (agrees.sectorNumber.trans reusable.number)
      (fun k bound => (agrees.dataSectors (by omega)).trans (reusable.slots k bound)) header
      ⟨rfl, size, written⟩ ?_ fun s notOwn _ _ blocks => frame s notOwn blocks
    rw [headerAt_congr (frame 0 notMap.1.symm fun k bound => (run.apart k bound).2.1.symm)]
    exact Agrees.refl _
  · refine OpenFile.ensures_writeAt_past_end length (by omega) (by omega) (by omega) map
      (by rw [reusable.number]; exact inRange) ?_
    intro fetched fetchedSame
    have total : file.hdr.numBytes + (((0 : Nat) : Int) + (360 : Nat) - len) = (360 : Nat) := by
      rw [length]
      omega
    obtain ⟨hdr₁, after, computed, length₁, sectors₁, taken, rest, -⟩ := extend_ok file.hdr
      fetchedSame.size sectors total (by omega) (.inl (by decide)) (by
        have needed : sectorsFor 360 = 3 := rfl
        omega)
    have fields : ∀ offset, 8 ≤ offset → hdr₁.field offset = file.hdr.field offset := by
      intro offset past
      refine congrArg BitVec.toInt (Memory.word_congr fun k less => rest _ (by omega) ?_)
      have needed : sectorsFor 360 = 3 := rfl
      omega
    have number₁ : hdr₁.sectorNumber = file.hdr.sectorNumber := fields 124 (by omega)
    refine ⟨hdr₁, after, computed, number₁, taken.size.trans fetchedSame.size, ?_⟩
    intro disk₃ _ zeroth _ frame₃
    refine ensures_writeNewBlocks length₁ (number₁.trans reusable.number) inRange run ?_ ?_
    · exact fun k bound => (fields _ (by omega)).trans (reusable.slots k bound)
    intro hdr' disk' agrees header written frame
    apply ensures_pure
    refine holds hdr' disk' (agrees.numBytes.trans length₁) (agrees.numSectors.trans sectors₁)
      (agrees.sectorNumber.trans (number₁.trans reusable.number)) ?_ header ⟨rfl, size, written⟩
      ?_ ?_
    · intro k bound
      exact (agrees.dataSectors (by omega)).trans
        ((fields _ (by omega)).trans (reusable.slots k bound))
    · rw [headerAt_congr (frame 0 notMap.1.symm fun k bound => (run.apart k bound).2.1.symm)]
      exact zeroth
    · intro s notOwn notZero notTwo blocks
      rw [frame s notOwn blocks, frame₃ s (by rw [reusable.number]; exact notOwn) notZero notTwo]

/-- The data sectors of a new file hold what they held. Up to eight of them are the first
run behind the new header; more of them, with the indirect block, are the first sectors
that were free. -/
structure Recycled (disk disk' : Disk) (hs : Int) (len : Nat) : Prop where
  bytes : ∀ k, k < sectorsFor len → disk' (dataSector disk' (headerAt disk' hs) k) =
    disk (dataSector disk' (headerAt disk' hs) k)
  places : ∃ freeMap, (diskMap disk).Takes [hs] freeMap ∧
    (9 ≤ sectorsFor len →
      freeMap.TakesLeast (recorded disk' (headerAt disk' hs) (sectorsFor len)) (diskMap disk')) ∧
    (2 ≤ sectorsFor len → sectorsFor len ≤ 8 → ∃ b, freeMap.FirstRun (sectorsFor len) b ∧
      ∀ k, k < sectorsFor len → (headerAt disk' hs).dataSectors k = ((b + k : Nat) : Int))

section Create

variable {post : Bool × OpenFile × FileSystem → Disk → Counters → Prop} {hdr : FileHeader}
  {freeMap : BitMap} {hs : Int} {base : Directory} {i size : Nat} {name realName : Name}

theorem ensures_createFile (sheltered : Sheltered layout disk) (within : scope.Within layout)
    (mounted : Mounted fs disk) (near : p ∈ scope.dirs) (current : Current disk file p)
    (header : (diskMap disk).Takes [hs] freeMap) (same : Directory.Same base (tableAt disk p))
    (absent : base.entryIndex realName = none) (slot : base.freeSlot = some i)
    (fits : sectorsFor size ≤ 40)
    (spare : 9 ≤ sectorsFor size → freeMap.freeCount ≠ sectorsFor size)
    (short : ShortExtension name)
    (allowed : sectorsFor size ≤ 8 → (∀ b, ¬ freeMap.FirstRun (sectorsFor size) b) → fault .assertion)
    (refused : freeMap.freeCount < sectorsFor size → post (false, file, fs) disk vis)
    (holds : ∀ file' fs' disk', Created scope disk disk' p hs i realName false size →
      Recycled disk disk' hs size → Mounted fs' disk' → Current disk' file' p →
      post (true, file', fs') disk' vis) :
    Ensures (fs.createFile hdr freeMap hs name size (base.entered i realName hs 1) file)
      post fault disk vis := by
  have bits : freeMap.numBits = 1024 := header.size
  obtain ⟨low, high, clear⟩ := header.fresh hs (by simp)
  have inRange : ValidSector hs := ⟨low, high⟩
  have known := within.dirs p near
  have head : layout.Head p := .inr (.inl known)
  obtain ⟨apartZero, apartTwo, apartSlot⟩ := sheltered.dir_apart known
  have markedZero : (diskMap disk).Marked 0 := sheltered.head_marked (.inl rfl)
  have markedTwo : (diskMap disk).Marked 2 := sheltered.part_marked (.inl rfl) sheltered.map_data
  have markedSlot : ∀ k, k < 3 → (diskMap disk).Marked ((headerAt disk p).dataSectors k) :=
    fun k bound => sheltered.part_marked head (sheltered.table_slot known bound)
  unfold FileSystem.createFile
  apply ensures_bind
  refine ensures_Allocate bits fits spare allowed ?_ ?_
  · intro lacking hdr'
    exact ensures_pure (refused lacking)
  intro hdr₁ after diskA sectors bytes₁ count₁ taken kept claims data least run
  dsimp only
  rw [if_neg (by simp)]
  apply ensures_bind
  obtain ⟨hdr₂, computed, fields₂⟩ := setType_ok hdr₁ short
  refine ensures_checked computed ?_
  apply ensures_bind
  refine ensures_stamp inRange ?_
  intro hdr₃ fields₃ number
  have fields := fields₃.trans fields₂
  apply ensures_bind
  refine ensures_WriteBack inRange ?_
  -- only sectors nobody owned have been written so far
  have all := header.append taken
  have unowned : ∀ s, s ∈ hs :: sectors → ¬ (diskMap disk).Marked s := fun s member =>
    (all.fresh s (by simpa using member)).2.2
  have first : ∀ s, (diskMap disk).Marked s →
      Function.update diskA hs hdr₃.raw s = disk s := by
    intro s marked
    have notHeader : s ≠ hs := fun here => unowned s (by simp [here]) marked
    rw [Function.update_of_ne notHeader]
    exact kept s fun member => unowned s (List.mem_cons_of_mem _ member) marked
  generalize diskB_def : Function.update diskA hs hdr₃.raw = diskB at first
  apply ensures_bind
  refine ensures_writeTable sheltered known current same.size ?_
  intro file' diskC currentC parentC tableC frameC
  have zeroC : headerAt diskC 0 = headerAt disk 0 :=
    headerAt_congr ((frameC 0 apartZero.symm fun k bound => (apartSlot k bound).1.symm).trans
      (first 0 markedZero))
  have mapC : Current diskC fs.freeMapFile 0 := by
    unfold Current
    rw [zeroC]
    exact mounted.map
  apply ensures_bind
  refine ensures_writeMap ?_ mapC (taken.size.trans bits) ?_
  · rw [zeroC]
    exact sheltered.map
  intro mapFile diskD currentD zeroD mapD frameD
  apply ensures_pure
  have inserted : Inserted disk diskD p (hs :: sectors) := by
    refine ⟨unowned, zeroC ▸ zeroD, ?_, fun s new notMap notTwo notDir slots => ?_⟩
    · rw [headerAt_congr (frameD p apartZero apartTwo)]
      exact parentC
    · rw [frameD s notMap notTwo, frameC s notDir slots, ← diskB_def,
        Function.update_of_ne fun here => new (by simp [here])]
      exact kept s fun member => new (List.mem_cons_of_mem _ member)
  obtain ⟨parentD, unchanged⟩ := sheltered.table_kept known parentC fun s _ notMap notTwo => frameD s notMap notTwo
  -- nothing after the header and the data touched the new sectors
  have own : ∀ s ∈ hs :: sectors, diskD s = diskB s := by
    intro s member
    have notMarked := unowned s member
    have differs : ∀ t, (diskMap disk).Marked t → s ≠ t := fun t marked same =>
      notMarked (same ▸ marked)
    rw [frameD s (differs 0 markedZero) (differs 2 markedTwo)]
    exact frameC s (differs p (sheltered.head_marked head)) fun k bound =>
      differs _ (markedSlot k bound)
  have stored : headerAt diskD hs = hdr₃ := by
    unfold headerAt
    rw [own hs (by simp), ← diskB_def, Function.update_self]
  obtain ⟨perm, listed⟩ := claims diskD hs (by rw [stored]; exact fields) (by
    intro s member
    have notHeader : s ≠ hs := by
      rintro rfl
      exact (List.nodup_cons.mp (show (s :: sectors).Nodup by simpa using all.distinct)).1 member
    rw [own s (List.mem_cons_of_mem _ member), ← diskB_def, Function.update_of_ne notHeader])
  have entry : Directory.Same (tableAt diskD p) ((tableAt disk p).entered i realName hs 1) :=
    unchanged.trans (tableC.trans (same.entered i realName hs 1))
  have taken' := all.congr (BitMap.Same.refl _) mapD
  have claimedD := taken'.perm perm
  have fresh : ∀ s ∈ claimed diskD hs, s ≠ hs → s ∈ sectors := fun s member other =>
    (List.mem_cons.mp (perm.mem_iff.mp member)).resolve_left other
  have recycled : Recycled disk diskD hs size := by
    refine ⟨fun k bound => ?_, freeMap, header, fun large => ?_, fun several few => ?_⟩
    · have part : HasPart diskD hs (.data k) (dataSector diskD (headerAt diskD hs) k) := by
        refine ⟨?_, rfl⟩
        rw [stored, show hdr₃.numSectors = _ from (fields.field (by omega)).trans count₁]
        exact_mod_cast bound
      have member := mem_claimed.mpr ⟨.data k, part⟩
      generalize dataSector diskD (headerAt diskD hs) k = s at part member ⊢
      have notHeader : s ≠ hs := by
        rintro rfl
        have same := part_unique claimedD.distinct part (show HasPart diskD s .header s from rfl)
        cases same
      rw [own s (List.mem_cons_of_mem _ (fresh s member notHeader)), ← diskB_def,
        Function.update_of_ne notHeader]
      refine data s (fresh s member notHeader) fun large indirect => ?_
      have eighth : HasPart diskD hs .indirect s := by
        refine ⟨?_, ?_⟩
        · rw [stored, show hdr₃.numSectors = _ from (fields.field (by omega)).trans count₁]
          exact_mod_cast large
        · rw [stored, fields.slot (by omega)]
          exact indirect
      have same := part_unique claimedD.distinct part eighth
      cases same
    · rw [listed]
      exact (least large).congr (BitMap.Same.refl _) mapD
    · obtain ⟨b, first, places⟩ := run several few
      refine ⟨b, first, fun k bound => ?_⟩
      rw [stored, fields.slot (by omega)]
      exact places k bound
  have headed : Headed diskD hs size :=
    .of_stored stored ((fields.field (by omega)).trans bytes₁) ((fields.field (by omega)).trans count₁) number fits
  rw [Directory.entryIndex_congr same] at absent
  rw [Directory.freeSlot_congr same] at slot
  have rest : ∀ s, ¬ (diskMap diskD).Marked s → diskD s = disk s := fun s clear' =>
    inserted.rest sheltered known taken' (fun s member => by simpa using member) clear'
  refine holds _ _ _ ⟨inserted.edited near, headed, claimedD, absent, slot, entry, by simp, rest⟩ recycled
    (mounted.edited sheltered (inserted.edited known) currentD) ?_
  unfold Current
  rw [parentD]
  exact currentC

/-- Making a directory, when what its header's sector held before describes it
already. The handle opened too early is counted and discounted under `hs`. -/
theorem ensures_createDirectory (sheltered : Sheltered layout disk) (mounted : Mounted fs disk)
    (known : p ∈ layout.dirs) (current : Current disk file p)
    (header : (diskMap disk).Takes [hs] freeMap) (same : Directory.Same base (tableAt disk p))
    (absent : base.entryIndex realName = none) (slot : base.freeSlot = some i)
    (reusable : ∀ b, freeMap.FirstRun 3 b → Reusable (headerAt disk hs) hs b)
    (allowed : (∀ b, ¬ freeMap.FirstRun 3 b) → fault .assertion)
    (refused : freeMap.freeCount < 3 → post (false, file, fs) disk vis)
    (holds : ∀ file' fs' disk', Created layout disk disk' p hs i realName true 360 →
      Mounted fs' disk' → Current disk' file' p → post (true, file', fs') disk' vis) :
    Ensures (fs.createDirectory hdr freeMap hs p (base.entered i realName hs 0) file)
      post fault disk vis := by
  have bits : freeMap.numBits = 1024 := header.size
  obtain ⟨low, high, clear⟩ := header.fresh hs (by simp)
  have inRange : ValidSector hs := ⟨low, high⟩
  have head : layout.Head p := .inr (.inl known)
  obtain ⟨apartZero, apartTwo, apartSlot⟩ := sheltered.dir_apart known
  have three : sectorsFor 360 = 3 := rfl
  unfold FileSystem.createDirectory
  apply ensures_bind
  change Ensures (hdr.Allocate freeMap ((360 : Nat) : Int)) _ _ _ _
  by_cases lacking : freeMap.freeCount < 3
  · exact ensures_Allocate_short lacking fun hdr' => ensures_pure (refused lacking)
  refine ensures_Allocate_direct bits (by rw [three]; omega) (by rw [three]; omega)
    (fun none => allowed none) ?_
  intro hdr₁ after _ _ taken first
  obtain ⟨b, firstRun, run₁⟩ := first (by rw [three]; omega)
  rw [three] at taken firstRun run₁
  have stale := reusable b firstRun
  have all := header.append taken
  have unowned : ∀ s ∈ hs :: hdr₁.slots 0 3, ¬ (diskMap disk).Marked s := fun s member =>
    (all.fresh s member).2.2
  have listed : ∀ s, s ∈ hdr₁.slots 0 3 ↔ ∃ k, k < 3 ∧ s = ((b + k : Nat) : Int) := fun s => by
    simp only [mem_slots, Nat.zero_add]
    exact ⟨fun ⟨k, bound, here⟩ => ⟨k, bound, here ▸ run₁ k bound⟩,
      fun ⟨k, bound, here⟩ => ⟨k, bound, here ▸ run₁ k bound⟩⟩
  have tableRun : TableRun hs b := .of_takes sheltered all fun k bound => (listed _).mpr ⟨k, bound, rfl⟩
  have header_apart : ∀ t, (diskMap disk).Marked t → hs ≠ t := fun t marked same =>
    unowned hs (by simp) (same ▸ marked)
  have markedZero : (diskMap disk).Marked 0 := sheltered.head_marked (.inl rfl)
  have markedTwo : (diskMap disk).Marked 2 := sheltered.part_marked (.inl rfl) sheltered.map_data
  dsimp only
  rw [if_neg (by simp)]
  apply ensures_bind
  refine ensures_stamp inRange ?_
  intro hdr₂ _ _
  apply ensures_bind
  have staleNumber : FileHeader.sectorNumber ⟨disk hs⟩ = hs := stale.number
  refine OpenFile.ensures_new inRange (by rw [staleNumber]; exact inRange) ?_
  rw [staleNumber]
  apply ensures_bind
  apply ensures_bind
  apply ensures_uninitialized
  intro storage
  apply ensures_pure
  have fresh := Directory.make_fresh storage inRange (sheltered.valid_head head)
  apply ensures_bind
  refine ensures_WriteBack inRange ?_
  have others : ∀ s, s ≠ hs → Function.update disk hs hdr₂.raw s = disk s :=
    fun s other => Function.update_of_ne other _ _
  generalize Function.update disk hs hdr₂.raw = diskB at others
  have first : ∀ s, (diskMap disk).Marked s → diskB s = disk s :=
    fun s marked => others s (header_apart s marked).symm
  apply ensures_bind
  refine ensures_writeTable sheltered known current same.size ?_
  intro file' diskC currentC parentC tableC frameC
  have zeroC : headerAt diskC 0 = headerAt disk 0 :=
    headerAt_congr ((frameC 0 apartZero.symm fun k bound => (apartSlot k bound).1.symm).trans
      (first 0 markedZero))
  apply ensures_bind
  refine ensures_writeNewTable fresh.size stale inRange tableRun
    ⟨header_apart 0 markedZero, header_apart 2 markedTwo⟩
    (by rw [zeroC]; exact sheltered.map) ?_
  intro hdr₃ diskD length₃ sectors₃ number₃ slots₃ storedD tableD zeroD frameD
  have mapD : Current diskD fs.freeMapFile 0 := by
    refine Agrees.trans mounted.map ?_
    rw [← zeroC]
    exact zeroD.symm
  apply ensures_bind
  refine ensures_writeMap ?_ mapD (taken.size.trans bits) ?_
  · exact (zeroC ▸ sheltered.map : IsMapHeader (headerAt diskC 0)).agrees zeroD
  intro mapFile diskE currentE zeroE mapE frameE
  apply ensures_bind
  refine OpenFile.ensures_delete (by rw [number₃]; exact inRange) ?_
  have restored : Function.update (Function.update vis hs (vis hs + 1)) hdr₃.sectorNumber
      (Function.update vis hs (vis hs + 1) hdr₃.sectorNumber - 1) = vis := by
    rw [number₃, Function.update_self, Function.update_idem]
    simp
  rw [restored]
  apply ensures_pure
  -- what was owned before is written only by the free map and the parent's table
  have later : ∀ s, (diskMap disk).Marked s → s ≠ 0 → s ≠ 2 → diskE s = diskC s := fun s marked notMap notTwo =>
    (frameE s notMap notTwo).trans (frameD s (header_apart s marked).symm notMap notTwo fun k bound here =>
      unowned s (List.mem_cons_of_mem _ ((listed s).mpr ⟨k, bound, here⟩)) marked)
  obtain ⟨parentE, unchanged⟩ := sheltered.table_kept known parentC later
  have inserted : Inserted disk diskE p (hs :: hdr₁.slots 0 3) := by
    refine ⟨unowned, zeroC ▸ zeroE.trans zeroD, parentE ▸ parentC, fun s new notMap notTwo notDir slots => ?_⟩
    have notHeader : s ≠ hs := fun here => new (by simp [here])
    rw [frameE s notMap notTwo, frameD s notHeader notMap notTwo fun k bound here =>
      new (List.mem_cons_of_mem _ ((listed s).mpr ⟨k, bound, here⟩)), frameC s notDir slots]
    exact others s notHeader
  have edited := inserted.edited known
  have entry : Directory.Same (tableAt diskE p) ((tableAt disk p).entered i realName hs 0) :=
    unchanged.trans (tableC.trans (same.entered i realName hs 0))
  have storedE : headerAt diskE hs = hdr₃ := by
    unfold headerAt
    rw [frameE hs (header_apart 0 markedZero) (header_apart 2 markedTwo), storedD]
  have newTable : Directory.Same (tableAt diskE hs) (Directory.tableOf diskD hdr₃) := by
    refine Directory.tableOf_congr (fun k _ => by rw [storedE]) fun k bound => ?_
    rw [slots₃ k bound]
    exact frameE _ (tableRun.apart k bound).2.1 (tableRun.apart k bound).2.2
  have headed : Headed diskE hs 360 := .of_stored storedE length₃ sectors₃ number₃ (by decide)
  have claims : claimed diskE hs = hs :: hdr₁.slots 0 3 := by
    have same : hdr₃.slots 0 3 = hdr₁.slots 0 3 := slots_congr fun k bound => by
      rw [Nat.zero_add, slots₃ k bound, run₁ k bound]
    rw [claimed_direct headed.sectors (by decide), storedE, three, same]
  have taken' : (diskMap disk).Takes (claimed diskE hs) (diskMap diskE) := by
    rw [claims]
    exact all.congr (BitMap.Same.refl _) mapE
  rw [Directory.entryIndex_congr same] at absent
  rw [Directory.freeSlot_congr same] at slot
  have rest : ∀ s, ¬ (diskMap diskE).Marked s → diskE s = disk s := fun s clear' =>
    inserted.rest sheltered known taken' (fun s member => claims ▸ member) clear'
  refine holds _ _ _ ⟨edited, headed, taken', absent, slot, entry,
    fun _ => ⟨rfl, fresh.congr (newTable.trans tableD)⟩, rest⟩ (mounted.edited sheltered edited currentE) ?_
  unfold Current
  rw [parentE]
  exact currentC

end Create

/-! ## Looking up the directory of a path -/

/-- Both halves of the path are single names, and the first one, if the root
has it, is a directory. -/
structure SafePath (disk : Disk) (name : Name) : Prop where
  first : (FileSystem.splitPath name).1.Plain
  last : (FileSystem.splitPath name).2.Plain
  directory : ∀ i, (tableAt disk 1).entryIndex (FileSystem.splitPath name).1 = some i →
    (tableAt disk 1).type i = 0

/-- An entry that is not one of the first two is neither `"."` nor `".."`. -/
theorem Sheltered.not_dot (sheltered : Sheltered layout disk) (known : p ∈ layout.dirs) {i : Nat}
    (low : 2 ≤ i) (bound : i < 10) :
    ¬ (tableAt disk p).Matches [dot] i ∧ ¬ (tableAt disk p).Matches [dot, dot] i := by
  obtain ⟨self, dad⟩ := sheltered.self p known
  constructor
  · intro dotted
    have equal := sheltered.names p known i 0 bound (by omega) dotted.1 self.1
      (Name.strncmpEq_trans dotted.2 (Name.strncmpEq_symm self.2))
    omega
  · intro dotted
    have equal := sheltered.names p known i 1 bound (by omega) dotted.1 dad.1
      (Name.strncmpEq_trans dotted.2 (Name.strncmpEq_symm dad.2))
    omega

/-- An entry in use past the first two names a file or a directory. -/
theorem Sheltered.child (sheltered : Sheltered layout disk) (known : p ∈ layout.dirs) {i : Nat}
    (low : 2 ≤ i) (bound : i < 10) (used : (tableAt disk p).inUse i = true) :
    Child disk (p, true) i
      ((tableAt disk p).sector i, decide ((tableAt disk p).type i = 0)) ∧
    layout.Node ((tableAt disk p).sector i, decide ((tableAt disk p).type i = 0)) := by
  obtain ⟨notSelf, notDad⟩ := sheltered.not_dot known low bound
  have link : Child disk (p, true) i
      ((tableAt disk p).sector i, decide ((tableAt disk p).type i = 0)) :=
    ⟨rfl, bound, used, notSelf, notDad, rfl, rfl⟩
  exact ⟨link, (sheltered.tree.closed (p, true) i _ known link).1⟩

/-- `".."` of a directory names a directory. -/
theorem Sheltered.parent_dir (sheltered : Sheltered layout disk) (known : p ∈ layout.dirs) :
    (tableAt disk p).sector 1 ∈ layout.dirs := by
  by_cases top : p = 1
  · subst top
    rw [sheltered.rootSelf.2.1]
    exact sheltered.root
  · obtain ⟨⟨q, flag⟩, i, node, link⟩ := sheltered.tree.named (p, true) known
      fun same => top (congrArg Prod.fst same)
    have isDir : flag = true := link.1
    subst isDir
    rw [sheltered.dads q node i p link]
    exact node

/-- Whatever an entry in use names has a header of its own. -/
theorem Sheltered.entry_head (sheltered : Sheltered layout disk) (known : p ∈ layout.dirs)
    {i : Nat} (bound : i < 10) (used : (tableAt disk p).inUse i = true) :
    layout.Head ((tableAt disk p).sector i) := by
  by_cases low : 2 ≤ i
  · exact Layout.head_of_node (sheltered.child known low bound used).2
  · have small : i = 0 ∨ i = 1 := by omega
    rcases small with rfl | rfl
    · rw [sheltered.dots p known]
      exact .inr (.inl known)
    · exact .inr (.inl (sheltered.parent_dir known))

theorem Sheltered.root_entry (sheltered : Sheltered layout disk) {name : Name} {i : Nat}
    (found : (tableAt disk 1).entryIndex name = some i) :
    layout.Head ((tableAt disk 1).sector i) ∧
      ((tableAt disk 1).type i = 0 → (tableAt disk 1).sector i ∈ layout.dirs) := by
  obtain ⟨bound, used, -⟩ := Directory.entryIndex_some found
  obtain ⟨selfSector, dadSector, -, -⟩ := sheltered.rootSelf
  by_cases low : 2 ≤ i
  · have node := (sheltered.child sheltered.root low bound used).2
    refine ⟨Layout.head_of_node node, fun kind => ?_⟩
    rw [decide_eq_true kind] at node
    exact node
  · have small : i = 0 ∨ i = 1 := by omega
    have sector : (tableAt disk 1).sector i = 1 := by
      rcases small with rfl | rfl
      · exact selfSector
      · exact dadSector
    rw [sector]
    exact ⟨.inr (.inl sheltered.root), fun _ => sheltered.root⟩

/-- In any directory the sector of an entry is one the disk has. -/
theorem ensures_new_head {post : OpenFile → Disk → Counters → Prop}
    (sheltered : Sheltered layout disk) (known : layout.Head h)
    (holds : ∀ file, file.hdr = headerAt disk h → Current disk file h → file.seekPosition = 0 →
      post file disk (Function.update vis h (vis h + 1))) :
    Ensures (OpenFile.new h) post fault disk vis := by
  obtain ⟨len, headed⟩ := sheltered.headed h known
  have number : FileHeader.sectorNumber ⟨disk h⟩ = h := headed.number
  have valid := sheltered.valid_head known
  refine OpenFile.ensures_new valid (by rw [number]; exact valid) ?_
  rw [number]
  exact holds _ rfl (Agrees.refl _) rfl

/-- The headers of `scope` are all that looking up this path may touch. -/
structure Reach (scope layout : Layout) (disk : Disk) (name : Name) : Prop where
  within : scope.Within layout
  parent : (tableAt disk 1).lookup (FileSystem.splitPath name).1 ∈ layout.dirs →
    (tableAt disk 1).lookup (FileSystem.splitPath name).1 ∈ scope.dirs

theorem Sheltered.reach (sheltered : Sheltered layout disk) {name : Name} :
    Reach layout layout disk name := ⟨sheltered.whole, id⟩

/-- Looking up directory `p` puts the kernel's copy of the root's header on the
disk and then the header of `p` read afresh, each with a new visit time. -/
def Looked (fs fs' : FileSystem) (disk disk' : Disk) (p : Int) : Prop :=
  fs'.freeMapFile = fs.freeMapFile ∧ ∃ disk₁ opened file, opened.hdr = headerAt disk₁ p ∧
    Visited disk disk₁ fs.directoryFile fs'.directoryFile 1 ∧ Visited disk₁ disk' opened file p

/-- The part `Create` and `Open` share: the root's table is fetched, the
directory part is looked up there, and the directory's own table is fetched
through a new handle. -/
theorem ensures_openDirectory {A : Type} {post : A → Disk → Counters → Prop} {name : Name}
    (next : FileSystem → Int → Directory → OpenFile → Kernel A)
    (sheltered : Sheltered layout disk) (reach : Reach scope layout disk name)
    (mounted : Mounted fs disk) (safe : SafePath disk name)
    (allowed : (tableAt disk 1).entryIndex (FileSystem.splitPath name).1 = none → fault .assertion)
    (holds : ∀ fs' p dir file disk', p = (tableAt disk 1).lookup (FileSystem.splitPath name).1 →
      p ∈ scope.dirs → Quiet scope disk disk' → Mounted fs' disk' → Looked fs fs' disk disk' p →
      Directory.Same dir (tableAt disk' p) → Current disk' file p →
      Ensures (next fs' p dir file) post fault disk' (Function.update vis p (vis p + 1))) :
    Ensures (do
      let directory ← Directory.new NumDirEntries
      let (directory, directoryFile) ← directory.FetchFrom fs.directoryFile
      let fs := { fs with directoryFile := directoryFile }
      let dirSector ← directory.Find (FileSystem.splitPath name).1
      let dirFile ← OpenFile.new dirSector
      let dir ← Directory.new NumDirEntries
      let (dir, dirFile) ← dir.FetchFrom dirFile
      next fs dirSector dir dirFile) post fault disk vis := by
  apply ensures_bind
  apply ensures_bind
  apply ensures_uninitialized
  intro storage
  apply ensures_pure
  apply ensures_bind
  have within := reach.within
  have rootValid : ValidSector rootSector := by decide
  refine ensures_fetchTable sheltered within within.top mounted.root
    (Directory.make_fresh storage rootValid rootValid).size ?_
  intro root rootFile disk₁ sameRoot currentRoot _ quiet₁ visited₁
  have sheltered₁ := (quiet₁.widen within).sheltered sheltered
  apply ensures_bind
  refine Directory.ensures_Find safe.first ?_
  rw [Directory.lookup_congr sameRoot]
  apply ensures_bind
  cases found : (tableAt disk 1).entryIndex (FileSystem.splitPath name).1 with
  | none =>
    have missing : (tableAt disk 1).lookup (FileSystem.splitPath name).1 = -1 := by
      unfold Directory.lookup
      rw [found]
    rw [missing]
    apply ensures_bind
    apply ensures_bind
    exact ensures_ReadSector_or_assert (allowed found) fun valid => absurd valid (by decide)
  | some i =>
    have sector : (tableAt disk 1).lookup (FileSystem.splitPath name).1 = (tableAt disk 1).sector i := by
      unfold Directory.lookup
      rw [found]
    have known := (sheltered.root_entry found).2 (safe.directory i found)
    rw [← sector] at known
    have near := reach.parent known
    refine ensures_new_head sheltered₁ (.inr (.inl known)) ?_
    intro file fresh current _
    apply ensures_bind
    apply ensures_bind
    apply ensures_uninitialized
    intro storage'
    apply ensures_pure
    apply ensures_bind
    refine ensures_fetchTable sheltered₁ within near current
      (Directory.make_fresh storage' rootValid rootValid).size ?_
    intro dir file' disk₂ same current₂ _ quiet₂ visited₂
    have quiet : Quiet scope disk disk₂ := Frame.trans quiet₁ quiet₂
    refine holds _ _ dir file' disk₂ rfl near quiet ⟨?_, ?_⟩
      ⟨rfl, disk₁, file, file', fresh, visited₁, visited₂⟩ ?_ current₂
    · exact mounted.map.quiet quiet (.inl rfl)
    · exact currentRoot.quiet quiet₂ (.inr (.inl within.top))
    · exact same.trans ((quiet₂.widen within).same_table sheltered₁ known).symm

/-! ## Create -/

theorem Quiet.edited (quiet : Quiet scope disk disk') (sheltered : Sheltered layout disk)
    (within : scope.Within layout) (edited : Edited scope disk' disk'' p) :
    Edited scope disk disk'' p := by
  have marks := ((quiet.widen within).map sheltered).marks
  have slots : ∀ k, k < 3 → (headerAt disk' p).dataSectors k = (headerAt disk p).dataSectors k :=
    fun k bound => (quiet.agrees (.inr (.inl edited.parent))).dataSectors (by omega)
  refine ⟨edited.parent, Frame.trans (Frame.mono quiet fun _ impossible => impossible.elim)
    (Frame.mono edited.frame ?_)⟩
  rintro s (two | free | ⟨k, bound, here⟩)
  · exact .inl two
  · exact .inr (.inl fun marked => free ((marks s).mpr marked))
  · exact .inr (.inr ⟨k, bound, by rw [← slots k bound]; exact here⟩)

theorem Quiet.created (quiet : Quiet scope disk disk') (sheltered : Sheltered layout disk)
    (within : scope.Within layout) {hs : Int} {i len : Nat} {name : Name} {isDir : Bool}
    (created : Created scope disk' disk'' p hs i name isDir len) :
    Created scope disk disk'' p hs i name isDir len := by
  have wide : Quiet layout disk disk' := quiet.widen within
  have same := wide.same_table sheltered (within.dirs p created.parent)
  refine ⟨quiet.edited sheltered within created.toEdited, created.headed,
    created.taken.congr (wide.map sheltered).symm (BitMap.Same.refl _), ?_, ?_,
    created.entry.trans (same.entered _ _ _ _), created.table, fun s clear => ?_⟩
  · rw [← Directory.entryIndex_congr same]
    exact created.absent
  · rw [← Directory.freeSlot_congr same]
    exact created.slot
  · refine (created.rest s clear).trans (quiet.others s (fun head => clear ?_) id)
    exact (created.taken.exactly s).mpr (.inl (((wide.map sheltered).marks s).mpr
      (sheltered.head_marked (within.head head))))

theorem Quiet.recycled (quiet : Quiet scope disk disk') (sheltered : Sheltered layout disk)
    (within : scope.Within layout) {hs : Int} {i len : Nat} {name : Name} {isDir : Bool}
    (created : Created scope disk' disk'' p hs i name isDir len) (recycled : Recycled disk' disk'' hs len) :
    Recycled disk disk'' hs len := by
  refine ⟨fun k bound => ?_, ?_⟩
  · have part : HasPart disk'' hs (.data k) (dataSector disk'' (headerAt disk'' hs) k) := by
      refine ⟨?_, rfl⟩
      rw [created.headed.sectors]
      exact_mod_cast bound
    have clear := (created.taken.fresh _ (mem_claimed.mpr ⟨.data k, part⟩)).2.2
    refine (recycled.bytes k bound).trans (quiet.others _ (fun head => clear ?_) id)
    exact (((quiet.widen within).map sheltered).marks _).mpr (sheltered.head_marked (within.head head))
  · obtain ⟨freeMap, header, rest⟩ := recycled.places
    exact ⟨freeMap, header.congr ((quiet.widen within).map sheltered).symm (BitMap.Same.refl _), rest⟩

theorem Quiet.removed (quiet : Quiet scope disk disk') (sheltered : Sheltered layout disk)
    (within : scope.Within layout) {e : Int} {i : Nat} {isDir : Bool} (known : layout.Head e)
    (removed : Removed scope disk' disk'' p e i isDir) :
    Removed scope disk disk'' p e i isDir := by
  have wide : Quiet layout disk disk' := quiet.widen within
  have parent := within.dirs p removed.parent
  have same := wide.same_table sheltered parent
  have parts : ∀ s, s ∈ claimed disk e ↔ s ∈ claimed disk' e := fun s => by
    simp only [mem_claimed, wide.hasPart_iff sheltered known]
  have link : Child disk (p, true) i (e, isDir) :=
    (child_same same).mp removed.link
  refine ⟨quiet.edited sheltered within removed.toEdited, link,
    (removed.released.congr (wide.map sheltered).symm (BitMap.Same.refl _)).of_mem parts,
    removed.entry.trans (same.setInUse _ _), fun flag j c below => ?_⟩
  have node := (sheltered.tree.closed (p, true) i (e, isDir) parent link).1
  rw [flag] at node
  have below' : Child disk' (e, true) j c :=
    (child_same (wide.same_table sheltered node)).mpr below
  exact removed.bare flag j c below'

section Create

variable {post : Bool × FileSystem → Disk → Counters → Prop} {name : Name} {size : Int}

/-- Why `Create` refuses a name in directory `p` before it looks at the size:
the name or the table's last slot is taken, or no sector is free. -/
def NoEntry (disk : Disk) (p : Int) (name : Name) : Prop :=
  (tableAt disk p).entryIndex name ≠ none ∨ (tableAt disk p).freeSlot = none ∨
    ∀ s, ValidSector s → (diskMap disk).Marked s

/-- What `Create` has written before it makes anything: directory `p` was looked
up, and for a new name the free map was read. -/
def Consulted (fs : FileSystem) (disk disk' : Disk) (p : Int) (name : Name) : Prop :=
  ∃ fs₁ disk₁, Looked fs fs₁ disk disk₁ p ∧
    (((tableAt disk p).entryIndex name ≠ none ∧ disk' = disk₁) ∨
      ((tableAt disk p).entryIndex name = none ∧
        ∃ mapFile, Visited disk₁ disk' fs₁.freeMapFile mapFile 0))

/-- What `Create` does in the directory it has opened. -/
def FileSystem.createIn (name : Name) (size : Int) (fs : FileSystem) (dirSector : Int) (dir : Directory)
    (dirFile : OpenFile) : Kernel (Bool × FileSystem) := do
  let present ← dir.Find (splitPath name).2
  let (success, dirFile, fs) ← createIfAbsent fs present name (splitPath name).2 size dirSector dir dirFile
  dirFile.delete
  return (success, fs)

/-- `Create` up to the point where the kind of the new entry matters. Where
success says nothing the second half may do anything. -/
theorem ensures_Create (sheltered : Sheltered layout disk) (reach : Reach scope layout disk name)
    (mounted : Mounted fs disk) (safe : SafePath disk name)
    (allowed : (tableAt disk 1).entryIndex (FileSystem.splitPath name).1 = none → fault .assertion)
    (refused : ∀ fs' disk' p, p = (tableAt disk 1).lookup (FileSystem.splitPath name).1 →
      NoEntry disk p (FileSystem.splitPath name).2 → Quiet scope disk disk' → Mounted fs' disk' →
      Consulted fs disk disk' p (FileSystem.splitPath name).2 → post (false, fs') disk' vis)
    (create : ∀ fs' file disk' base hs freeMap i p hdr,
      p = (tableAt disk 1).lookup (FileSystem.splitPath name).1 → p ∈ scope.dirs →
      Quiet scope disk disk' → Mounted fs' disk' →
      Consulted fs disk disk' p (FileSystem.splitPath name).2 → Current disk' file p →
      Directory.Same base (tableAt disk' p) → (diskMap disk').Takes [hs] freeMap →
      (∀ t, 0 ≤ t → t < hs → (diskMap disk').Marked t) →
      base.entryIndex (FileSystem.splitPath name).2 = none → base.freeSlot = some i →
      Ensures (if size = -1 then
          fs'.createDirectory hdr freeMap hs p
            (base.entered i (FileSystem.splitPath name).2 hs (if size = -1 then 0 else 1)) file
        else fs'.createFile hdr freeMap hs name size
          (base.entered i (FileSystem.splitPath name).2 hs (if size = -1 then 0 else 1)) file)
        (fun result disk'' vis'' => (vis'' = Function.update vis p (vis p + 1) ∧
          result.2.1.hdr.sectorNumber = p ∧ post (result.1, result.2.2) disk'' vis) ∨
          (result.1 = true ∧ (∀ fs' disk vis, post (true, fs') disk vis) ∧ ∀ reason, fault reason))
        fault disk' (Function.update vis p (vis p + 1))) :
    Ensures (fs.Create name size) post fault disk vis := by
  unfold FileSystem.Create
  refine ensures_openDirectory (FileSystem.createIn name size) sheltered reach mounted safe allowed ?_
  intro fs₁ p dir file disk₁ lookup near quiet₁ mounted₁ looked same current
  have within := reach.within
  have known := within.dirs p near
  have wide₁ : Quiet layout disk disk₁ := quiet₁.widen within
  have sheltered₁ := wide₁.sheltered sheltered
  have head : layout.Head p := .inr (.inl known)
  have number := sheltered₁.number head current
  have valid := sheltered.valid_head head
  have original : Directory.Same dir (tableAt disk p) :=
    same.trans (wide₁.same_table sheltered known)
  unfold FileSystem.createIn
  apply ensures_bind
  refine Directory.ensures_Find safe.last ?_
  apply ensures_bind
  -- the handle on the directory is closed again whatever happened in between
  have finish : ∀ (result : Bool × OpenFile × FileSystem) disk' vis',
      (vis' = Function.update vis p (vis p + 1) ∧ result.2.1.hdr.sectorNumber = p ∧
        post (result.1, result.2.2) disk' vis) ∨
        (result.1 = true ∧ (∀ fs' disk vis, post (true, fs') disk vis) ∧ ∀ reason, fault reason) →
      Ensures (do
        result.2.1.delete
        return (result.1, result.2.2)) post fault disk' vis' := by
    rintro ⟨success, file', fs'⟩ disk' vis' (⟨rfl, own, holds⟩ | ⟨success, holds, stops⟩)
    rotate_left
    · apply ensures_bind
      refine ensures_any stops fun _ _ _ => ensures_pure ?_
      dsimp only at success ⊢
      rw [success]
      exact holds _ _ _
    apply ensures_bind
    dsimp only at own
    refine OpenFile.ensures_delete (by rw [own]; exact valid) ?_
    apply ensures_pure
    rw [own, Function.update_self, Function.update_idem]
    simpa using holds
  refine ensures_post ?_ finish
  unfold FileSystem.createIfAbsent
  cases found : dir.entryIndex (FileSystem.splitPath name).2 with
  | some i =>
    obtain ⟨bound, used, -⟩ := Directory.entryIndex_some found
    rw [same.size] at bound
    rw [(same.entry bound).inUse] at used
    have inRange := sheltered₁.valid_head (sheltered₁.entry_head known bound used)
    have present : dir.lookup (FileSystem.splitPath name).2 ≠ -1 := by
      unfold Directory.lookup
      rw [found]
      dsimp only
      rw [(same.entry bound).sector]
      have low := inRange.1
      omega
    rw [if_pos present]
    have taken : (tableAt disk p).entryIndex (FileSystem.splitPath name).2 ≠ none := by
      rw [← Directory.entryIndex_congr original, found]
      simp
    exact ensures_pure (.inl ⟨rfl, number, refused fs₁ disk₁ p lookup (.inl taken) quiet₁ mounted₁
      ⟨fs₁, disk₁, looked, .inl ⟨taken, rfl⟩⟩⟩)
  | none =>
    have missing : dir.lookup (FileSystem.splitPath name).2 = -1 := by
      unfold Directory.lookup
      rw [found]
    rw [missing, if_neg (by omega)]
    unfold FileSystem.createEntry
    apply ensures_bind
    apply BitMap.ensures_create
    intro blank blankBits _
    apply ensures_bind
    refine ensures_fetchMap sheltered₁ mounted₁.map (by rw [blankBits]; rfl) ?_
    intro fetched mapFile disk₂ fetchedSame mapCurrent fetches visited
    have consulted : Consulted fs disk disk₂ p (FileSystem.splitPath name).2 := by
      refine ⟨fs₁, disk₁, looked, .inr ⟨?_, mapFile, visited⟩⟩
      rw [← Directory.entryIndex_congr original, found]
    have quiet : Quiet scope disk disk₂ := Frame.trans quiet₁ (fetches scope)
    have quiet₂ := fetches layout
    have mounted₂ : Mounted { fs₁ with freeMapFile := mapFile } disk₂ :=
      ⟨mapCurrent, mounted₁.root.quiet quiet₂ (.inr (.inl sheltered.root))⟩
    have same₂ : Directory.Same dir (tableAt disk₂ p) :=
      same.trans (quiet₂.same_table sheltered₁ known).symm
    have map₂ : BitMap.Same (diskMap disk₂) fetched :=
      (quiet₂.map sheltered₁).trans fetchedSame.symm
    apply ensures_bind
    rcases BitMap.find_cases fetched with ⟨hs, after, computed, taken, least⟩ | ⟨computed, all⟩
    · refine ensures_checked computed ?_
      obtain ⟨low, -, -⟩ := taken.fresh hs (by simp)
      dsimp only
      rw [if_neg (by omega)]
      apply ensures_bind
      refine Directory.ensures_Add safe.last ?_ ?_
      · intro full
        rw [Directory.entryIndex_congr original, Directory.freeSlot_congr original] at full
        refine ensures_pure (.inl ⟨rfl, number, refused _ disk₂ p lookup ?_ quiet mounted₂ consulted⟩)
        exact full.imp id .inl
      · intro i _ slot
        dsimp only
        rw [if_neg (by simp)]
        apply ensures_bind
        apply ensures_bind
        apply ensures_uninitialized
        intro storage
        apply ensures_pure
        refine create _ file disk₂ dir hs after i p _ lookup near quiet mounted₂ consulted
          (current.quiet quiet₂ head) same₂ (taken.congr map₂ (BitMap.Same.refl _)) ?_ found slot
        intro t lower upper
        exact (map₂.marks t).mpr (least t lower upper)
    · refine ensures_checked computed ?_
      dsimp only
      rw [if_pos rfl]
      refine ensures_pure (.inl ⟨rfl, number, refused _ disk₂ p lookup ?_ quiet mounted₂ consulted⟩)
      refine .inr (.inr fun s valid => ?_)
      have marked := all s valid.1 (by rw [fetchedSame.size]; exact valid.2)
      exact ((wide₁.map sheltered).marks s).mp ((fetchedSame.marks s).mp marked)

/-- The two ways `Create` can fail an `ASSERT`: the directory part names nothing,
or no run of `count` sectors is free behind the new header. -/
def CreateAborts (disk : Disk) (name : Name) (count : Nat) : Prop :=
  (tableAt disk 1).entryIndex (FileSystem.splitPath name).1 = none ∨
    ∃ hs freeMap, (diskMap disk).Takes [hs] freeMap ∧ ∀ b, ¬ freeMap.FirstRun count b

/-- Why `Create` returns `FALSE`: there is no entry for the name, or fewer than
`count` sectors are free behind the new header. -/
def CreateRefuses (disk : Disk) (name : Name) (count : Nat) : Prop :=
  NoEntry disk ((tableAt disk 1).lookup (FileSystem.splitPath name).1) (FileSystem.splitPath name).2 ∨
    (diskMap disk).freeCount < count + 1

/-- The sector `Create` puts a new header in: the first free one. -/
def FirstFree (disk : Disk) (hs : Int) : Prop :=
  (ValidSector hs ∧ ¬ (diskMap disk).Marked hs) ∧ ∀ t, 0 ≤ t → t < hs → (diskMap disk).Marked t

theorem FirstFree.unique {hs hs' : Int} (first : FirstFree disk hs) (second : FirstFree disk hs') :
    hs = hs' := by
  rcases Int.lt_trichotomy hs hs' with less | same | more
  · exact absurd (second.2 hs first.1.1.1 less) first.1.2
  · exact same
  · exact absurd (first.2 hs' second.1.1.1 more) second.1.2

theorem firstFree_of_takes {hs : Int} {freeMap : BitMap}
    (taken : (diskMap disk).Takes [hs] freeMap)
    (least : ∀ t, 0 ≤ t → t < hs → (diskMap disk).Marked t) : FirstFree disk hs := by
  obtain ⟨low, high, clear⟩ := taken.fresh hs (by simp)
  exact ⟨⟨⟨low, high⟩, clear⟩, least⟩

theorem FirstFree.quiet {hs : Int} (first : FirstFree disk' hs) (quiet : Quiet layout disk disk')
    (sheltered : Sheltered layout disk) : FirstFree disk hs := by
  have marks := (quiet.map sheltered).marks
  exact ⟨⟨first.1.1, fun marked => first.1.2 ((marks hs).mpr marked)⟩,
    fun t lower upper => (marks t).mp (first.2 t lower upper)⟩

/-- `Create` of a file of up to 40 sectors that is not left exactly one sector
short of its indirect block. -/
theorem ensures_Create_file {size : Nat} (sheltered : Sheltered layout disk)
    (reach : Reach scope layout disk name) (mounted : Mounted fs disk) (safe : SafePath disk name)
    (short : ShortExtension name)
    (fits : sectorsFor size ≤ 40)
    (spare : 9 ≤ sectorsFor size → (diskMap disk).freeCount ≠ sectorsFor size + 1)
    (allowed : (tableAt disk 1).entryIndex (FileSystem.splitPath name).1 = none ∨ sectorsFor size ≤ 8 →
      CreateAborts disk name (sectorsFor size) → fault .assertion)
    (refused : ∀ fs' disk', CreateRefuses disk name (sectorsFor size) → Quiet scope disk disk' →
      Mounted fs' disk' → post (false, fs') disk' vis)
    (made : ∀ fs' disk' p hs i, p = (tableAt disk 1).lookup (FileSystem.splitPath name).1 →
      FirstFree disk hs →
      Created scope disk disk' p hs i (FileSystem.splitPath name).2 false size →
      Recycled disk disk' hs size → Mounted fs' disk' → post (true, fs') disk' vis) :
    Ensures (fs.Create name size) post fault disk vis := by
  refine ensures_Create sheltered reach mounted safe (fun missing => allowed (.inl missing) (.inl missing))
    (fun fs' disk' _ lookup reason quiet mounted' _ =>
      refused fs' disk' (.inl (lookup ▸ reason)) quiet mounted') ?_
  intro fs' file disk' base hs freeMap i p hdr lookup near quiet mounted' _ current same taken least
    absent slot
  have within := reach.within
  have known := within.dirs p near
  have wide : Quiet layout disk disk' := quiet.widen within
  have sheltered' := wide.sheltered sheltered
  have number : ∀ file disk'', Created scope disk' disk'' p hs i (FileSystem.splitPath name).2
      false size → Current disk'' file p → file.hdr.sectorNumber = p := fun file disk'' created current =>
    ((created.widen within).sheltered sheltered').number
      (Layout.head_add.mpr (.inl (.inr (.inl known)))) current
  have count := BitMap.freeCount_takes taken
  have before := (wide.map sheltered).freeCount
  simp only [List.length_cons, List.length_nil] at count
  rw [if_neg (by omega), if_neg (by omega)]
  refine ensures_createFile sheltered' within mounted' near current taken same absent slot fits ?_
    short (fun few none => allowed (.inr few) (.inr ⟨hs, freeMap, taken.congr (wide.map sheltered).symm
      (BitMap.Same.refl _), none⟩)) ?_ ?_
  · intro large
    have notExact := spare large
    omega
  · intro lacking
    exact .inl ⟨rfl, sheltered'.number (.inr (.inl known)) current,
      refused fs' disk' (.inr (by omega)) quiet mounted'⟩
  · intro file' fs'' disk'' created recycled mounted'' current''
    exact .inl ⟨rfl, number file' disk'' created current'', made fs'' disk'' p hs i lookup
      ((firstFree_of_takes taken least).quiet wide sheltered)
      (quiet.created sheltered within created) (quiet.recycled sheltered within created recycled) mounted''⟩

/-- What the first free sector held describes the directory that goes there:
its table is the first run of three free sectors behind the header. -/
def ReusableHeader (disk : Disk) : Prop :=
  ∀ hs freeMap b, FirstFree disk hs → (diskMap disk).Takes [hs] freeMap → freeMap.FirstRun 3 b →
    Reusable (headerAt disk hs) hs b

/-- `Create` of a directory, when the sector its header goes to can be reused. -/
theorem ensures_Create_directory (sheltered : Sheltered layout disk)
    (mounted : Mounted fs disk) (safe : SafePath disk name) (reusable : ReusableHeader disk)
    (allowed : CreateAborts disk name 3 → fault .assertion)
    (refused : ∀ fs' disk', CreateRefuses disk name 3 → Quiet layout disk disk' →
      Mounted fs' disk' → post (false, fs') disk' vis)
    (made : ∀ fs' disk' p hs i, p = (tableAt disk 1).lookup (FileSystem.splitPath name).1 →
      FirstFree disk hs →
      Created layout disk disk' p hs i (FileSystem.splitPath name).2 true 360 →
      Mounted fs' disk' → post (true, fs') disk' vis) :
    Ensures (fs.Create name (-1)) post fault disk vis := by
  refine ensures_Create sheltered sheltered.reach mounted safe
    (fun missing => allowed (.inl missing))
    (fun fs' disk' _ lookup reason quiet mounted' _ =>
      refused fs' disk' (.inl (lookup ▸ reason)) quiet mounted') ?_
  intro fs' file disk' base hs freeMap i p hdr lookup known quiet mounted' _ current same taken least
    absent slot
  have sheltered' := quiet.sheltered sheltered
  have first := (firstFree_of_takes taken least).quiet quiet sheltered
  rw [if_pos rfl, if_pos rfl]
  refine ensures_createDirectory sheltered' mounted' known current taken same absent slot ?_
    (fun none => allowed (.inr ⟨hs, freeMap, taken.congr (quiet.map sheltered).symm
      (BitMap.Same.refl _), none⟩)) ?_ ?_
  · intro b run
    have unowned : ¬ layout.Head hs := fun head => first.1.2 (sheltered.head_marked head)
    rw [headerAt_congr (quiet.others hs unowned id)]
    exact reusable hs freeMap b first
      (taken.congr (quiet.map sheltered).symm (BitMap.Same.refl _)) run
  · intro lacking
    have count := BitMap.freeCount_takes taken
    have before := (quiet.map sheltered).freeCount
    simp only [List.length_cons, List.length_nil] at count
    exact .inl ⟨rfl, sheltered'.number (.inr (.inl known)) current,
      refused fs' disk' (.inr (by omega)) quiet mounted'⟩
  · intro file' fs'' disk'' created mounted'' current''
    exact .inl ⟨rfl, (created.sheltered sheltered').number
      (Layout.head_add.mpr (.inl (.inr (.inl known)))) current'',
      made fs'' disk'' p hs i lookup first (quiet.created sheltered sheltered.whole created)
      mounted''⟩

end Create

/-! ## Open and Remove -/

/-- `Open` finds the first entry with the last name in the directory; the
handle on the directory stays counted. -/
theorem ensures_Open {post : Option OpenFile × FileSystem → Disk → Counters → Prop} {name : Name}
    (sheltered : Sheltered layout disk) (reach : Reach scope layout disk name)
    (mounted : Mounted fs disk) (safe : SafePath disk name)
    (allowed : (tableAt disk 1).entryIndex (FileSystem.splitPath name).1 = none → fault .assertion)
    (missing : ∀ fs' disk' p, p = (tableAt disk 1).lookup (FileSystem.splitPath name).1 →
      p ∈ layout.dirs → (tableAt disk p).entryIndex (FileSystem.splitPath name).2 = none →
      Quiet scope disk disk' → Mounted fs' disk' →
      post (none, fs') disk' (Function.update vis p (vis p + 1)))
    (found : ∀ fs' file disk' p i s,
      p = (tableAt disk 1).lookup (FileSystem.splitPath name).1 → p ∈ layout.dirs →
      (tableAt disk p).entryIndex (FileSystem.splitPath name).2 = some i →
      (tableAt disk p).sector i = s → Quiet scope disk disk' → Mounted fs' disk' →
      layout.Head s → Current disk' file s → file.seekPosition = 0 →
      post (some file, fs') disk' (Function.update (Function.update vis p (vis p + 1)) s
        (Function.update vis p (vis p + 1) s + 1))) :
    Ensures (fs.Open name) post fault disk vis := by
  unfold FileSystem.Open
  refine ensures_openDirectory (fun fs dirSector dir dirFile => do
    let sector ← dir.Find (FileSystem.splitPath name).2
    if sector ≥ 0 then
      let openFile ← OpenFile.new sector
      return (some openFile, fs)
    else return (none, fs)) sheltered reach mounted safe allowed ?_
  intro fs₁ p dir file disk₁ lookup near quiet mounted₁ _ same current
  have known := reach.within.dirs p near
  have wide : Quiet layout disk disk₁ := quiet.widen reach.within
  have sheltered₁ := wide.sheltered sheltered
  have original : Directory.Same dir (tableAt disk p) :=
    same.trans (wide.same_table sheltered known)
  apply ensures_bind
  refine Directory.ensures_Find safe.last ?_
  rw [Directory.lookup_congr original]
  unfold Directory.lookup
  cases result : (tableAt disk p).entryIndex (FileSystem.splitPath name).2 with
  | none =>
    dsimp only
    rw [if_neg (by omega)]
    exact ensures_pure (missing fs₁ disk₁ p lookup known result quiet mounted₁)
  | some i =>
    obtain ⟨bound, used, -⟩ := Directory.entryIndex_some result
    have head := sheltered.entry_head known bound used
    have valid := sheltered.valid_head head
    dsimp only
    rw [if_pos valid.1]
    apply ensures_bind
    refine ensures_new_head sheltered₁ head ?_
    intro opened _ currentOpened position
    apply ensures_pure
    exact found fs₁ opened disk₁ p i _ lookup known result rfl quiet mounted₁ head currentOpened
      position

/-- Every entry of the indirect block fits in seven bits, so reading it as a
`char` loses nothing. -/
def SmallEntries (disk : Disk) (h : Int) : Prop :=
  ∀ k : Nat, 8 ≤ k → (k : Int) < (headerAt disk h).numSectors →
    dataSector disk (headerAt disk h) k < 128

theorem SmallEntries.quiet (small : SmallEntries disk h) (quiet : Quiet layout disk disk')
    (sheltered : Sheltered layout disk) (known : layout.Head h) : SmallEntries disk' h := by
  intro k far inside
  have here : HasPart disk' h (.data k) (dataSector disk' (headerAt disk' h) k) := ⟨inside, rfl⟩
  obtain ⟨inside', same⟩ := (quiet.hasPart_iff sheltered known).mp here
  rw [same]
  exact small k far inside'

/-- `Deallocate` returns every sector of the file but its header's. -/
theorem ensures_Deallocate {post : BitMap → Disk → Counters → Prop} {freeMap : BitMap}
    {hdr : FileHeader} (sheltered : Sheltered layout disk) (known : layout.Head h)
    (agrees : Agrees hdr (headerAt disk h)) (small : SmallEntries disk h)
    (map : BitMap.Same freeMap (diskMap disk))
    (holds : ∀ sectors after, (∀ s, s ∈ claimed disk h ↔ s ∈ sectors ∨ s = h) →
      freeMap.Releases sectors after → post after disk vis) :
    Ensures (hdr.Deallocate freeMap) post fault disk vis := by
  obtain ⟨len, headed⟩ := sheltered.headed h known
  have sectors := agrees.numSectors.trans headed.sectors
  have slotSame : ∀ k, k < 9 → hdr.dataSectors k = (headerAt disk h).dataSectors k :=
    fun k bound => agrees.dataSectors bound
  have owned : ∀ part s, HasPart disk h part s → (diskMap disk).Marked s := fun part s here =>
    sheltered.storage.marked_of_owns (k := (h, part)) ⟨known, here⟩
  have data : ∀ k, k < sectorsFor len →
      HasPart disk h (.data k) (dataSector disk (headerAt disk h) k) := by
    intro k bound
    refine ⟨?_, rfl⟩
    rw [headed.sectors]
    exact_mod_cast bound
  by_cases direct : sectorsFor len ≤ 8
  · have list : hdr.slots 0 (sectorsFor len) = (headerAt disk h).slots 0 (sectorsFor len) :=
      slots_congr fun k bound => slotSame _ (by omega)
    have slot : ∀ k, k < sectorsFor len →
        HasPart disk h (.data k) ((headerAt disk h).dataSectors k) := by
      intro k bound
      have here := data k bound
      rwa [dataSector_direct (by omega)] at here
    refine ensures_Deallocate_direct sectors direct ?_ ?_ ?_
    · intro s member
      rw [list] at member
      obtain ⟨k, bound, here⟩ := mem_slots.mp member
      rw [map.marks, ← here, Nat.zero_add]
      exact owned _ _ (slot k bound)
    · rw [list]
      refine List.Nodup.map_on ?_ List.nodup_range
      intro k member k' member' same
      rw [Nat.zero_add, Nat.zero_add] at same
      have first := slot k (List.mem_range.mp member)
      have second := slot k' (List.mem_range.mp member')
      rw [← same] at second
      have equal := sheltered.storage.single (h, .data k) (h, .data k') _ ⟨known, first⟩
        ⟨known, second⟩
      simpa using congrArg Prod.snd equal
    · intro after released
      refine holds _ after (fun s => ?_) released
      rw [claimed_direct headed.sectors direct, List.mem_cons, or_comm, list]
  · have large : 9 ≤ sectorsFor len := by omega
    have nine : 9 ≤ (headerAt disk h).numSectors := by
      rw [headed.sectors]
      omega
    have block : ∀ k, 8 ≤ k → k < sectorsFor len →
        blockSector disk hdr k = dataSector disk (headerAt disk h) k := by
      intro k far bound
      rw [blockSector_congr slotSame fun _ => rfl]
      apply blockSector_eq_dataSector
      intro _
      refine ⟨(owned _ _ (data k bound)).1, small k far ?_⟩
      rw [headed.sectors]
      exact_mod_cast bound
    refine ensures_Deallocate_indirect map.size sectors large headed.fits ?_ ?_ ?_
    · intro k bound
      rw [slotSame k bound]
      by_cases last : k = 8
      · subst last
        obtain ⟨low, high, -⟩ := owned .indirect _ ⟨nine, rfl⟩
        exact ⟨low, high⟩
      · have here := data k (by omega)
        rw [dataSector_direct (by omega)] at here
        obtain ⟨low, high, -⟩ := owned _ _ here
        exact ⟨low, high⟩
    · intro k far bound
      rw [block k far bound]
      obtain ⟨low, high, -⟩ := owned _ _ (data k bound)
      exact ⟨low, high⟩
    · intro after released
      have entries : (List.range (sectorsFor len - 8)).map (fun i => blockSector disk hdr (8 + i)) =
          indirectEntries (disk ((headerAt disk h).dataSectors 8)) (sectorsFor len - 8) := by
        apply List.map_congr_left
        intro i member
        have less := List.mem_range.mp member
        rw [block (8 + i) (by omega) (by omega), dataSector, if_neg (by omega),
          Nat.add_sub_cancel_left]
      rw [entries, slots_congr fun k bound => slotSame _ (by omega)] at released
      refine holds _ after (fun s => ?_) released
      rw [(claimed_indirect headed.sectors large).mem_iff, List.mem_cons, List.mem_append,
        List.mem_append]
      constructor
      · rintro (own | slot | entry)
        · exact .inr own
        · exact .inl (.inr slot)
        · exact .inl (.inl entry)
      · rintro ((entry | slot) | own)
        · exact .inr (.inr entry)
        · exact .inr (.inl slot)
        · exact .inl own

/-- What `Remove` needs of the entry it is about to delete. -/
structure Removable (disk : Disk) (i : Nat) : Prop where
  empty : (tableAt disk 1).type i = 0 →
    ∀ j c, ¬ Child disk ((tableAt disk 1).sector i, true) j c
  entries : SmallEntries disk ((tableAt disk 1).sector i)

/-- Writing the free map and then the root's table edits the root. -/
theorem edited_of_removal {disk₁ disk₂ : Disk} (known : (1 : Int) ∈ layout.dirs)
    (map : Agrees (headerAt disk₁ 0) (headerAt disk 0)) (first : ∀ s, s ≠ 0 → s ≠ 2 → disk₁ s = disk s)
    (root : Agrees (headerAt disk₂ 1) (headerAt disk 1))
    (second : ∀ s, s ≠ 1 → (∀ k, k < 3 → s ≠ (headerAt disk 1).dataSectors k) → disk₂ s = disk₁ s) :
    Edited layout disk disk₂ 1 := by
  refine ⟨known, fun q headQ unchanged => ?_, fun s free unchanged => ?_⟩
  · push Not at unchanged
    obtain ⟨notTwo, -, slots⟩ := unchanged
    by_cases own : q = 1
    · subst own
      exact root
    · rw [headerAt_congr (second q own slots)]
      by_cases zero : q = 0
      · subst zero
        exact map
      · rw [headerAt_congr (first q zero notTwo)]
        exact Agrees.refl _
  · push Not at unchanged
    obtain ⟨notTwo, -, slots⟩ := unchanged
    rw [second s (fun top => free (.inr (.inl (top ▸ known)))) slots,
      first s (fun zero => free (.inl zero)) notTwo]

/-- `Remove` of a single name. The root itself cannot be removed because the
file system keeps a handle on it. -/
theorem ensures_Remove {post : Bool × FileSystem → Disk → Counters → Prop} {name : Name}
    (sheltered : Sheltered layout disk) (within : scope.Within layout) (mounted : Mounted fs disk)
    (plain : name.Plain) (busy : vis 1 ≠ 0)
    (removable : ∀ i, (tableAt disk 1).entryIndex name = some i →
      vis ((tableAt disk 1).sector i) = 0 → Removable disk i)
    (refused : ∀ fs' disk', Quiet scope disk disk' → Mounted fs' disk' →
      ((tableAt disk 1).entryIndex name = none ∨
        ∃ i, (tableAt disk 1).entryIndex name = some i ∧
          vis ((tableAt disk 1).sector i) ≠ 0) → post (false, fs') disk' vis)
    (done : ∀ fs' disk' e i isDir, (tableAt disk 1).entryIndex name = some i →
      (tableAt disk 1).sector i = e → vis e = 0 → Removed scope disk disk' 1 e i isDir →
      Mounted fs' disk' → post (true, fs') disk' vis) :
    Ensures (fs.Remove name) post fault disk vis := by
  have rootValid : ValidSector rootSector := by decide
  unfold FileSystem.Remove
  apply ensures_bind
  apply ensures_bind
  apply ensures_uninitialized
  intro storage
  apply ensures_pure
  apply ensures_bind
  refine ensures_fetchTable sheltered within within.top mounted.root
    (Directory.make_fresh storage rootValid rootValid).size ?_
  intro root rootFile disk₁ sameRoot currentRoot _ quiet₁ _
  have sheltered₁ := (quiet₁.widen within).sheltered sheltered
  have mounted₁ : Mounted { fs with directoryFile := rootFile } disk₁ :=
    ⟨mounted.map.quiet quiet₁ (.inl rfl), currentRoot⟩
  apply ensures_bind
  refine Directory.ensures_Find plain ?_
  rw [Directory.lookup_congr sameRoot]
  unfold Directory.lookup
  cases found : (tableAt disk 1).entryIndex name with
  | none =>
    dsimp only
    rw [if_pos rfl]
    exact ensures_pure (refused _ disk₁ quiet₁ mounted₁ (.inl found))
  | some i =>
    obtain ⟨bound, used, -⟩ := Directory.entryIndex_some found
    change i < 10 at bound
    have head := sheltered.entry_head sheltered.root bound used
    have valid := sheltered.valid_head head
    dsimp only
    rw [if_neg (by have low := valid.1; omega)]
    apply ensures_bind
    refine ensures_visNum valid ?_
    by_cases closed : vis ((tableAt disk 1).sector i) = 0
    · have can := removable i found closed
      have low : 2 ≤ i := by
        by_contra small
        have cases : i = 0 ∨ i = 1 := by omega
        rcases cases with rfl | rfl
        · rw [sheltered.rootSelf.1] at closed
          exact busy closed
        · rw [sheltered.rootSelf.2.1] at closed
          exact busy closed
      obtain ⟨link, node⟩ := sheltered.child sheltered.root low bound used
      rw [if_neg (by simp [closed])]
      generalize entry : (tableAt disk 1).sector i = e at *
      apply ensures_bind
      apply ensures_bind
      refine ensures_ReadSector valid ?_
      apply ensures_pure
      apply ensures_bind
      apply BitMap.ensures_create
      intro blank blankBits _
      apply ensures_bind
      refine ensures_fetchMap sheltered₁ mounted₁.map (by rw [blankBits]; rfl) ?_
      intro fetched mapFile disk₂ fetchedSame mapCurrent fetches _
      have quiet₂ := fetches layout
      have sheltered₂ := quiet₂.sheltered sheltered₁
      have near : Quiet scope disk disk₂ := Frame.trans quiet₁ (fetches scope)
      have quiet : Quiet layout disk disk₂ := near.widen within
      have root₂ := mounted₁.root.quiet quiet₂ (.inr (.inl sheltered.root))
      have map₂ : BitMap.Same fetched (diskMap disk₂) :=
        fetchedSame.trans (quiet₂.map sheltered₁).symm
      have small₂ : SmallEntries disk₂ e := by
        refine SmallEntries.quiet ?_ quiet sheltered head
        rw [← entry]
        exact can.entries
      apply ensures_bind
      refine ensures_Deallocate sheltered₂ head (quiet₂.agrees head).symm small₂ map₂ ?_
      intro sectors freed parts released
      apply ensures_bind
      have size : freed.numBits = 1024 := released.size.trans map₂.size
      refine ensures_checked (BitMap.clear_ok valid.1 (by rw [size]; exact valid.2)) ?_
      have all := released.append (@BitMap.releases_one freed e valid.1)
      apply ensures_bind
      refine Directory.ensures_Remove plain (fun missing => ?_) fun i' found' => ?_
      · rw [Directory.entryIndex_congr sameRoot, found] at missing
        cases missing
      rw [Directory.entryIndex_congr sameRoot, found] at found'
      cases found'
      obtain ⟨apartZero, apartTwo, apartSlot⟩ := sheltered₂.dir_apart sheltered.root
      apply ensures_bind
      refine ensures_writeMap sheltered₂.map mapCurrent size ?_
      intro mapFile' disk₃ current₃ zero₃ map₃ frame₃
      apply ensures_bind
      refine ensures_writeTable sheltered₂ sheltered.root root₂ sameRoot.size ?_
      intro rootFile' disk₄ current₄ parent₄ table₄ frame₄
      apply ensures_pure
      have zero₄ : disk₄ 0 = disk₃ 0 :=
        frame₄ 0 apartZero.symm fun k bound => (apartSlot k bound).1.symm
      have two₄ : disk₄ 2 = disk₃ 2 :=
        frame₄ 2 apartTwo.symm fun k bound => (apartSlot k bound).2.1.symm
      have edited : Edited scope disk₂ disk₄ 1 := edited_of_removal within.top zero₃ frame₃ parent₄ frame₄
      have sameRoot₂ : Directory.Same root (tableAt disk₂ 1) :=
        sameRoot.trans (quiet.same_table sheltered sheltered.root).symm
      have removed : Removed scope disk₂ disk₄ 1 e i (decide ((tableAt disk 1).type i = 0)) := by
        refine ⟨edited, (child_same (quiet.same_table sheltered sheltered.root)).mpr link, ?_,
          table₄.trans (sameRoot₂.setInUse i false), fun flag j c below => ?_⟩
        · refine BitMap.Releases.of_mem (all.congr map₂.symm ((diskMap_same two₄).trans map₃)) ?_
          intro s
          rw [parts, List.mem_append, List.mem_singleton]
        · rw [flag] at node
          have empty := can.empty (of_decide_eq_true flag)
          rw [entry] at empty
          exact empty j c ((child_same (quiet.same_table sheltered node)).mp below)
      refine done _ disk₄ e i _ found entry closed (near.removed sheltered within head removed)
        ⟨?_, ?_⟩
      · unfold Current
        rw [headerAt_congr zero₄]
        exact current₃
      · exact current₄
    · rw [if_pos closed]
      exact ensures_pure (refused _ disk₁ quiet₁ mounted₁ (.inr ⟨i, found, closed⟩))

end Nachos
