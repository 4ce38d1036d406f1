import Nachos.Filesys.Pipes

/-! A `Create` that returns `FALSE`. Nothing it prepared in memory reaches the
disk, but every read on the way writes a header back, and the headers of the
root and of the free map come from the copies the kernel opened when it
started. A file that was created or grown since then has set the modification
time on disk through another handle: the older time in the copy replaces it. -/
namespace Nachos
open Effects FileHeader OpenFile

variable {fs fs' : FileSystem} {disk disk' : Disk} {name : Name}

/-! ## What a refused `Create` has written -/

/-- Looking up the root itself writes its header only, from the kernel's copy. -/
theorem Looked.root (looked : Looked fs fs' disk disk' 1) :
    ∃ hdr, disk' = Function.update disk 1 hdr.raw ∧ SameBut .visit hdr fs.directoryFile.hdr := by
  obtain ⟨-, disk₁, opened, file, fresh, first, second⟩ := looked
  refine ⟨file.hdr, ?_, ?_⟩
  · rw [second.stored, first.stored, Function.update_idem]
  · have same := second.same
    rw [fresh, first.stored] at same
    unfold headerAt at same
    rw [Function.update_self] at same
    exact same.trans first.same

/-- In the root, at most the headers of sectors 0 and 1 were written, each from the
kernel's copy. -/
structure Refreshed (fs : FileSystem) (disk disk' : Disk) (name : Name) : Prop where
  others : ∀ s, s ≠ 0 → s ≠ 1 → disk' s = disk s
  root : SameBut .visit (headerAt disk' 1) fs.directoryFile.hdr
  map : (tableAt disk 1).entryIndex name = none →
    SameBut .visit (headerAt disk' 0) fs.freeMapFile.hdr
  kept : (tableAt disk 1).entryIndex name ≠ none → disk' 0 = disk 0

theorem Consulted.refreshed (consulted : Consulted fs disk disk' 1 name) :
    Refreshed fs disk disk' name := by
  obtain ⟨fs₁, disk₁, looked, rest⟩ := consulted
  have mapFile := looked.1
  obtain ⟨hdr, rfl, same⟩ := looked.root
  rcases rest with ⟨present, rfl⟩ | ⟨absent, file, visited⟩
  · refine ⟨fun s _ notRoot => Function.update_of_ne notRoot .., ?_, fun absent => absurd absent present,
      fun _ => Function.update_of_ne (by decide) ..⟩
    unfold headerAt
    rw [Function.update_self]
    exact same
  · obtain ⟨rfl, sameMap⟩ := visited
    rw [mapFile] at sameMap
    refine ⟨fun s notMap notRoot => ?_, ?_, fun _ => ?_, fun present => absurd absent present⟩
    · rw [Function.update_of_ne notMap, Function.update_of_ne notRoot]
    · unfold headerAt
      rw [Function.update_of_ne (by decide), Function.update_self]
      exact same
    · unfold headerAt
      rw [Function.update_self]
      exact sameMap

/-! ## What should have been left alone -/

/-- The headers in use on a disk with one directory. -/
def InUse (disk : Disk) (h : Int) : Prop :=
  h = 0 ∨ ∃ j, j < 10 ∧ (tableAt disk 1).inUse j = true ∧ (tableAt disk 1).sector j = h

/-- The map, the table, the files and the counters are as before, and their headers
differ in the last visit at most. -/
structure Discarded (before after : System) : Prop where
  map : ∀ s, (diskMap after.disk).Marked s ↔ (diskMap before.disk).Marked s
  table : Directory.Same (tableAt after.disk 1) (tableAt before.disk 1)
  headers : ∀ h, InUse before.disk h → SameBut .visit (headerAt after.disk h) (headerAt before.disk h)
  contents : ∀ h, InUse before.disk h → ∀ s, s ∈ claimed before.disk h → s ≠ h →
    after.disk s = before.disk s
  counters : after.counters = before.counters

/-- The kernel's copies of the headers carry the times that are on disk: the root's,
and for a new name the free map's. -/
def TimesCurrent (system : System) (name : Name) : Prop :=
  SameBut .visit system.session.fs.directoryFile.hdr (headerAt system.disk 1) ∧
    ((tableAt system.disk 1).entryIndex name = none →
      SameBut .visit system.session.fs.freeMapFile.hdr (headerAt system.disk 0))

/-- A header in use other than the map's and the root's, and every other sector in use,
lies outside sectors 0 and 1. -/
theorem Stocked.claimed_apart {layout : Layout} {deeds : Deeds} {h s : Int}
    (stocked : Stocked layout deeds disk) (used : InUse disk h) (member : s ∈ claimed disk h)
    (other : s ≠ h) : s ≠ 0 ∧ s ≠ 1 := by
  have sheltered := stocked.sheltered
  have head : layout.Head h := by
    rcases used with rfl | ⟨j, bound, used, rfl⟩
    · exact .inl rfl
    · exact sheltered.entry_head sheltered.root bound used
  obtain ⟨part, owned⟩ := mem_claimed.mp member
  have alone : ∀ q, layout.Head q → s = q → False := by
    rintro q known rfl
    have same := sheltered.storage.single (h, part) (s, .header) s ⟨head, owned⟩
      ⟨known, show HasPart disk s .header s from rfl⟩
    exact other (congrArg Prod.fst same).symm
  exact ⟨fun zero => alone 0 (.inl rfl) zero, fun one => alone 1 (.inr (.inl sheltered.root)) one⟩

theorem sameBut_iff {mode : TimeMode} {hdr₁ hdr₂ hdr : FileHeader} (same : SameBut mode hdr₁ hdr₂) :
    SameBut mode hdr₁ hdr ↔ SameBut mode hdr₂ hdr :=
  ⟨fun first => same.symm.trans first, fun second => same.trans second⟩

/-- What a step on which `Create` returned `FALSE` did. -/
theorem SturdySystem.refused {system after : System} {size : Int} (holds : SturdySystem system)
    (plain : name.Plain) (positive : 0 ≤ size)
    (refused : system.Step (.create name size) (.flag false) after) :
    ∃ layout deeds, Sturdy layout deeds system.session system.disk system.counters ∧
      Quiet layout system.disk after.disk ∧
      Refreshed system.session.fs system.disk after.disk name ∧ after.counters = system.counters := by
  obtain ⟨⟨layout, deeds, sturdy⟩, coherent⟩ := holds
  have sheltered := sturdy.sheltered
  have split := splitPath_of_plain plain
  have ends : Ensures ((Call.create name size).perform system.session)
      (fun result disk' vis' => result.1 = .flag false →
        Quiet layout system.disk disk' ∧ Refreshed system.session.fs system.disk disk' name ∧
          vis' = system.counters)
      (fun _ => True) system.disk system.counters := by
    unfold Call.perform
    apply ensures_bind
    refine ensures_Create_refused sheltered sheltered.reach sturdy.mounted
      (sheltered.safe_of_plain plain) positive (fun _ _ _ _ => ensures_pure fun impossible => by cases impossible) ?_
    intro fs' disk' p lookup quiet _ consulted
    rw [split, sheltered.lookup_dot.2] at lookup
    subst lookup
    rw [split] at consulted
    exact ensures_pure fun _ => ⟨quiet, consulted.refreshed, rfl⟩
  obtain ⟨done, -⟩ := ensures_done coherent refused ends
  exact ⟨layout, deeds, sturdy, done rfl⟩

theorem Sheltered.root_inUse {layout : Layout} (sheltered : Sheltered layout disk) : InUse disk 1 := by
  obtain ⟨bound, used, -⟩ := Directory.entryIndex_some sheltered.lookup_dot.1
  exact .inr ⟨0, bound, used, sheltered.rootSelf.1⟩

/-- A refused `Create` leaves everything but visit times alone exactly when the kernel's
copies of the headers it reads through are not behind the disk. -/
theorem refused_create_discards_iff {trace : List (Call × Reply)} {system after : System}
    {size : Int} (runs : System.Runs SmallCall trace system) (plain : name.Plain)
    (positive : 0 ≤ size) (refused : system.Step (.create name size) (.flag false) after) :
    Discarded system after ↔ TimesCurrent system name := by
  obtain ⟨layout, deeds, sturdy, quiet, refreshed, counters⟩ :=
    (sturdy_of_runs runs).refused plain positive refused
  have sheltered := sturdy.sheltered
  constructor
  · intro discarded
    have root := discarded.headers 1 sheltered.root_inUse
    refine ⟨(sameBut_iff refreshed.root).mp root, fun absent => ?_⟩
    exact (sameBut_iff (refreshed.map absent)).mp (discarded.headers 0 (.inl rfl))
  · rintro ⟨rootTimes, mapTimes⟩
    refine ⟨(quiet.map sheltered).marks, quiet.same_table sheltered sheltered.root, ?_, ?_, counters⟩
    · intro h used
      by_cases isRoot : h = 1
      · rw [isRoot]
        exact (sameBut_iff refreshed.root).mpr rootTimes
      by_cases isMap : h = 0
      · rw [isMap]
        by_cases absent : (tableAt system.disk 1).entryIndex name = none
        · exact (sameBut_iff (refreshed.map absent)).mpr (mapTimes absent)
        · rw [headerAt_congr (refreshed.kept absent)]
          exact fun _ _ => rfl
      · rw [headerAt_congr (refreshed.others h isMap isRoot)]
        exact fun _ _ => rfl
    · intro h used s member other
      obtain ⟨notMap, notRoot⟩ := sturdy.stocked.claimed_apart used member other
      exact refreshed.others s notMap notRoot

/-- A name that is present is refused. -/
theorem Sheltered.ensures_create_present {layout : Layout} {session : Session} {vis : Counters}
    {size : Int} (sheltered : Sheltered layout disk) (mounted : Mounted session.fs disk)
    (plain : name.Plain) (present : (tableAt disk 1).entryIndex name ≠ none) :
    Ensures ((Call.create name size).perform session) (fun result _ _ => result.1 = .flag false)
      (fun _ => False) disk vis := by
  have split := splitPath_of_plain plain
  unfold Call.perform
  apply ensures_bind
  refine ensures_Create sheltered sheltered.reach mounted (sheltered.safe_of_plain plain) ?_
    (fun _ _ _ _ _ _ _ _ => ensures_pure rfl) ?_
  · intro missing
    rw [split, sheltered.lookup_dot.1] at missing
    cases missing
  · intro fs' file disk' base hs freeMap i p hdr lookup known quiet _ _ _ same _ _ absent
    rw [split, sheltered.lookup_dot.2] at lookup
    subst lookup
    rw [split, Directory.entryIndex_congr (same.trans (quiet.same_table sheltered known))] at absent
    exact absurd absent present

/-- `Create(".", 0)` is refused on a new disk. -/
theorem refused_create_on_new_disk : ∃ system after : System,
    System.Runs SmallCall [] system ∧ system.Step (.create [dot] 0) (.flag false) after ∧
      (Discarded system after ↔ TimesCurrent system [dot]) := by
  obtain ⟨fs, booted, ran, ⟨formatted, mounted⟩, coherent⟩ := zeroMachine_blank.formats
  have runs : System.Runs SmallCall [] ⟨⟨fs, []⟩, booted⟩ := .boot zeroMachine_blank ran
  have sheltered := formatted.sheltered
  have present : (tableAt booted.disk 1).entryIndex [dot] ≠ none := by
    rw [sheltered.lookup_dot.1]
    simp
  have refuses : Ensures ((Call.create [dot] 0).perform ⟨fs, []⟩)
      (fun result _ _ => result.1 = .flag false) (fun _ => False) booted.disk booted.visNum :=
    sheltered.ensures_create_present mounted (by decide) present
  obtain ⟨⟨reply, session⟩, machine, taken, rfl, -⟩ := ensures_returns coherent refuses
  exact ⟨_, ⟨session, machine⟩, runs, taken,
    refused_create_discards_iff runs (by decide) le_rfl taken⟩

/-! ## What the clock shows -/

/-- From these sectors and counters the program, if it returns, ends in `post`, provided
the storage and the clock texts handed to it all satisfy `drawn`. -/
def Delivers {A : Type} (drawn : Memory → Prop) (program : Kernel A)
    (post : A → Disk → Counters → Prop) (disk : Disk) (vis : Counters) : Prop :=
  ∀ supply, (∀ n, drawn (supply n)) →
    Program.wp Store.handle program (fun value after => post value after.disk after.visNum)
      (fun _ _ => True) { disk := disk, visNum := vis, supply := supply }

section Rules

variable {A B : Type} {drawn : Memory → Prop} {post post' : A → Disk → Counters → Prop}
  {vis : Counters} {file : OpenFile}

theorem delivers_pure {value : A} (holds : post value disk vis) :
    Delivers drawn (pure value) post disk vis := fun _ _ => holds

theorem Ensures.delivers {program : Kernel A} (holds : Ensures program post (fun _ => True) disk vis) :
    Delivers drawn program post disk vis := fun supply _ => ensures_iff.mp holds supply

theorem delivers_bind {program : Kernel A} {next : A → Kernel B}
    {post : B → Disk → Counters → Prop}
    (holds : Delivers drawn program (fun value disk vis => Delivers drawn (next value) post disk vis)
      disk vis) : Delivers drawn (program >>= next) post disk vis := by
  intro supply all
  have first := holds supply all
  rw [Program.wp_bind]
  unfold Program.wp at first ⊢
  cases ended : program.run Store.handle { disk := disk, visNum := vis, supply := supply } with
  | done value after =>
    rw [ended] at first
    exact first after.supply (run_supply drawn all ended)
  | stopped reason after => trivial

/-- One step of which the rules for all clocks say enough. -/
theorem delivers_step {program : Kernel A} {next : A → Kernel B}
    {post : B → Disk → Counters → Prop}
    (holds : Ensures program (fun value disk vis => Delivers drawn (next value) post disk vis)
      (fun _ => True) disk vis) : Delivers drawn (program >>= next) post disk vis :=
  delivers_bind holds.delivers

/-- One step of which nothing is known. -/
theorem delivers_unknown {program : Kernel A} {next : A → Kernel B}
    {post : B → Disk → Counters → Prop}
    (rest : ∀ value disk vis, Delivers drawn (next value) post disk vis) :
    Delivers drawn (program >>= next) post disk vis :=
  delivers_step (ensures_any (fun _ => trivial) rest)

theorem delivers_post {program : Kernel A} (holds : Delivers drawn program post' disk vis)
    (weaker : ∀ value disk vis, post' value disk vis → post value disk vis) :
    Delivers drawn program post disk vis := fun supply all =>
  Program.wp_mono (holds supply all) (fun value after => weaker value after.disk after.visNum)
    fun _ _ _ => trivial

theorem delivers_and {program : Kernel A} (first : Ensures program post (fun _ => True) disk vis)
    (second : Delivers drawn program post' disk vis) :
    Delivers drawn program (fun value disk vis => post value disk vis ∧ post' value disk vis)
      disk vis := by
  intro supply all
  have holds := ensures_iff.mp first supply
  have holds' := second supply all
  unfold Program.wp at holds holds' ⊢
  cases ended : program.run Store.handle { disk := disk, visNum := vis, supply := supply } with
  | done value after =>
    rw [ended] at holds holds'
    exact ⟨holds, holds'⟩
  | stopped reason after => trivial

theorem delivers_done {program : Kernel A} {machine after : SynchDisk} {value : A}
    (coherent : machine.cache.Coherent machine.disk) (all : ∀ n, drawn (machine.supply n))
    (ended : program.run SynchDisk.handle machine = .done value after)
    (holds : Delivers drawn program post machine.disk machine.visNum) :
    post value after.disk after.visNum := by
  have result := @wp_on_machine _ program post (fun _ => True) machine coherent (holds machine.supply all)
  rw [ended] at result
  exact result.1

/-- The modification time in this header is a text from the clock. -/
def Shows (drawn : Memory → Prop) (hdr : FileHeader) : Prop :=
  ∃ text, drawn text ∧ ∀ k, k < 24 → hdr.mem (99 + k) = text k

theorem delivers_SetTime {hdr : FileHeader} : Delivers drawn (hdr.SetTime .modify)
    (fun hdr' _ _ => Shows drawn hdr') disk vis := by
  intro supply all
  refine Program.wp_bind.mpr (Program.wp_ask.mpr ⟨supply 0, all 0, fun k less => ?_⟩)
  unfold FileHeader.mem splice TimeMode.offset
  dsimp only
  rw [Block.mem_of (n := SectorSize) (show 99 + k < 128 by omega),
    Memory.splice_inside (by omega) (by omega), Nat.add_sub_cancel_left, if_pos less]

end Rules

attribute [irreducible] Delivers

/-! ## A directory that was written -/

section Stamps

variable {drawn : Memory → Prop} {vis : Counters} {file : OpenFile} {source : Memory} {n pos : Int}
  {layout : Layout} {dir : Directory}

/-- A write ends by setting the modification time and storing the header. -/
theorem delivers_writeBlocks : Delivers drawn (writeBlocks file source n pos)
    (fun result disk' _ => Shows drawn result.2.hdr ∧
      disk' result.2.hdr.sectorNumber = result.2.hdr.raw) disk vis := by
  unfold writeBlocks
  refine delivers_unknown fun buf disk vis => ?_
  refine delivers_unknown fun first disk vis => ?_
  refine delivers_unknown fun last disk vis => ?_
  refine delivers_unknown fun _ disk vis => ?_
  refine delivers_bind (delivers_post delivers_SetTime fun hdr disk vis shows => ?_)
  by_cases valid : ValidSector hdr.sectorNumber
  · refine delivers_step (ensures_WriteBack valid ?_)
    exact delivers_pure ⟨shows, Function.update_self ..⟩
  · refine delivers_step (ensures_iff.mpr fun supply => Program.wp_ask.mpr ?_)
    simp only [Store.handle, if_neg valid]

/-- Unless it starts past the end of the file. -/
theorem delivers_WriteAt (positive : 0 < n) :
    Delivers drawn (file.WriteAt source n pos) (fun result disk' _ =>
      pos ≤ result.2.hdr.numBytes → Shows drawn result.2.hdr ∧
        disk' result.2.hdr.sectorNumber = result.2.hdr.raw) disk vis := by
  have length : file.hdr.FileLength = file.hdr.numBytes := rfl
  have writes : ∀ (file : OpenFile) disk vis, Delivers drawn (writeBlocks file source n pos)
      (fun result disk' _ => pos ≤ result.2.hdr.numBytes → Shows drawn result.2.hdr ∧
        disk' result.2.hdr.sectorNumber = result.2.hdr.raw) disk vis := fun _ _ _ =>
    delivers_post delivers_writeBlocks fun _ _ _ holds _ => holds
  unfold WriteAt writeDepth writeAt
  dsimp only
  split
  · refine delivers_pure fun reached => ?_
    dsimp only at reached
    omega
  split
  · exact (ensures_stop trivial).delivers
  split
  · refine delivers_unknown fun freeMapFile disk vis => ?_
    refine delivers_unknown fun freeMap disk vis => ?_
    refine delivers_unknown fun fetched disk vis => ?_
    refine delivers_unknown fun extended disk vis => ?_
    refine delivers_unknown fun _ disk vis => ?_
    refine delivers_unknown fun written disk vis => ?_
    refine delivers_unknown fun _ disk vis => ?_
    exact writes _ disk vis
  · exact writes file disk vis

theorem delivers_WriteBack (size : dir.tableSize = 10) :
    Delivers drawn (dir.WriteBack file) (fun file' disk' _ => 0 ≤ file'.hdr.numBytes →
      Shows drawn file'.hdr ∧ disk' file'.hdr.sectorNumber = file'.hdr.raw) disk vis := by
  unfold Directory.WriteBack
  rw [size]
  refine delivers_bind (delivers_post (delivers_WriteAt ?_) fun _ _ _ holds => delivers_pure holds)
  simp

/-- A new disk: the kernel's copy of the root's header shows when it was formatted. -/
theorem delivers_format : Delivers drawn FileSystem.format (fun fs _ _ =>
    0 ≤ fs.directoryFile.hdr.numBytes → Shows drawn fs.directoryFile.hdr) disk vis := by
  have rootValid : ValidSector rootSector := by decide
  unfold FileSystem.format
  refine delivers_unknown fun freeMap disk vis => ?_
  apply delivers_step
  apply ensures_bind
  apply ensures_uninitialized
  intro storage
  apply ensures_pure
  have size := (Directory.make_fresh storage rootValid rootValid).size
  refine delivers_unknown fun mapHdr disk vis => ?_
  refine delivers_unknown fun dirHdr disk vis => ?_
  refine delivers_unknown fun freeMap disk vis => ?_
  refine delivers_unknown fun freeMap disk vis => ?_
  refine delivers_unknown fun allocated disk vis => ?_
  refine delivers_unknown fun _ disk vis => ?_
  refine delivers_unknown fun allocated disk vis => ?_
  refine delivers_unknown fun _ disk vis => ?_
  refine delivers_unknown fun _ disk vis => ?_
  refine delivers_unknown fun _ disk vis => ?_
  refine delivers_unknown fun freeMapFile disk vis => ?_
  refine delivers_unknown fun directoryFile disk vis => ?_
  refine delivers_unknown fun freeMapFile disk vis => ?_
  exact delivers_bind (delivers_post (delivers_WriteBack size) fun _ _ _ holds =>
    delivers_pure fun reached => (holds reached).1)

/-- The table of the root, written through a current handle, shows when. -/
theorem delivers_writeTable {before : Disk} (sheltered : Sheltered layout before)
    (current : Current before file 1) (size : dir.tableSize = 10) :
    Delivers drawn (dir.WriteBack file) (fun file' disk' _ => Shows drawn (headerAt disk' 1) ∧
      file'.hdr.sectorNumber = 1 ∧ ∀ s, s ≠ 1 →
        (∀ k, k < 3 → s ≠ (headerAt before 1).dataSectors k) → disk' s = disk s) disk vis := by
  have written : Ensures (dir.WriteBack file) (fun file' disk' _ =>
      Agrees file'.hdr (headerAt before 1) ∧ ∀ s, s ≠ 1 →
        (∀ k, k < 3 → s ≠ (headerAt before 1).dataSectors k) → disk' s = disk s)
      (fun _ => True) disk vis := by
    refine ensures_writeTable sheltered sheltered.root current size ?_
    intro file' disk' current' agrees _ frame
    exact ⟨Agrees.trans current' agrees, frame⟩
  refine delivers_post (delivers_and written (delivers_WriteBack size)) ?_
  rintro file' disk' _ ⟨⟨agrees, frame⟩, stamped⟩
  have headed := sheltered.tables 1 sheltered.root
  have number : file'.hdr.sectorNumber = 1 := agrees.sectorNumber.trans headed.number
  obtain ⟨shows, stored⟩ := stamped (by rw [agrees.numBytes, headed.length]; decide)
  rw [number] at stored
  refine ⟨?_, number, frame⟩
  unfold headerAt
  rw [stored]
  exact shows

/-- An empty file in the root is made last in the table, and then in the map. -/
theorem delivers_createFile {hdr : FileHeader} {freeMap : BitMap} {hs : Int}
    (sheltered : Sheltered layout disk) (mounted : Mounted fs disk) (current : Current disk file 1)
    (header : (diskMap disk).Takes [hs] freeMap) (size : dir.tableSize = 10)
    (short : ShortExtension name) :
    Delivers drawn (fs.createFile hdr freeMap hs name 0 dir file) (fun result disk' _ =>
      result.2.2.directoryFile = fs.directoryFile ∧
        (result.1 = true → Shows drawn (headerAt disk' 1))) disk vis := by
  have bits : freeMap.numBits = 1024 := header.size
  obtain ⟨low, high, clear⟩ := header.fresh hs (by simp)
  have valid : ValidSector hs := ⟨low, high⟩
  obtain ⟨apartZero, apartTwo, apartSlot⟩ := sheltered.dir_apart sheltered.root
  have markedZero : (diskMap disk).Marked 0 := sheltered.head_marked (.inl rfl)
  unfold FileSystem.createFile
  apply delivers_step
  have none : sectorsFor 0 = 0 := rfl
  change Ensures (hdr.Allocate freeMap ((0 : Nat) : Int)) _ _ _ _
  refine ensures_Allocate bits (by omega) (by omega) (fun _ _ => trivial) ?_ ?_
  · intro _ hdr'
    exact delivers_pure ⟨rfl, fun impossible => by cases impossible⟩
  intro hdr₁ after diskA sectors _ _ taken kept _ _ _ _
  dsimp only
  rw [if_neg (by simp)]
  apply delivers_step
  obtain ⟨hdr₂, computed, -⟩ := setType_ok hdr₁ short
  refine ensures_checked computed ?_
  apply delivers_step
  refine ensures_stamp valid ?_
  intro hdr₃ _ _
  apply delivers_step
  refine ensures_WriteBack valid ?_
  -- the header of the map is as it was
  have unowned : ∀ s, s ∈ hs :: sectors → ¬ (diskMap disk).Marked s := fun s member =>
    ((header.append taken).fresh s (by simpa using member)).2.2
  have first : Function.update diskA hs hdr₃.raw 0 = disk 0 := by
    rw [Function.update_of_ne fun here => unowned 0 (by simp [here]) markedZero]
    exact kept 0 fun member => unowned 0 (List.mem_cons_of_mem _ member) markedZero
  apply delivers_bind
  refine delivers_post (delivers_writeTable sheltered current size) ?_
  rintro file' diskC visC ⟨shows, -, frame⟩
  have zeroC : headerAt diskC 0 = headerAt disk 0 :=
    headerAt_congr ((frame 0 apartZero.symm fun k bound => (apartSlot k bound).1.symm).trans first)
  apply delivers_step
  refine ensures_writeMap (by rw [zeroC]; exact sheltered.map) ?_ (taken.size.trans bits) ?_
  · unfold Current
    rw [zeroC]
    exact mounted.map
  intro mapFile diskD _ _ _ frameD
  refine delivers_pure ⟨rfl, fun _ => ?_⟩
  rw [headerAt_congr (frameD 1 apartZero apartTwo)]
  exact shows

/-- Closing a handle writes no sector. -/
theorem ensures_delete_disk : Ensures file.delete (fun _ disk' _ => disk' = disk) (fun _ => True)
    disk vis := by
  by_cases valid : ValidSector file.hdr.sectorNumber
  · exact ensures_delete valid rfl
  · unfold OpenFile.delete
    refine ensures_bind (ensures_iff.mpr fun supply => Program.wp_ask.mpr ?_)
    simp only [Store.handle, if_neg valid]

/-- After an empty file was created in the root, its header on disk shows when, and the
kernel's copy of it does not. -/
theorem delivers_Create (sheltered : Sheltered layout disk) (mounted : Mounted fs disk)
    (plain : name.Plain) (short : ShortExtension name) :
    Delivers drawn (fs.Create name 0) (fun result disk' _ => result.1 = true →
      SameBut .visit result.2.directoryFile.hdr fs.directoryFile.hdr ∧
        Shows drawn (headerAt disk' 1)) disk vis := by
  have rootValid : ValidSector rootSector := by decide
  have root : layout.Head 1 := .inr (.inl sheltered.root)
  unfold FileSystem.Create
  rw [splitPath_of_plain plain]
  apply delivers_step
  apply ensures_bind
  apply ensures_uninitialized
  intro storage
  apply ensures_pure
  apply delivers_step
  refine ensures_fetchTable sheltered sheltered.whole sheltered.root mounted.root
    (Directory.make_fresh storage rootValid rootValid).size ?_
  intro rootTable rootFile disk₁ sameRoot currentRoot _ quiet₁ visited₁
  have sheltered₁ := quiet₁.sheltered sheltered
  apply delivers_step
  refine Directory.ensures_Find (by decide) ?_
  rw [Directory.lookup_congr sameRoot, sheltered.lookup_dot.2]
  apply delivers_step
  refine ensures_new_head sheltered₁ root ?_
  intro opened _ current _
  apply delivers_step
  apply ensures_bind
  apply ensures_uninitialized
  intro storage'
  apply ensures_pure
  apply delivers_step
  refine ensures_fetchTable sheltered₁ sheltered.whole sheltered.root current
    (Directory.make_fresh storage' rootValid rootValid).size ?_
  intro dir file disk₂ same current₂ _ quiet₂ _
  have sheltered₂ := quiet₂.sheltered sheltered₁
  apply delivers_step
  refine Directory.ensures_Find plain ?_
  -- the handle on the directory is closed at the end
  apply delivers_bind
  have finish : ∀ (result : Bool × OpenFile × FileSystem) disk' vis',
      result.2.2.directoryFile = rootFile ∧ (result.1 = true → Shows drawn (headerAt disk' 1)) →
      Delivers drawn (do
        result.2.1.delete
        return (result.1, result.2.2)) (fun result disk' _ => result.1 = true →
          SameBut .visit result.2.directoryFile.hdr fs.directoryFile.hdr ∧
            Shows drawn (headerAt disk' 1)) disk' vis' := by
    rintro result disk' vis' ⟨handle, shows⟩
    apply delivers_step
    refine ensures_post ensures_delete_disk ?_
    rintro _ _ _ rfl
    refine delivers_pure fun success => ⟨?_, shows success⟩
    dsimp only
    rw [handle]
    exact visited₁.same
  refine delivers_post ?_ finish
  unfold FileSystem.createIfAbsent
  split
  · exact delivers_pure ⟨rfl, fun impossible => by cases impossible⟩
  unfold FileSystem.createEntry
  apply delivers_step
  apply BitMap.ensures_create
  intro blank blankBits _
  apply delivers_step
  have mapCurrent := (mounted.map.quiet quiet₁ (.inl rfl)).quiet quiet₂ (.inl rfl)
  refine ensures_fetchMap sheltered₂ mapCurrent (by rw [blankBits]; rfl) ?_
  intro fetched mapFile disk₃ fetchedSame mapCurrent₃ fetches _
  have quiet₃ := fetches layout
  have map₃ : BitMap.Same (diskMap disk₃) fetched :=
    (quiet₃.map sheltered₂).trans fetchedSame.symm
  apply delivers_step
  rcases BitMap.find_cases fetched with ⟨hs, after, computed, taken, -⟩ | ⟨computed, -⟩
  rotate_left
  · refine ensures_checked computed ?_
    dsimp only
    rw [if_pos rfl]
    exact delivers_pure ⟨rfl, fun impossible => by cases impossible⟩
  refine ensures_checked computed ?_
  obtain ⟨low, -, -⟩ := taken.fresh hs (by simp)
  dsimp only
  rw [if_neg (by omega)]
  apply delivers_step
  refine Directory.ensures_Add plain ?_ ?_
  · intro _
    exact delivers_pure ⟨rfl, fun impossible => by cases impossible⟩
  intro i _ _
  dsimp only
  rw [if_neg (by simp)]
  refine delivers_step ?_
  apply ensures_bind
  apply ensures_uninitialized
  intro storage''
  apply ensures_pure
  rw [if_neg (by decide)]
  have rootCurrent := (currentRoot.quiet quiet₂ root).quiet quiet₃ root
  refine delivers_post (delivers_createFile (quiet₃.sheltered sheltered₂) ⟨mapCurrent₃, rootCurrent⟩
    (current₂.quiet quiet₃ root) (taken.congr map₃ (BitMap.Same.refl _)) same.size short) ?_
  intro _ _ _ holds
  exact holds

end Stamps

/-! ## A file that was created before -/

/-- No other request looks at the storage there is to hand out. -/
theorem SynchDisk.handle_resupplied {r : kernel.Request} {machine between : SynchDisk}
    {reply : kernel.Reply r} (other : r ≠ .uninitialized) (supply : Nat → Memory)
    (answer : SynchDisk.handle r machine = .done reply between) :
    between.supply = machine.supply ∧ SynchDisk.handle r { machine with supply := supply } =
      .done reply { between with supply := supply } := by
  cases r with
  | uninitialized => exact absurd rfl other
  | readSector s =>
    simp only [SynchDisk.handle] at answer ⊢
    cases read : cachedRead machine.disk machine.cache s (machine.ticks 0) with
    | none =>
      rw [read] at answer
      cases answer
    | some found =>
      rw [read] at answer
      cases answer
      exact ⟨rfl, rfl⟩
  | writeSector s data | visNum s | setVisNum s count =>
    simp only [SynchDisk.handle] at answer ⊢
    split at answer
    · rename_i valid
      cases answer
      exact ⟨rfl, if_pos valid⟩
    · cases answer

/-- Code that returned draws finitely often: storage it did not reach may be anything. -/
theorem SynchDisk.run_resupplied {A : Type} {program : Kernel A} {machine after : SynchDisk}
    {value : A} (ended : program.run SynchDisk.handle machine = .done value after) :
    ∃ count, ∀ supply : Nat → Memory, (∀ n, n < count → supply n = machine.supply n) →
      program.run SynchDisk.handle { machine with supply := supply } =
        .done value { after with supply := fun n => supply (n + count) } := by
  induction program generalizing machine with
  | pure result =>
    cases ended
    exact ⟨0, fun _ _ => rfl⟩
  | stop fault => cases ended
  | request r next ih =>
    rw [Program.run] at ended
    cases answer : SynchDisk.handle r machine with
    | stopped fault stopped =>
      rw [answer] at ended
      cases ended
    | done reply between =>
      rw [answer] at ended
      obtain ⟨count, rest⟩ := ih reply ended
      cases r with
      | uninitialized =>
        cases answer
        refine ⟨count + 1, fun supply same => ?_⟩
        have first : supply 0 = machine.supply 0 := same 0 (by omega)
        have later := rest (fun n => supply (n + 1)) fun n less => same (n + 1) (by omega)
        simp only [Program.run, SynchDisk.handle, first]
        simpa only [Nat.add_assoc, Nat.add_comm 1] using later
      | readSector s | writeSector s data | visNum s | setVisNum s count' =>
        refine ⟨count, fun supply same => ?_⟩
        obtain ⟨kept, again⟩ := SynchDisk.handle_resupplied (by simp) supply answer
        rw [Program.run, again]
        exact rest supply fun n less => (same n less).trans (congrFun kept n).symm

/-- A machine formatted while the clock showed zeros, and ones ever since. -/
theorem boots_before_clock : ∃ fs machine, System.Runs SmallCall [] ⟨⟨fs, []⟩, machine⟩ ∧
    Formatted zeroMachine.disk machine.disk ∧ Mounted fs machine.disk ∧
    machine.cache.Coherent machine.disk ∧
    Shows (fun text => text = fun _ => 0) fs.directoryFile.hdr ∧
    ∀ n, machine.supply n = fun _ => 1 := by
  obtain ⟨fs, booted, ran, ⟨formatted, mounted⟩, coherent⟩ := zeroMachine_blank.formats
  have length : fs.directoryFile.hdr.numBytes = 360 :=
    mounted.root.numBytes.trans (formatted.sheltered.tables 1 formatted.sheltered.root).length
  have shown : Shows (fun text => text = fun _ => 0) fs.directoryFile.hdr :=
    delivers_done (blank_coherent zeroMachine_blank) (fun _ => rfl) ran delivers_format (by omega)
  obtain ⟨count, resupplied⟩ := SynchDisk.run_resupplied ran
  have ran' := resupplied (fun n => if n < count then fun _ => 0 else fun _ => 1)
    fun n less => if_pos less
  exact ⟨fs, _, .boot ⟨fun _ => rfl, fun _ => rfl⟩ ran', formatted, mounted, coherent, shown,
    fun n => if_neg (by omega)⟩

/-- `Create("a", 0)` twice on that machine: the second call puts the earlier modification
time of the root back. -/
theorem refused_create_reverts_time : ∃ (trace : List (Call × Reply)) (system after : System),
    System.Runs SmallCall trace system ∧ system.Step (.create nameA 0) (.flag false) after ∧
      (headerAt system.disk 1).mem 99 = 1 ∧ (headerAt after.disk 1).mem 99 = 0 ∧
      ¬ Discarded system after := by
  obtain ⟨fs, machine, booted, formatted, mounted, coherent, ⟨text, rfl, zeros⟩, clock⟩ :=
    boots_before_clock
  have sheltered := formatted.sheltered
  -- the first call
  have creates : Ensures (Call.perform ⟨fs, []⟩ (.create nameA 0)) (fun result disk' _ =>
      result.1 = .flag true ∧ Mounted result.2.fs disk' ∧
        ∃ i, Created emptyLayout machine.disk disk' 1 6 i nameA false 0)
      (fun _ => False) machine.disk machine.visNum := by
    unfold Call.perform
    apply ensures_bind
    change Ensures (fs.Create nameA ((0 : Nat) : Int)) _ _ _ _
    exact formatted.ensures_Create mounted (by decide) (by decide) (by decide) (by decide)
      (by decide) fun _ _ i created mounted' => ensures_pure ⟨rfl, mounted', i, created⟩
  have stamps : Delivers (fun text => text = fun _ => 1) (Call.perform ⟨fs, []⟩ (.create nameA 0))
      (fun result disk' _ => result.1 = .flag true →
        SameBut .visit result.2.fs.directoryFile.hdr fs.directoryFile.hdr ∧
          Shows (fun text => text = fun _ => 1) (headerAt disk' 1)) machine.disk machine.visNum := by
    unfold Call.perform
    refine delivers_bind (delivers_post (delivers_Create sheltered mounted (by decide) (by decide)) ?_)
    rintro ⟨success, fs'⟩ _ _ holds
    refine delivers_pure fun flag => holds ?_
    simpa using flag
  obtain ⟨⟨reply, session⟩, machine₁, taken, ⟨rfl, mounted₁, i, created⟩, coherent₁⟩ :=
    ensures_returns coherent creates
  obtain ⟨copy, ⟨text, rfl, ones⟩⟩ := delivers_done coherent clock taken stamps rfl
  have small : SmallCall ⟨⟨fs, []⟩, machine⟩ (.create nameA 0) (.flag true) :=
    ⟨by decide, le_rfl, fun _ => by decide⟩
  have runs : System.Runs SmallCall _ ⟨session, machine₁⟩ := .step booted small taken
  -- the second
  have present : (tableAt machine₁.disk 1).entryIndex nameA ≠ none := by
    rw [created.entryIndex_new sheltered]
    simp
  have refuses : Ensures ((Call.create nameA 0).perform session)
      (fun result _ _ => result.1 = .flag false) (fun _ => False) machine₁.disk machine₁.visNum :=
    (created.sheltered sheltered).ensures_create_present mounted₁ (by decide) present
  obtain ⟨⟨reply, session₂⟩, machine₂, again, rfl, -⟩ := ensures_returns coherent₁ refuses
  have step : System.Step ⟨session, machine₁⟩ (.create nameA 0) (.flag false) ⟨session₂, machine₂⟩ :=
    again
  obtain ⟨_, _, sturdy, -, refreshed, -⟩ :=
    (sturdy_of_runs runs).refused (by decide) le_rfl step
  have one : (headerAt machine₁.disk 1).mem 99 = 1 := ones 0 (by omega)
  have zero : (headerAt machine₂.disk 1).mem 99 = 0 :=
    (refreshed.root 99 (.inr le_rfl)).trans ((copy 99 (.inr le_rfl)).trans (zeros 0 (by omega)))
  refine ⟨_, _, ⟨session₂, machine₂⟩, runs, step, one, zero, fun discarded => ?_⟩
  have same := discarded.headers 1 sturdy.sheltered.root_inUse 99 (.inr le_rfl)
  exact absurd (zero.symm.trans (same.trans one)) (by decide)

end Nachos
