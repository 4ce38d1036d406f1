import Nachos.Filesys.SessionProofs

/-! Paths whose directory part leads nowhere. A part that names no directory is
a lookup that fails, and each operation goes on with what the failed lookup
returned: `FindIndex` indexes the table at -1, and `Create` and `Open` ask for
a handle on sector -1.

What the code does here depends on the bytes behind an unterminated name, so
the results fix those bytes: with zeroed storage the name that is looked up is
the component itself. -/
namespace Nachos
open Effects FileHeader OpenFile

/-! ## Programs that stop -/

/-- If all the storage it gets holds these bytes, the program does not return: it
stops for this reason. -/
def StopsOn {A : Type} (storage : Memory) (reason : Fault) (program : Kernel A) (disk : Disk)
    (vis : Counters) : Prop :=
  Program.wp Store.handle program (fun _ _ => False) (fun stopped _ => stopped = reason)
    { disk := disk, visNum := vis, supply := fun _ => storage }

/-- With zeroed storage the program does not return: it stops for this reason. -/
def Stops {A : Type} (reason : Fault) (program : Kernel A) (disk : Disk) (vis : Counters) : Prop :=
  Program.wp Store.handle program (fun _ _ => False) (fun stopped _ => stopped = reason)
    { disk := disk, visNum := vis, supply := fun _ _ => 0 }

section Rules

variable {A B : Type} {storage : Memory} {reason : Fault} {disk : Disk} {vis : Counters}

theorem stopsOn_stop : StopsOn storage reason (Program.stop reason : Kernel A) disk vis := rfl

/-- Code that returns, followed by code that stops from wherever it got. -/
theorem stopsOn_bind {program : Kernel A} {next : A → Kernel B}
    (first : Ensures program (fun value disk vis => StopsOn storage reason (next value) disk vis)
      (fun _ => False) disk vis) : StopsOn storage reason (program >>= next) disk vis := by
  obtain ⟨value, after, ended, stops⟩ :=
    Program.wp_returns (ensures_iff.mp first fun _ => storage)
  have same : after.supply = fun _ => storage :=
    funext (run_supply (fun drawn => drawn = storage) (fun _ => rfl) ended)
  refine Program.wp_bind.mpr (Program.wp_of_done ended ?_)
  unfold StopsOn at stops
  rwa [← same] at stops

theorem stopsOn_bind_left {program : Kernel A} {next : A → Kernel B}
    (first : StopsOn storage reason program disk vis) : StopsOn storage reason (program >>= next) disk vis :=
  Program.wp_bind.mpr (Program.wp_mono first (fun _ _ never => never.elim) fun _ _ same => same)

theorem stopsOn_uninitialized {next : Memory → Kernel B}
    (rest : StopsOn storage reason (next storage) disk vis) :
    StopsOn storage reason (uninitialized >>= next) disk vis :=
  Program.wp_bind.mpr (Program.wp_ask.mpr rest)

/-- A program that stops cannot be relied on to return. -/
theorem StopsOn.not_ensures {program : Kernel A} {post : A → Disk → Counters → Prop}
    (stops : StopsOn storage reason program disk vis) :
    ¬ Ensures program post (fun _ => False) disk vis := by
  intro returns
  obtain ⟨value, after, ended, -⟩ := Program.wp_returns (ensures_iff.mp returns fun _ => storage)
  exact Program.wp_done stops ended

theorem stops_stop : Stops reason (Program.stop reason : Kernel A) disk vis := stopsOn_stop

theorem stops_bind {program : Kernel A} {next : A → Kernel B}
    (first : Ensures program (fun value disk vis => Stops reason (next value) disk vis)
      (fun _ => False) disk vis) : Stops reason (program >>= next) disk vis := stopsOn_bind first

theorem stops_bind_left {program : Kernel A} {next : A → Kernel B}
    (first : Stops reason program disk vis) : Stops reason (program >>= next) disk vis :=
  stopsOn_bind_left first

theorem stops_uninitialized {next : Memory → Kernel B}
    (rest : Stops reason (next fun _ => 0) disk vis) :
    Stops reason (uninitialized >>= next) disk vis := stopsOn_uninitialized rest

theorem Stops.not_ensures {program : Kernel A} {post : A → Disk → Counters → Prop}
    (stops : Stops reason program disk vis) :
    ¬ Ensures program post (fun _ => False) disk vis := StopsOn.not_ensures stops

end Rules

/-! ## Walking into nothing -/

/-- Entry `i` of this table is a directory called `name`. -/
def Directory.IsSubdirectory (dir : Directory) (name : Name) (i : Nat) : Prop :=
  i < 10 ∧ dir.Matches name i ∧ dir.type i = 0

/-- Looked up from directory `h`, some component of the path before its last
one is missing or names a file. -/
inductive NoDirectory (disk : Disk) : Int → Name → Prop where
  | missing {h : Int} {path : Name} {k : Nat} (split : path.firstSlash = some k)
      (none : ∀ i, ¬ (tableAt disk h).IsSubdirectory (path.take k) i) : NoDirectory disk h path
  | deeper {h : Int} {path : Name} {k i : Nat} (split : path.firstSlash = some k)
      (found : (tableAt disk h).IsSubdirectory (path.take k) i)
      (rest : NoDirectory disk ((tableAt disk h).sector i) (path.drop (k + 1))) :
      NoDirectory disk h path

section Walks

variable {layout : Layout} {disk disk' : Disk} {vis : Counters} {h : Int} {dir dir' : Directory}
  {name path : Name} {i k : Nat}

theorem Directory.Same.isSubdirectory_iff (same : Directory.Same dir dir') :
    dir.IsSubdirectory name i ↔ dir'.IsSubdirectory name i := by
  refine and_congr_right fun bound => ?_
  have entry := same.entry bound
  rw [entry.matches_iff, entry.type]

theorem Sheltered.subdirectory_known (sheltered : Sheltered layout disk) (known : h ∈ layout.dirs)
    (found : (tableAt disk h).IsSubdirectory name i) : (tableAt disk h).sector i ∈ layout.dirs := by
  obtain ⟨bound, ⟨used, -⟩, kind⟩ := found
  by_cases low : 2 ≤ i
  · have node := (sheltered.child known low bound used).2
    rw [decide_eq_true kind] at node
    exact node
  · obtain rfl | rfl : i = 0 ∨ i = 1 := by omega
    · rw [sheltered.dots h known]
      exact known
    · exact sheltered.parent_dir known

/-- Reading along the way does not make a directory appear. -/
theorem NoDirectory.quiet (bad : NoDirectory disk h path) (sheltered : Sheltered layout disk)
    (known : h ∈ layout.dirs) (quiet : Quiet layout disk disk') : NoDirectory disk' h path := by
  induction bad with
  | missing split none =>
    refine .missing split fun i found => none i ?_
    exact (quiet.same_table sheltered known).isSubdirectory_iff.mp found
  | deeper split found rest ih =>
    have same := quiet.same_table sheltered known
    refine .deeper split (same.isSubdirectory_iff.mpr found) ?_
    rw [(same.entry found.1).sector]
    exact ih (sheltered.subdirectory_known known found)

/-- Over zeroed storage the unterminated copy of a component is the component. -/
theorem Name.copied_component (split : path.firstSlash = some k) :
    Memory.splice (fun _ => 0) 0 k path.chars = Name.chars (path.take k) := by
  have bound : k < path.length := (List.findIdx?_eq_some_iff_findIdx_eq.mp split).1
  funext o
  unfold Memory.splice Name.chars
  by_cases inside : o < k
  · rw [if_pos ⟨Nat.zero_le o, by omega⟩, List.getD_eq_getElem?_getD, List.getD_eq_getElem?_getD,
      List.getElem?_take_of_lt inside, Nat.sub_zero]
  · rw [if_neg (by omega), List.getD_eq_getElem?_getD, List.getElem?_take_eq_none (by omega)]
    rfl

/-- `FindIndex` picks a directory that is called like the component. -/
theorem Directory.subdirectory_some (size : dir.tableSize = 10)
    (picked : dir.subdirectory name.chars = some i) : dir.IsSubdirectory name i := by
  have member := List.mem_of_getLast? picked
  simp only [List.mem_filter, List.mem_range, Bool.and_eq_true, beq_iff_eq, size] at member
  obtain ⟨bound, ⟨used, kind⟩, text⟩ := member
  exact ⟨bound, ⟨used, text⟩, kind⟩

theorem Directory.subdirectory_none (size : dir.tableSize = 10)
    (picked : dir.subdirectory name.chars = none) : ¬ dir.IsSubdirectory name i := by
  rintro ⟨bound, ⟨used, text⟩, kind⟩
  have empty := List.filter_eq_nil_iff.mp (List.getLast?_eq_none_iff.mp picked) i
    (List.mem_range.mpr (by omega))
  simp only [used, text, kind, beq_self_eq_true, Bool.and_self, not_true] at empty

/-- Two directories of one name would be the same entry. -/
theorem Sheltered.subdirectory_unique {j : Nat} (sheltered : Sheltered layout disk)
    (known : h ∈ layout.dirs) (found : (tableAt disk h).IsSubdirectory name i)
    (found' : (tableAt disk h).IsSubdirectory name j) : j = i :=
  sheltered.names h known j i found'.1 found.1 found'.2.1.1 found.2.1.1
    (Name.strncmpEq_trans found'.2.1.2 (Name.strncmpEq_symm found.2.1.2))

/-- The walk ends at an index of -1, in every directory of the tree. -/
theorem stops_findIndex (depth : Nat) (sheltered : Sheltered layout disk) (known : h ∈ layout.dirs)
    (same : Directory.Same dir (tableAt disk h)) (bad : NoDirectory disk h path) :
    Stops .undefined (Directory.findIndex depth dir path) disk vis := by
  induction depth generalizing disk vis h dir path with
  | zero => exact stops_stop
  | succ depth ih =>
    cases bad with
    | @missing _ _ k split none =>
      rw [Directory.findIndex, split]
      apply stops_uninitialized
      simp only [Name.copied_component split]
      cases picked : dir.subdirectory (Name.chars (path.take k)) with
      | none => exact stops_stop
      | some i =>
        have found := Directory.subdirectory_some same.size picked
        exact absurd (same.isSubdirectory_iff.mp found) (none i)
    | @deeper _ _ k i split found rest =>
      rw [Directory.findIndex, split]
      apply stops_uninitialized
      simp only [Name.copied_component split]
      have here := same.isSubdirectory_iff.mpr found
      cases picked : dir.subdirectory (Name.chars (path.take k)) with
      | none => exact absurd here (Directory.subdirectory_none same.size picked)
      | some j =>
        have found' := same.isSubdirectory_iff.mp (Directory.subdirectory_some same.size picked)
        obtain rfl := sheltered.subdirectory_unique known found found'
        have inside := sheltered.subdirectory_known known found
        simp only [(same.entry found.1).sector]
        apply stops_bind
        refine ensures_new_head sheltered (.inr (.inl inside)) ?_
        intro file _ current _
        apply stops_bind
        apply ensures_bind
        apply ensures_uninitialized
        intro storage
        apply ensures_pure
        apply stops_bind
        have rootValid : ValidSector rootSector := by decide
        refine ensures_fetchTable sheltered sheltered.whole inside current
          (Directory.make_fresh storage rootValid rootValid).size ?_
        intro dir' file' disk' same' _ _ quiet _
        apply stops_bind_left
        exact ih (quiet.sheltered sheltered) inside
          (same'.trans (quiet.same_table sheltered inside).symm)
          (rest.quiet sheltered inside quiet)

end Walks

/-! ## The three operations -/

section Operations

variable {layout : Layout} {disk disk' : Disk} {vis : Counters} {fs : FileSystem} {path : Name}

/-- What a refused operation must leave as it is. -/
structure Untouched (layout : Layout) (disk disk' : Disk) : Prop where
  map : ∀ s, (diskMap disk').Marked s ↔ (diskMap disk).Marked s
  tables : ∀ h ∈ layout.dirs, Directory.Same (tableAt disk' h) (tableAt disk h)
  contents : ∀ h ∈ layout.files, (headerAt disk' h).numBytes = (headerAt disk h).numBytes ∧
    ∀ o : Nat, o < (headerAt disk h).numBytes →
      fileByte disk' (headerAt disk' h) o = fileByte disk (headerAt disk h) o

/-- `Create`, `Open` and `Remove` all report failure on this path, stop on no
fault and change nothing. -/
structure RefusesPath (layout : Layout) (fs : FileSystem) (disk : Disk) (vis : Counters)
    (path : Name) : Prop where
  create : ∀ size, Ensures (fs.Create path size)
    (fun result disk' _ => result.1 = false ∧ Untouched layout disk disk') (fun _ => False) disk vis
  opens : Ensures (fs.Open path)
    (fun result disk' _ => result.1 = none ∧ Untouched layout disk disk') (fun _ => False) disk vis
  remove : Ensures (fs.Remove path)
    (fun result disk' _ => result.1 = false ∧ Untouched layout disk disk') (fun _ => False) disk vis

/-- The root's table is fetched, and looking a path up there stops the kernel. -/
theorem stopsOn_findInRoot {A : Type} {storage : Memory} {reason : Fault} {next : Directory × OpenFile → Kernel A}
    {last : Directory × OpenFile → Int → Kernel A} (sheltered : Sheltered layout disk)
    (mounted : Mounted fs disk) (shape : ∀ fetched, next fetched = fetched.1.Find path >>= last fetched)
    (stops : ∀ disk' vis dir, Quiet layout disk disk' → Directory.Same dir (tableAt disk' 1) →
      StopsOn storage reason (dir.FindIndex path) disk' vis) :
    StopsOn storage reason (Directory.new NumDirEntries >>= fun directory =>
      directory.FetchFrom fs.directoryFile >>= next) disk vis := by
  apply stopsOn_bind
  apply ensures_bind
  apply ensures_uninitialized
  intro storage'
  apply ensures_pure
  apply stopsOn_bind
  have rootValid : ValidSector rootSector := by decide
  refine ensures_fetchTable sheltered sheltered.whole sheltered.root mounted.root
    (Directory.make_fresh storage' rootValid rootValid).size ?_
  intro dir file' disk' same _ _ quiet _
  rw [shape]
  apply stopsOn_bind_left
  apply stopsOn_bind_left
  exact stops disk' vis dir quiet (same.trans (quiet.same_table sheltered sheltered.root).symm)

theorem stops_findInRoot {A : Type} {next : Directory × OpenFile → Kernel A}
    {last : Directory × OpenFile → Int → Kernel A} (sheltered : Sheltered layout disk)
    (mounted : Mounted fs disk) (bad : NoDirectory disk 1 path)
    (shape : ∀ fetched, next fetched = fetched.1.Find path >>= last fetched) :
    Stops .undefined (Directory.new NumDirEntries >>= fun directory =>
      directory.FetchFrom fs.directoryFile >>= next) disk vis :=
  stopsOn_findInRoot sheltered mounted shape fun _ _ _ quiet same =>
    stops_findIndex _ (quiet.sheltered sheltered) sheltered.root same (bad.quiet sheltered sheltered.root quiet)

/-- `Remove` walks the whole path. -/
theorem stops_Remove (sheltered : Sheltered layout disk) (mounted : Mounted fs disk)
    (bad : NoDirectory disk 1 path) : Stops .undefined (fs.Remove path) disk vis :=
  stops_findInRoot sheltered mounted bad fun _ => rfl

/-- `Create` and `Open` walk the directory part alone, so they stop in the walk
when one of its own components before the last is missing. -/
theorem stops_Create {size : Int} (sheltered : Sheltered layout disk) (mounted : Mounted fs disk)
    (bad : NoDirectory disk 1 (FileSystem.splitPath path).1) :
    Stops .undefined (fs.Create path size) disk vis :=
  stops_findInRoot sheltered mounted bad fun _ => rfl

theorem stops_Open (sheltered : Sheltered layout disk) (mounted : Mounted fs disk)
    (bad : NoDirectory disk 1 (FileSystem.splitPath path).1) :
    Stops .undefined (fs.Open path) disk vis :=
  stops_findInRoot sheltered mounted bad fun _ => rfl

/-- With no directory part there at all, `Create` asks for sector -1. -/
theorem ensures_Create_lost {size : Int} (sheltered : Sheltered layout disk)
    (mounted : Mounted fs disk) (safe : SafePath disk path)
    (missing : (tableAt disk 1).entryIndex (FileSystem.splitPath path).1 = none) :
    Ensures (fs.Create path size) (fun _ _ _ => False) (fun reason => reason = .assertion)
      disk vis := by
  unfold FileSystem.Create
  refine ensures_openDirectory (FileSystem.createIn path size) sheltered sheltered.reach mounted safe (fun _ => rfl) ?_
  intro fs' p dir file disk' place known
  have lost : (tableAt disk 1).lookup (FileSystem.splitPath path).1 = -1 := by
    unfold Directory.lookup
    rw [missing]
  have valid := sheltered.valid_head (.inr (.inl known))
  rw [place, lost] at valid
  exact absurd valid (by decide)

/-- In no state is a path whose directory part leads nowhere refused. -/
theorem bad_path_never_refused (sheltered : Sheltered layout disk) (mounted : Mounted fs disk)
    (bad : NoDirectory disk 1 path) : ¬ RefusesPath layout fs disk vis path := by
  intro refuses
  exact (stops_Remove sheltered mounted bad).not_ensures refuses.remove

/-- The path `"a/x"`. -/
def pathAX : Name := nameA ++ [slash, 120]

theorem Formatted.no_directory {before : Disk} (formatted : Formatted before disk) :
    NoDirectory disk 1 pathAX := by
  refine @NoDirectory.missing _ _ _ 1 (by decide) ?_
  rintro i ⟨bound, here, -⟩
  have absent : (tableAt disk 1).entryIndex nameA = none :=
    formatted.absent (by decide) (by decide)
  exact Directory.entryIndex_none absent bound here

theorem bad_path_on_new_disk : ∃ fs booted,
    FileSystem.format.run SynchDisk.handle zeroMachine = .done fs booted ∧
      NoDirectory booted.disk 1 pathAX ∧
      ¬ RefusesPath emptyLayout fs booted.disk booted.visNum pathAX := by
  obtain ⟨fs, booted, ran, ⟨formatted, mounted⟩, -⟩ := zeroMachine_blank.formats
  have bad := formatted.no_directory
  exact ⟨fs, booted, ran, bad, bad_path_never_refused formatted.sheltered mounted bad⟩

/-- `Create("a/x", 0)` on a new disk fails the `ASSERT` in `ReadRequest`. -/
theorem create_in_missing_directory_asserts : ∃ fs booted,
    FileSystem.format.run SynchDisk.handle zeroMachine = .done fs booted ∧
      pathAX.absPath = true ∧ NoDirectory booted.disk 1 pathAX ∧
      Ensures (fs.Create pathAX 0) (fun _ _ _ => False) (fun reason => reason = .assertion)
        booted.disk booted.visNum ∧
      Stops .undefined (fs.Remove pathAX) booted.disk booted.visNum ∧
      ¬ RefusesPath emptyLayout fs booted.disk booted.visNum pathAX := by
  obtain ⟨fs, booted, ran, ⟨formatted, mounted⟩, -⟩ := zeroMachine_blank.formats
  have absent : (tableAt booted.disk 1).entryIndex nameA = none :=
    formatted.absent (by decide) (by decide)
  have safe : SafePath booted.disk pathAX := by
    refine ⟨by decide, by decide, fun i found => ?_⟩
    rw [show (FileSystem.splitPath pathAX).1 = nameA by decide, absent] at found
    cases found
  have asserts : Ensures (fs.Create pathAX 0) (fun _ _ _ => False)
      (fun reason => reason = .assertion) booted.disk booted.visNum :=
    ensures_Create_lost formatted.sheltered mounted safe absent
  have bad := formatted.no_directory
  refine ⟨fs, booted, ran, by decide, bad, asserts,
    stops_Remove formatted.sheltered mounted bad, fun refuses => ?_⟩
  obtain ⟨_, _, _, -, never⟩ := ensures_both (refuses.create 0) asserts
  exact never

end Operations
end Nachos
