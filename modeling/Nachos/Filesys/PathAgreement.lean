import Nachos.Filesys.PathLookup
import Nachos.Filesys.ReadBack
import Nachos.Filesys.OpenCounters

/-! Whether `Create`, `Open` and `Remove` mean the same file by a path. `Create` and
`Open` look the last name up in the table of its directory; `Remove` looks the whole path
up from the root, and changes the root's table. -/
namespace Nachos
open Effects FileHeader OpenFile

/-- A run of `Create` that returned `TRUE`, and where it left the kernel. -/
def Creates (fs : FileSystem) (disk : Disk) (vis : Counters) (name : Name) (size : Int)
    (fs' : FileSystem) (disk' : Disk) (vis' : Counters) : Prop :=
  ∃ supply after, (fs.Create name size).run Store.handle { disk := disk, visNum := vis, supply := supply } =
    .done (true, fs') after ∧ after.disk = disk' ∧ after.visNum = vis'

/-- Entry `i` of directory `d` is new, has this name and the header in sector `s`, which
was free. -/
structure Made (disk disk' : Disk) (d : Int) (last : Name) (i : Nat) (s : Int) : Prop where
  free : (tableAt disk d).inUse i = false
  entry : (tableAt disk' d).entryIndex last = some i
  sector : (tableAt disk' d).sector i = s
  fresh : ¬ (diskMap disk).Marked s
  taken : (diskMap disk').Marked s

/-- The sectors of the file in sector `s` are free again and its entry is unused; no other
entry is touched. -/
structure Unmade (layout : Layout) (disk disk' : Disk) (d : Int) (i : Nat) (s : Int) : Prop where
  map : ∀ t, (diskMap disk').Marked t ↔ (diskMap disk).Marked t ∧ t ∉ claimed disk s
  own : Directory.Same (tableAt disk' d) ((tableAt disk d).setInUse i false)
  others : ∀ p ∈ layout.dirs, p ≠ d → Directory.Same (tableAt disk' p) (tableAt disk p)

/-- `Open` and `Remove` mean the file in sector `s` by the name. -/
structure MeansFile (layout : Layout) (fs : FileSystem) (disk : Disk) (vis : Counters) (name : Name)
    (d : Int) (i : Nat) (s : Int) : Prop where
  opens : Ensures (fs.Open name)
    (fun result disk' _ => ∃ file, result.1 = some file ∧ Current disk' file s ∧ file.hdr.sectorNumber = s)
    (fun _ => False) disk vis
  removes : vis s = 0 → Ensures (fs.Remove name)
    (fun result disk' _ => result.1 = true ∧ Unmade layout disk disk' d i s) (fun _ => False) disk vis

/-- No other defect of `Create` shows: the extension fits in the header, a new directory's
sector can be reused, and a file of nine sectors or more gets sectors below 128. -/
structure Unhurt (disk : Disk) (name : Name) (size : Int) : Prop where
  short : ShortExtension name
  kind : (size = -1 ∧ ReusableHeader disk) ∨ ∃ n : Nat, size = n ∧ sectorsFor n ≤ 40 ∧
    (9 ≤ sectorsFor n → sectorsFor n + 2 ≤ (diskMap disk).clearBelow 128)

section Agreement

variable {layout : Layout} {disk disk' : Disk} {vis vis' : Counters} {fault : Fault → Prop} {fs fs' : FileSystem}
  {name : Name} {size : Int} {d s : Int} {i : Nat}

theorem Creates.ensures {post : Bool × FileSystem → Disk → Counters → Prop}
    (creates : Creates fs disk vis name size fs' disk' vis')
    (holds : Ensures (fs.Create name size) post fault disk vis) : post (true, fs') disk' vis' := by
  obtain ⟨supply, after, ran, rfl, rfl⟩ := creates
  have ended := Program.wp_done (ensures_iff.mp holds supply) ran
  exact ended

/-- A file of nine sectors or more took the first sectors that were free. -/
theorem smallEntries_of_clearBelow {n : Nat} {hs : Int} (first : FirstFree disk hs) (headed : Headed disk' hs n)
    (recycled : Recycled disk disk' hs n) (taken : (diskMap disk).Takes (claimed disk' hs) (diskMap disk'))
    (enough : 9 ≤ sectorsFor n → sectorsFor n + 2 ≤ (diskMap disk).clearBelow 128) :
    SmallEntries disk' hs := by
  intro k far inside
  rw [headed.sectors] at inside
  have large : 9 ≤ sectorsFor n := by omega
  obtain ⟨freeMap, header, least, -⟩ := recycled.places
  have recordedLeast := least large
  have all : (diskMap disk).Takes (hs :: recorded disk' (headerAt disk' hs) (sectorsFor n)) (diskMap disk') :=
    header.append recordedLeast.toTakes
  have below : ∀ t ∈ hs :: recorded disk' (headerAt disk' hs) (sectorsFor n), ∀ u, 0 ≤ u → u < t →
      (diskMap disk').Marked u := by
    intro t member u low less
    rcases List.mem_cons.mp member with rfl | later
    · exact (all.exactly u).mpr (.inl (first.2 u low less))
    · exact recordedLeast.below t later u low less
  have bits : (diskMap disk).numBits = 1024 := rfl
  have limits := (all.all_below_iff below (show 128 ≤ _ by omega)).mpr (by
    rw [List.length_cons, length_recorded, need]
    split
    · omega
    · exact enough large)
  have entry : dataSector disk' (headerAt disk' hs) k ∈ recorded disk' (headerAt disk' hs) (sectorsFor n) := by
    rw [mem_recorded]
    exact .inl (List.mem_map.mpr ⟨k, List.mem_range.mpr (by omega), rfl⟩)
  exact limits _ (List.mem_cons_of_mem _ entry)

/-- What a run of `Create` on a safe path has made. -/
theorem Creates.created (creates : Creates fs disk vis name size fs' disk' vis')
    (sheltered : Sheltered layout disk) (mounted : Mounted fs disk) (safe : SafePath disk name)
    (unhurt : Unhurt disk name size) : ∃ hs i isDir len,
      Created layout disk disk' ((tableAt disk 1).lookup (FileSystem.splitPath name).1) hs i
        (FileSystem.splitPath name).2 isDir len ∧ Mounted fs' disk' ∧ vis' = vis ∧ SmallEntries disk' hs := by
  rcases unhurt.kind with ⟨rfl, reusable⟩ | ⟨n, rfl, fits, enough⟩
  · have made : Ensures (fs.Create name (-1)) (fun result disk' vis' => result.1 = true →
        ∃ hs i, Created layout disk disk' ((tableAt disk 1).lookup (FileSystem.splitPath name).1) hs i
          (FileSystem.splitPath name).2 true 360 ∧ Mounted result.2 disk' ∧ vis' = vis) (fun _ => True)
        disk vis := by
      refine ensures_Create_directory sheltered mounted safe reusable (fun _ => trivial) ?_ ?_
      · intro _ _ _ _ _ impossible
        exact absurd impossible Bool.false_ne_true
      · rintro fs' disk' p hs i rfl - created mounted' -
        exact ⟨hs, i, created, mounted', rfl⟩
    obtain ⟨hs, i, created, mounted', rfl⟩ := creates.ensures made rfl
    refine ⟨hs, i, true, 360, created, mounted', rfl, fun k far inside => ?_⟩
    rw [created.headed.sectors] at inside
    have three : sectorsFor 360 = 3 := rfl
    omega
  · have made : Ensures (fs.Create name n) (fun result disk' vis' => result.1 = true →
        ∃ hs i, FirstFree disk hs ∧ Created layout disk disk'
          ((tableAt disk 1).lookup (FileSystem.splitPath name).1) hs i (FileSystem.splitPath name).2 false n ∧
          Recycled disk disk' hs n ∧ Mounted result.2 disk' ∧ vis' = vis) (fun _ => True) disk vis := by
      refine ensures_Create_file sheltered sheltered.reach mounted safe unhurt.short fits ?_
        (fun _ _ => trivial) ?_ ?_
      · intro large exact_
        have room := enough large
        have bits : (diskMap disk).numBits = 1024 := rfl
        have most := BitMap.clearBelow_le_freeCount (show 128 ≤ (diskMap disk).numBits by omega)
        omega
      · intro _ _ _ _ _ impossible
        exact absurd impossible Bool.false_ne_true
      · rintro fs' disk' p hs i rfl first created recycled mounted' -
        exact ⟨hs, i, first, created, recycled, mounted', rfl⟩
    obtain ⟨hs, i, first, created, recycled, mounted', rfl⟩ := creates.ensures made rfl
    exact ⟨hs, i, false, n, created, mounted', rfl,
      smallEntries_of_clearBelow first created.headed recycled created.taken enough⟩

section Made

variable {last : Name} {isDir : Bool} {len : Nat}

theorem Created.made (created : Created layout disk disk' d s i last isDir len)
    (sheltered : Sheltered layout disk) : Made disk disk' d last i s where
  free := (created.slot_bounds sheltered).2.2
  entry := created.entryIndex_new sheltered
  sector := (created.new_entry sheltered).2.1
  fresh := created.header_fresh.1
  taken := (created.marks s).mpr (.inr ⟨(s, .header), rfl, rfl⟩)

theorem mem_dirs_add {p : Int} (known : p ∈ layout.dirs) : p ∈ (layout.add s isDir).dirs := by
  unfold Layout.add
  split
  · exact .inr known
  · exact known

/-- `Open` finds the entry that was made. -/
theorem Created.opens (sheltered : Sheltered layout disk) (safe : SafePath disk name)
    (place : d = (tableAt disk 1).lookup (FileSystem.splitPath name).1)
    (created : Created layout disk disk' d s i (FileSystem.splitPath name).2 isDir len)
    (mounted : Mounted fs' disk') : Ensures (fs'.Open name)
      (fun result disk' _ => ∃ file, result.1 = some file ∧ Current disk' file s ∧ file.hdr.sectorNumber = s)
      (fun _ => False) disk' vis := by
  have sheltered' := created.sheltered sheltered
  obtain ⟨safe', place'⟩ := created.path sheltered safe place
  have entry := created.entryIndex_new sheltered
  refine ensures_Open sheltered' sheltered'.reach mounted safe' ?_ ?_ ?_
  · intro missing
    have low := (sheltered.valid_head (.inr (.inl created.parent))).1
    rw [Directory.lookup, missing] at place'
    dsimp only at place'
    omega
  · intro fs'' disk'' p found _ absent _ _
    rw [found, ← place', entry] at absent
    cases absent
  · intro fs'' file disk'' p j t there _ found sector quiet _ head current _
    rw [there, ← place', entry] at found
    cases found
    rw [there, ← place', (created.new_entry sheltered).2.1] at sector
    rw [← sector] at head current
    exact ⟨file, rfl, current, (quiet.sheltered sheltered').number head current⟩

/-- `Remove` undoes what `Create` made under a single name. -/
theorem Created.removes (sheltered : Sheltered layout disk) (plain : name.Plain)
    (created : Created layout disk disk' 1 s i name isDir len) (mounted : Mounted fs' disk')
    (small : SmallEntries disk' s) (busy : vis 1 ≠ 0) (closed : vis s = 0) :
    Ensures (fs'.Remove name) (fun result disk'' _ => result.1 = true ∧ Unmade layout disk' disk'' 1 i s)
      (fun _ => False) disk' vis := by
  have sheltered' := created.sheltered sheltered
  have entry := created.entryIndex_new sheltered
  obtain ⟨-, sector, kind, -⟩ := created.new_entry sheltered
  refine ensures_Remove sheltered' sheltered'.whole mounted plain busy ?_ ?_ ?_
  · intro j found _
    rw [entry] at found
    cases found
    refine ⟨fun isDirectory k c => ?_, sector ▸ small⟩
    rw [sector]
    rw [isDirectory] at kind
    have flag : isDir = true := by rw [← kind]; rfl
    exact flag ▸ created.bare k c
  · rintro fs'' disk'' - - (absent | ⟨j, found, opened⟩)
    · rw [entry] at absent
      cases absent
    · rw [entry] at found
      cases found
      rw [sector] at opened
      exact absurd closed opened
  · intro fs'' disk'' e j flag found at_ _ removed _
    rw [entry] at found
    cases found
    rw [sector] at at_
    subst at_
    exact ⟨rfl, removed.released.exactly, removed.entry,
      fun p known other => removed.other_table sheltered' (mem_dirs_add known) other⟩

end Made

/-! ## Paths of two components -/

section Two

variable {c last : Name} {h : Int} {hdr : FileHeader} {freeMap : BitMap}

theorem Name.lastSlash_some {k : Nat} (found : name.lastSlash = some k) :
    0 < k ∧ k < name.length ∧ name = name.take k ++ slash :: name.drop (k + 1) := by
  have member := List.mem_of_getLast? found
  simp only [List.mem_filter, List.mem_range, Bool.and_eq_true, decide_eq_true_eq, beq_iff_eq] at member
  obtain ⟨bound, positive, here⟩ := member
  rw [List.getD_eq_getElem?_getD, List.getElem?_eq_getElem bound, Option.getD_some] at here
  refine ⟨positive, bound, ?_⟩
  rw [← here, ← List.drop_eq_getElem_cons bound, List.take_append_drop]

/-- A safe path that is no single name is a directory of the root and a name in it. -/
theorem SafePath.two (safe : SafePath disk name) (several : ¬ name.Plain) : ∃ c last : Name,
    name = c ++ slash :: last ∧ FileSystem.splitPath name = (c, last) ∧ c ≠ [] ∧ c.Plain ∧ last.Plain := by
  cases found : name.lastSlash with
  | none =>
    have split : FileSystem.splitPath name = ([dot], name) := by
      unfold FileSystem.splitPath Name.absPath
      rw [found]
      rfl
    have last := safe.last
    rw [split] at last
    exact absurd last several
  | some k =>
    obtain ⟨positive, inside, whole⟩ := Name.lastSlash_some found
    have split : FileSystem.splitPath name = (name.take k, name.drop (k + 1)) := by
      unfold FileSystem.splitPath Name.absPath Name.getAbsDir Name.getRealName
      rw [found]
      rfl
    have first := safe.first
    have last := safe.last
    rw [split] at first last
    refine ⟨name.take k, name.drop (k + 1), whole, split, fun empty => ?_, first, last⟩
    have length := congrArg List.length empty
    rw [List.length_take, List.length_nil] at length
    omega

/-- The directory part of a safe path that leads somewhere. -/
theorem SafePath.walks (safe : SafePath disk name) (split : FileSystem.splitPath name = (c, last))
    (place : d = (tableAt disk 1).lookup c) (low : 0 ≤ d) : Walks disk 1 [c] d := by
  cases found : (tableAt disk 1).entryIndex c with
  | none =>
    rw [Directory.lookup, found] at place
    dsimp only at place
    omega
  | some j =>
    have sector : (tableAt disk 1).sector j = d := by
      rw [Directory.lookup, found] at place
      exact place.symm
    have kind := safe.directory j (by rw [split]; exact found)
    refine .down found kind ?_
    rw [sector]
    exact .here d

/-- A name of twenty characters or more is neither `"."` nor `".."`, so it does not lead
back to the root. -/
theorem Walks.ne_root (walks : Walks disk 1 [c] d) (sheltered : Sheltered layout disk)
    (text : ∀ ch ∈ c, ch ≠ 0) (long : 20 ≤ c.length) : d ≠ 1 := by
  cases walks with
  | @down _ _ _ _ j found kind rest =>
    cases rest with
    | here =>
      obtain ⟨bound, used, equal⟩ := Directory.entryIndex_some found
      have char : ∀ k, k < 20 → c.chars k ≠ 0 := fun k inside => by
        rw [Name.chars, List.getD_eq_getElem?_getD, List.getElem?_eq_getElem (by omega), Option.getD_some]
        exact text _ (List.getElem_mem _)
      obtain ⟨self, dad⟩ := sheltered.self 1 sheltered.root
      have low : 2 ≤ j := by
        by_contra small
        obtain rfl | rfl : j = 0 ∨ j = 1 := by omega
        · have same := Name.strncmpEq_trans (Name.strncmpEq_symm self.2) equal
          have compared := Name.strncmpEq_iff.mp same 1 (by decide) (by decide)
          exact char 1 (by omega) compared.symm
        · have same := Name.strncmpEq_trans (Name.strncmpEq_symm dad.2) equal
          have compared := Name.strncmpEq_iff.mp same 2 (by decide) (by decide)
          exact char 2 (by omega) compared.symm
      obtain ⟨link, -⟩ := sheltered.child sheltered.root low bound used
      have apart := (sheltered.tree.closed (1, true) j _ (show layout.Node (1, true) from sheltered.root) link).2
      intro top
      rw [top, decide_eq_true kind] at apart
      exact apart rfl

/-! What `Remove` cannot do there -/

theorem ensures_visNum_any {post : Int → Disk → Counters → Prop} (allowed : ∀ reason, fault reason)
    (holds : post (vis s) disk vis) : Ensures (visNum s) post fault disk vis := by
  by_cases valid : ValidSector s
  · exact ensures_visNum valid holds
  · refine ensures_iff.mpr fun supply => Program.wp_ask.mpr ?_
    simp only [Store.handle, if_neg valid]
    exact allowed _

theorem ensures_checked_any {A : Type} {result : Except Fault A} {post : A → Disk → Counters → Prop}
    (allowed : ∀ reason, fault reason) (holds : ∀ value, result = .ok value → post value disk vis) :
    Ensures (checked result) post fault disk vis := by
  cases computed : result with
  | error reason => exact ensures_stop (allowed reason)
  | ok value => exact ensures_pure (holds value computed)

theorem BitMap.numBits_Clear {bitmap after : BitMap} (cleared : bitmap.Clear s = .ok after) :
    after.numBits = bitmap.numBits := by
  unfold BitMap.Clear at cleared
  cases index : bitmap.index s with
  | error reason =>
    rw [index] at cleared
    cases cleared
  | ok which =>
    rw [index] at cleared
    cases cleared
    rfl

theorem numBits_foldlM {A : Type} {step : BitMap → A → Except Fault BitMap}
    (keeps : ∀ bitmap a after, step bitmap a = .ok after → after.numBits = bitmap.numBits)
    (list : List A) {bitmap after : BitMap} (ran : list.foldlM step bitmap = .ok after) :
    after.numBits = bitmap.numBits := by
  induction list generalizing bitmap with
  | nil =>
    cases ran
    rfl
  | cons a list ih =>
    rw [List.foldlM_cons] at ran
    cases first : step bitmap a with
    | error reason =>
      rw [first] at ran
      cases ran
    | ok between =>
      rw [first] at ran
      exact (ih ran).trans (keeps _ _ _ first)

/-- Whatever the header says, `Deallocate` writes no sector. -/
theorem ensures_Deallocate_any {post : BitMap → Disk → Counters → Prop} (allowed : ∀ reason, fault reason)
    (holds : ∀ after, after.numBits = freeMap.numBits → post after disk vis) :
    Ensures (hdr.Deallocate freeMap) post fault disk vis := by
  unfold FileHeader.Deallocate
  split
  · refine ensures_checked_any allowed fun after ran => holds after (numBits_foldlM ?_ _ ran)
    intro bitmap k after step
    cases tested : bitmap.Test (hdr.dataSectors k) with
    | error reason =>
      rw [tested] at step
      cases step
    | ok set =>
      rw [tested] at step
      cases set with
      | true => exact BitMap.numBits_Clear step
      | false => cases step
  · apply ensures_bind
    refine ensures_ReadSector_or_assert (allowed _) fun _ => ?_
    dsimp only
    split
    · exact ensures_stop (allowed _)
    · apply ensures_bind
      refine ensures_checked_any allowed fun between ran => ?_
      refine ensures_checked_any allowed fun after ran' => holds after ?_
      have first := numBits_foldlM (fun _ _ _ => BitMap.numBits_Clear) _ ran
      have second := numBits_foldlM (fun _ _ _ => BitMap.numBits_Clear) _ ran'
      exact second.trans first

/-- Along long components `Remove` may do anything to the root's table and the free map,
but it leaves the table the path leads to. -/
theorem ensures_Remove_spares {front : List Name} (allowed : ∀ reason, fault reason)
    (sheltered : Sheltered layout disk) (mounted : Mounted fs disk) (walks : Walks disk 1 front h)
    (proper : ∀ c ∈ front, Component c) (plain : last.Plain) (long : ∀ c ∈ front, 20 ≤ c.length)
    (nested : h ≠ 1) :
    Ensures (fs.Remove (joined front last))
      (fun _ disk' _ => Directory.Same (tableAt disk' h) (tableAt disk h)) fault disk vis := by
  have known : h ∈ layout.dirs := walks.known sheltered sheltered.root
  have rootValid : ValidSector rootSector := by decide
  unfold FileSystem.Remove
  apply ensures_bind
  apply ensures_bind
  apply ensures_uninitialized
  intro storage
  apply ensures_pure
  apply ensures_bind
  refine ensures_fetchTable sheltered sheltered.whole sheltered.root mounted.root
    (Directory.make_fresh storage rootValid rootValid).size ?_
  intro root rootFile disk₁ same₁ current₁ _ quiet₁ _
  have sheltered₁ := quiet₁.sheltered sheltered
  have original := (quiet₁.same_table sheltered sheltered.root).symm
  apply ensures_bind
  have reads : Ensures (root.Find (joined front last))
      (fun _ disk₂ vis' => Quiet layout disk₁ disk₂ ∧ vis = vis') fault disk₁ vis :=
    ensures_Find_long sheltered₁ (same₁.trans original) (walks.quiet sheltered sheltered.root quiet₁)
      proper plain long fun _ quiet₂ => ⟨quiet₂, rfl⟩
  refine ensures_post reads ?_
  rintro found disk₂ vis' ⟨quiet₂, rfl⟩
  have near : Quiet layout disk disk₂ := Frame.trans quiet₁ quiet₂
  have sheltered₂ := near.sheltered sheltered
  dsimp only
  split
  · exact ensures_pure (near.same_table sheltered known)
  apply ensures_bind
  apply ensures_visNum_any allowed
  split
  · exact ensures_pure (near.same_table sheltered known)
  apply ensures_bind
  apply ensures_bind
  refine ensures_ReadSector_or_assert (allowed _) fun valid => ?_
  apply ensures_pure
  apply ensures_bind
  apply BitMap.ensures_create
  intro blank blankBits _
  apply ensures_bind
  refine ensures_fetchMap sheltered₂ ((mounted.quiet sheltered near).map) (by rw [blankBits]; rfl) ?_
  intro fetched mapFile disk₃ fetchedSame mapCurrent fetches _
  have quiet₃ : Quiet layout disk disk₃ := Frame.trans near (fetches layout)
  have sheltered₃ := quiet₃.sheltered sheltered
  have same₃ : Directory.Same root (tableAt disk₃ 1) :=
    same₁.trans (quiet₃.same_table sheltered sheltered.root).symm
  apply ensures_bind
  refine ensures_Deallocate_any allowed fun freed freedBits => ?_
  apply ensures_bind
  refine ensures_checked_any allowed fun cleared computed => ?_
  have size : cleared.numBits = 1024 :=
    (BitMap.numBits_Clear computed).trans (freedBits.trans fetchedSame.size)
  apply ensures_bind
  unfold Directory.Remove Directory.FindIndex
  apply ensures_bind
  have deep : front.length < (joined front last).length + 1 :=
    Nat.lt_succ_of_le (length_joined front last)
  refine ensures_findIndex _ deep sheltered₃ sheltered.root same₃
    (walks.quiet sheltered sheltered.root quiet₃) proper plain long fun disk₄ quiet₄ => ?_
  have quiet₅ : Quiet layout disk disk₄ := Frame.trans quiet₃ quiet₄
  have sheltered₄ := quiet₅.sheltered sheltered
  have written : ∀ edited : Directory, edited.tableSize = 10 →
      Ensures (do
        let freeMapFile ← cleared.WriteBack mapFile
        let directoryFile ← edited.WriteBack rootFile
        return (true, { freeMapFile := freeMapFile, directoryFile := directoryFile : FileSystem }))
      (fun _ disk' _ => Directory.Same (tableAt disk' h) (tableAt disk h)) fault disk₄ vis := by
    intro edited entries
    apply ensures_bind
    refine ensures_writeMap sheltered₄.map (mapCurrent.quiet quiet₄ (.inl rfl)) size ?_
    intro mapFile' disk₅ _ zero₅ _ frame₅
    apply ensures_bind
    refine ensures_writeTable sheltered₄ sheltered.root ?_ entries ?_
    · exact current₁.quiet (Frame.trans quiet₂ (Frame.trans (fetches layout) quiet₄)) (.inr (.inl sheltered.root))
    intro rootFile' disk₆ _ parent₆ _ frame₆
    apply ensures_pure
    have edited : Edited layout disk₄ disk₆ 1 :=
      edited_of_removal sheltered.root zero₅ frame₅ parent₆ frame₆
    exact (edited.other_table sheltered₄ known nested).trans (quiet₅.same_table sheltered known)
  split
  · apply ensures_pure
    exact written root same₁.size
  · apply ensures_pure
    exact written _ same₁.size

end Two

/-! ## The two lookups -/

/-- With no handle open, a path that means the same file to `Remove` is a single name:
a short directory name before it may lead nowhere, and with a long one the entry stays
in its table. -/
theorem MeansFile.plain {scope : Layout} (sheltered : Sheltered layout disk) (mounted : Mounted fs disk)
    (safe : SafePath disk name) (text : ∀ ch ∈ name, ch ≠ 0)
    (place : d = (tableAt disk 1).lookup (FileSystem.splitPath name).1) (low : 0 ≤ d)
    (entry : (tableAt disk d).entryIndex (FileSystem.splitPath name).2 = some i)
    (means : MeansFile scope fs disk vis name d i s) (closed : vis s = 0) : name.Plain := by
  by_contra several
  obtain ⟨c, last, whole, split, nonempty, first, plain⟩ := safe.two several
  rw [split] at place entry
  have letters : ∀ ch ∈ c, ch ≠ 0 := fun ch member =>
    text ch (by rw [whole]; exact List.mem_append_left _ member)
  have walks : Walks disk 1 [c] d := safe.walks split place low
  have proper : ∀ c' ∈ [c], Component c' := fun c' member => by
    rw [List.mem_singleton] at member
    rw [member]
    exact ⟨nonempty, first, letters⟩
  have joins : name = joined [c] last := whole
  have removes := means.removes closed
  by_cases long : 20 ≤ c.length
  · have nested := walks.ne_root sheltered letters long
    have every : ∀ c' ∈ [c], 20 ≤ c'.length := fun c' member => by
      rw [List.mem_singleton.mp member]
      exact long
    have spares : Ensures (fs.Remove (joined [c] last))
        (fun _ disk' _ => Directory.Same (tableAt disk' d) (tableAt disk d)) (fun _ => True) disk vis :=
      ensures_Remove_spares (fun _ => trivial) sheltered mounted walks proper plain every nested
    rw [joins] at removes
    obtain ⟨_, disk', _, ⟨-, unmade⟩, kept⟩ := ensures_both removes spares
    obtain ⟨bound, used, -⟩ := Directory.entryIndex_some entry
    have gone : (tableAt disk' d).inUse i = false := by
      rw [(unmade.own.entry bound).inUse, Directory.inUse_setInUse]
    rw [(kept.entry bound).inUse, used] at gone
    cases gone
  · have short : ∃ c' ∈ [c], c'.length < 20 := ⟨c, List.mem_singleton_self c, by omega⟩
    have deep : [c].length < name.length + 1 := by
      rw [whole, List.length_append, List.length_cons]
      simp only [List.length_cons, List.length_nil]
      omega
    obtain ⟨b, stops⟩ := exists_stops_findIndex last _ deep sheltered sheltered.root walks proper short
    have never : StopsOn (fun _ => b) .undefined (fs.Remove name) disk vis := by
      refine stopsOn_findInRoot sheltered mounted (fun _ => rfl) fun disk' vis' dir quiet same => ?_
      rw [Directory.FindIndex, joins]
      rw [joins] at stops
      exact stops disk' vis' dir quiet same
    exact never.not_ensures removes

/-- `Create`, `Open` and `Remove` mean the same file by a path exactly when it is a single
name, or a handle on the new file is counted so that `Remove` need not remove it. -/
theorem create_open_remove_agree (sheltered : Sheltered layout disk) (mounted : Mounted fs disk)
    (busy : vis 1 ≠ 0) (safe : SafePath disk name) (text : ∀ ch ∈ name, ch ≠ 0)
    (unhurt : Unhurt disk name size) (creates : Creates fs disk vis name size fs' disk' vis') : ∃ i s,
      Made disk disk' ((tableAt disk 1).lookup (FileSystem.splitPath name).1) (FileSystem.splitPath name).2 i s ∧
      (MeansFile layout fs' disk' vis' name ((tableAt disk 1).lookup (FileSystem.splitPath name).1) i s ↔
        name.Plain ∨ vis' s ≠ 0) := by
  obtain ⟨s, i, isDir, len, created, mounted', rfl, small⟩ :=
    creates.created sheltered mounted safe unhurt
  have sheltered' := created.sheltered sheltered
  refine ⟨i, s, created.made sheltered, ?_⟩
  have opens : Ensures (fs'.Open name) (fun result disk'' _ => ∃ file, result.1 = some file ∧
      Current disk'' file s ∧ file.hdr.sectorNumber = s) (fun _ => False) disk' vis' :=
    created.opens sheltered safe rfl mounted'
  constructor
  · intro means
    by_cases closed : vis' s = 0
    · obtain ⟨safe', place⟩ := created.path sheltered safe rfl
      have low := (sheltered.valid_head (.inr (.inl created.parent))).1
      exact .inl (means.plain sheltered' mounted' safe' text place low (created.entryIndex_new sheltered) closed)
    · exact .inr closed
  · rintro (plain | opened)
    · refine ⟨opens, fun closed => ?_⟩
      rw [splitPath_of_plain plain, sheltered.lookup_dot.2] at created ⊢
      exact created.removes sheltered plain mounted' small busy closed
    · exact ⟨opens, fun closed => absurd closed opened⟩

end Agreement

/-! ## A new disk -/

/-- `Create` of a file of two sectors in the root of a new disk. -/
theorem new_disk_creates {name last : Name} (split : FileSystem.splitPath name = ([dot], last))
    (plain : last.Plain) (short : ShortExtension name)
    (notDot : ¬ Name.strncmpEq (Name.chars [dot]) last.chars FileNameMaxLen = true)
    (notDots : ¬ Name.strncmpEq (Name.chars [dot, dot]) last.chars FileNameMaxLen = true) :
    ∃ fs booted fs' disk' i, FileSystem.format.run SynchDisk.handle zeroMachine = .done fs booted ∧
      Formatted zeroMachine.disk booted.disk ∧ Mounted fs booted.disk ∧
      booted.visNum 1 ≠ 0 ∧ booted.visNum 6 = 0 ∧
      Creates fs booted.disk booted.visNum name (200 : Nat) fs' disk' booted.visNum ∧
      Created emptyLayout booted.disk disk' 1 6 i last false 200 ∧ Mounted fs' disk' := by
  obtain ⟨fs, booted, ran, ⟨formatted, mounted⟩, -⟩ := zeroMachine_blank.formats
  have counters : ∀ s, booted.visNum s = kernelHandles s :=
    (mounting_format zeroMachine_blank ran).counters
  have makes : Ensures (fs.Create name (200 : Nat)) (fun result disk' vis' => result.1 = true ∧
      vis' = booted.visNum ∧ ∃ i, Created emptyLayout booted.disk disk' 1 6 i last false 200 ∧
        Mounted result.2 disk') (fun _ => False) booted.disk booted.visNum :=
    formatted.ensures_Create_in_root mounted split plain short notDot notDots (by decide)
      fun _ _ i created mounted' => ⟨rfl, rfl, i, created, mounted'⟩
  obtain ⟨⟨success, fs'⟩, after, ended, succeeds, kept, i, created, mounted'⟩ :=
    Program.wp_returns (ensures_iff.mp makes fun _ _ => 0)
  obtain rfl : success = true := succeeds
  exact ⟨fs, booted, fs', after.disk, i, ran, formatted, mounted, by rw [counters 1]; decide,
    by rw [counters 6]; decide, ⟨_, after, ended, rfl, kept⟩, created, mounted'⟩

theorem create_open_remove_new_disk : ∃ fs booted fs' disk' vis',
    FileSystem.format.run SynchDisk.handle zeroMachine = .done fs booted ∧
      Creates fs booted.disk booted.visNum nameA (200 : Nat) fs' disk' vis' ∧ ∃ i s,
      Made booted.disk disk' ((tableAt booted.disk 1).lookup (FileSystem.splitPath nameA).1)
        (FileSystem.splitPath nameA).2 i s ∧
      (MeansFile emptyLayout fs' disk' vis' nameA
        ((tableAt booted.disk 1).lookup (FileSystem.splitPath nameA).1) i s ↔ nameA.Plain ∨ vis' s ≠ 0) := by
  obtain ⟨fs, booted, fs', disk', -, ran, formatted, mounted, busy, -, creates, -, -⟩ :=
    @new_disk_creates nameA nameA (by decide) (by decide) (by decide) (by decide) (by decide)
  have sheltered := formatted.sheltered
  have unhurt : Unhurt booted.disk nameA (200 : Nat) :=
    ⟨by decide, .inr ⟨200, rfl, by decide, fun large => absurd large (by decide)⟩⟩
  exact ⟨fs, booted, fs', disk', _, ran, creates, create_open_remove_agree sheltered mounted busy
    (sheltered.safe_of_plain (by decide)) (Name.text_of_all (by decide)) unhurt creates⟩

/-- `Create("./a", 200)` makes a file that `Remove("./a")` cannot be relied on to remove. -/
theorem dot_path_not_removed : ∃ fs booted fs' disk' i,
    FileSystem.format.run SynchDisk.handle zeroMachine = .done fs booted ∧
      Creates fs booted.disk booted.visNum dotPath.name (200 : Nat) fs' disk' booted.visNum ∧
      Made booted.disk disk' 1 nameA i 6 ∧ booted.visNum 6 = 0 ∧
      ¬ MeansFile emptyLayout fs' disk' booted.visNum dotPath.name 1 i 6 := by
  have split : FileSystem.splitPath dotPath.name = ([dot], nameA) := by decide
  obtain ⟨fs, booted, fs', disk', i, ran, formatted, -, -, closed, creates, created, mounted'⟩ :=
    new_disk_creates split (by decide) (by decide) (by decide) (by decide)
  have sheltered := formatted.sheltered
  refine ⟨fs, booted, fs', disk', i, ran, creates, created.made sheltered, closed, fun means => ?_⟩
  have root : (1 : Int) = (tableAt booted.disk 1).lookup (FileSystem.splitPath dotPath.name).1 := by
    rw [split, sheltered.lookup_dot.2]
  have named : Created emptyLayout booted.disk disk' 1 6 i (FileSystem.splitPath dotPath.name).2 false 200 := by
    rw [split]
    exact created
  obtain ⟨safe', place⟩ := named.path sheltered (sheltered.safe_in_root split (by decide)) root
  have plain := means.plain (named.sheltered sheltered) mounted' safe' (Name.text_of_all (by decide)) place (by decide)
    (named.entryIndex_new sheltered) closed
  exact absurd plain (by decide)

end Nachos
