import Nachos.Filesys.SmallFiles

/-! `Writepipe` followed by `Readpipe` (`filesys/filesys.cc`). The pipe is a
file that is made, grown, closed, found again, read and removed. In every
state a run on small files reaches the reader gets the writer's bytes, and
nothing of the pipe stays behind but the handles left open on the root. -/
namespace Nachos
open Effects FileHeader OpenFile

variable {layout : Layout} {deeds : Deeds} {disk disk' : Disk} {vis : Counters} {session : Session}
  {name : Name} {n : Nat}

/-- The two headers every operation on a single name may touch. -/
theorem Sheltered.bare (sheltered : Sheltered layout disk) : emptyLayout.Within layout := by
  refine ⟨rfl, fun h dir => ?_, fun _ file => file.elim⟩
  obtain rfl : h = 1 := dir
  exact sheltered.root

/-- A pipe that was written: a new file of `n` bytes that nobody has open. -/
structure Piped (disk : Disk) (vis : Counters) (name : Name) (data : Memory) (n : Nat) (hs : Int)
    (i : Nat) (disk' : Disk) (vis' : Counters) : Prop where
  created : Created emptyLayout disk disk' 1 hs i name false n
  bytes : ∀ o, o < n → fileByte disk' (headerAt disk' hs) o = data o
  counters : vis' = Function.update vis 1 (vis 1 + 1)

/-- With room for it, a pipe under a new name is written. -/
theorem Sturdy.ensures_writepipe (sturdy : Sturdy layout deeds session disk vis) (data : Memory)
    (plain : name.Plain) (short : ShortExtension name)
    (absent : (tableAt disk 1).entryIndex name = none) (slot : (tableAt disk 1).freeSlot ≠ none)
    (small : n ≤ 1024) (enough : sectorsFor n + 1 ≤ (diskMap disk).freeCount) :
    Ensures ((Call.writepipe data n name).perform session) (fun result disk' vis' => ∃ fs hs i,
      result = (.count n, { session with fs := fs }) ∧ Mounted fs disk' ∧
        Piped disk vis name data n hs i disk' vis') (fun _ => False) disk vis := by
  have sheltered := sturdy.sheltered
  have split := splitPath_of_plain plain
  unfold Call.perform
  apply ensures_bind
  refine ensures_Writepipe sheltered (sheltered.reach_of_plain sheltered.bare plain) sturdy.mounted
    (sheltered.safe_of_plain plain) short (by omega) enough ?_ ?_ ?_
  · intro lost
    rw [split, sheltered.lookup_dot.1] at lost
    cases lost
  · intro fs' disk' reason
    rw [split, sheltered.lookup_dot.2] at reason
    rcases reason with present | full | all
    · exact absurd absent present
    · exact absurd full slot
    · obtain ⟨s, after, -, taken, -⟩ := BitMap.find_of_free (show 0 < (diskMap disk).freeCount by omega)
      obtain ⟨low, high, clear⟩ := taken.fresh s (by simp)
      exact absurd (all s ⟨low, high⟩) clear
  · intro fs' disk' p hs i lookup created mounted bytes
    rw [split, sheltered.lookup_dot.2] at lookup
    subst lookup
    rw [split] at created
    exact ensures_pure ⟨fs', hs, i, rfl, mounted, created, bytes, rfl⟩

/-- A pipe that is not there is not read. -/
theorem Sturdy.ensures_readpipe_missing (sturdy : Sturdy layout deeds session disk vis)
    (buffer : Memory) (plain : name.Plain)
    (absent : (tableAt disk 1).entryIndex name = none) :
    Ensures ((Call.readpipe buffer name).perform session) (fun result _ _ => ∃ fs,
      result = (.bytes (-1) buffer, { session with fs := fs })) (fun _ => False) disk vis := by
  have sheltered := sturdy.sheltered
  unfold Call.perform
  apply ensures_bind
  refine ensures_Readpipe sheltered sheltered.whole sheltered.near sturdy.mounted plain sturdy.busy
    (fun i => sturdy.removable) ?_ ?_ ?_ ?_
  · intro i found
    rw [absent] at found
    cases found
  · intro _ fs' disk' _ _
    exact ensures_pure ⟨fs', rfl⟩
  · intro i found
    rw [absent] at found
    cases found
  · intro _ _ _ _ _ i _ found
    rw [absent] at found
    cases found

section Written

variable {data : Memory} {hs : Int} {i : Nat} {disk₁ disk₂ : Disk} {vis₁ : Counters}
  {fs : FileSystem}

theorem Piped.sturdy (piped : Piped disk vis name data n hs i disk₁ vis₁)
    (before : Sturdy layout deeds session disk vis) (small : n ≤ 1024) (mounted : Mounted fs disk₁) :
    ∃ deeds', Sturdy (layout.add hs false) deeds' { session with fs := fs } disk₁ vis₁ := by
  obtain ⟨created, -, rfl⟩ := piped
  exact ⟨_, before.created (created.widen before.sheltered.bare) (sectorsFor_le_iff.mpr (by omega))
    mounted (counters_grow vis 1 1) fun _ _ notRoot => Function.update_of_ne notRoot ..⟩

/-- Nobody has the new file open. -/
theorem Piped.closed (piped : Piped disk vis name data n hs i disk₁ vis₁)
    (before : Sturdy layout deeds session disk vis) : vis₁ hs = 0 := by
  have created := piped.created.widen before.sheltered.bare
  have notHead := created.not_head before.sheltered
  have notRoot : hs ≠ 1 := by
    rintro rfl
    exact notHead (.inr (.inl before.sheltered.root))
  rw [piped.counters, Function.update_of_ne notRoot]
  exact before.uncounted notHead

/-- The reader gets the bytes and the file is removed. -/
theorem Piped.ensures_readpipe (piped : Piped disk vis name data n hs i disk₁ vis₁)
    (before : Sturdy layout deeds session disk vis) (buffer : Memory) (plain : name.Plain)
    (positive : 0 < n) (small : n ≤ 1024) (mounted : Mounted fs disk₁) :
    Ensures ((Call.readpipe buffer name).perform { session with fs := fs })
      (fun result disk₂ vis₂ => ∃ fs' into isDir,
        result = (.bytes n into, { session with fs := fs' }) ∧ Mounted fs' disk₂ ∧
        (∀ o, o < n → into o = data o) ∧
        Removed (emptyLayout.add hs false) disk₁ disk₂ 1 hs i isDir ∧
        vis₂ = Function.update vis₁ 1 (vis₁ 1 + 1)) (fun _ => False) disk₁ vis₁ := by
  have sheltered := before.sheltered
  have created := piped.created.widen sheltered.bare
  have entry := created.entryIndex_new sheltered
  have sector := (created.new_entry sheltered).2.1
  have eight : sectorsFor n ≤ 8 := sectorsFor_le_iff.mpr (by omega)
  have closed := piped.closed before
  obtain ⟨deeds', sturdy⟩ := piped.sturdy before small mounted
  have only : ∀ {j}, (tableAt disk₁ 1).entryIndex name = some j → j = i := fun found =>
    Option.some.inj (found.symm.trans entry)
  unfold Call.perform
  apply ensures_bind
  refine ensures_Readpipe sturdy.sheltered (sheltered.bare.add hs false) ?_ mounted plain sturdy.busy
    (fun j => sturdy.removable) ?_ ?_ ?_ ?_
  · intro j found
    rw [only found, sector]
    exact .inr (.inr (.inl rfl))
  · intro j found far
    rw [only found, sector] at far
    exact far n (.inl rfl) created.headed eight
  · intro missing
    rw [entry] at missing
    cases missing
  · intro j found reason
    rw [only found, sector] at reason
    rcases reason with empty | busy
    · have length := created.headed.length.symm.trans empty.length
      omega
    · exact absurd closed busy
  · intro len into fs' disk₂ e j isDir found place _ headed copied removed mounted₂
    obtain rfl := only found
    obtain rfl : hs = e := sector.symm.trans place
    have length := created.headed.length.symm.trans headed.length
    obtain rfl : n = len := by exact_mod_cast length
    refine ensures_pure ⟨fs', into, isDir, rfl, mounted₂, fun o inside => ?_, removed, rfl⟩
    rw [copied (.inl rfl) eight o inside]
    exact piped.bytes o inside

/-- Afterwards the map marks what it marked before. -/
theorem Piped.marks {isDir : Bool} (piped : Piped disk vis name data n hs i disk₁ vis₁)
    (removed : Removed (emptyLayout.add hs false) disk₁ disk₂ 1 hs i isDir) (s : Int) :
    (diskMap disk₂).Marked s ↔ (diskMap disk).Marked s := by
  rw [removed.released.exactly, piped.created.taken.exactly]
  constructor
  · rintro ⟨old | new, kept⟩
    · exact old
    · exact absurd new kept
  · intro old
    exact ⟨.inl old, fun new => (piped.created.taken.fresh s new).2.2 old⟩

/-- Sectors in use, other than those of the map and the directory, are as they were. -/
theorem Piped.kept {isDir : Bool} {s : Int} (piped : Piped disk vis name data n hs i disk₁ vis₁)
    (removed : Removed (emptyLayout.add hs false) disk₁ disk₂ 1 hs i isDir)
    (sheltered : Sheltered layout disk) (marked : (diskMap disk).Marked s) (notMap : s ≠ 0 ∧ s ≠ 2)
    (notRoot : s ≠ 1 ∧ ∀ k, k < 3 → s ≠ (headerAt disk 1).dataSectors k) : disk₂ s = disk s := by
  have created := piped.created.widen sheltered.bare
  have marked₁ : (diskMap disk₁).Marked s := (created.taken.exactly s).mpr (.inl marked)
  have notNew : s ≠ hs := by
    rintro rfl
    exact created.header_fresh.1 marked
  have root : layout.Head 1 := .inr (.inl sheltered.root)
  have slots : ∀ k, k < 3 → (headerAt disk₁ 1).dataSectors k = (headerAt disk 1).dataSectors k :=
    fun k bound => (created.frame.headers 1 root
      (created.header_unchanged sheltered root)).dataSectors (by omega)
  have second : disk₂ s = disk₁ s := by
    refine removed.frame.others s ?_ ?_
    · rw [Layout.head_add, Formatted.head_iff]
      rintro ((zero | one) | new)
      · exact notMap.1 zero
      · exact notRoot.1 one
      · exact notNew new
    · rintro (two | clear | ⟨k, bound, here⟩)
      · exact notMap.2 two
      · exact clear marked₁
      · exact notRoot.2 k bound (here.trans (slots k bound))
  rw [second]
  refine piped.created.frame.others s ?_ ?_
  · rw [Formatted.head_iff]
    rintro (zero | one)
    · exact notMap.1 zero
    · exact notRoot.1 one
  · rintro (two | clear | ⟨k, bound, here⟩)
    · exact notMap.2 two
    · exact clear marked
    · exact notRoot.2 k bound here

/-- The directory's entries in use are as they were. -/
theorem Piped.entry {isDir : Bool} {j : Nat} (piped : Piped disk vis name data n hs i disk₁ vis₁)
    (removed : Removed (emptyLayout.add hs false) disk₁ disk₂ 1 hs i isDir)
    (sheltered : Sheltered layout disk) (bound : j < 10) (other : j ≠ i) :
    Directory.SameEntry (tableAt disk₂ 1) (tableAt disk 1) j := by
  have created := piped.created.widen sheltered.bare
  have sheltered₁ := created.sheltered sheltered
  have first := created.old_entry sheltered sheltered.root bound (.inr other)
  have second := (removed.widen (sheltered.bare.add hs false)).old_entry sheltered₁
    sheltered₁.root bound (.inr other)
  exact fun k less => (second k less).trans (first k less)

/-- The name is gone. -/
theorem Piped.absent {isDir : Bool} (piped : Piped disk vis name data n hs i disk₁ vis₁)
    (removed : Removed (emptyLayout.add hs false) disk₁ disk₂ 1 hs i isDir)
    (sheltered : Sheltered layout disk) : (tableAt disk₂ 1).entryIndex name = none := by
  cases found : (tableAt disk₂ 1).entryIndex name with
  | none => rfl
  | some j =>
    obtain ⟨bound, hit⟩ := Directory.entryIndex_some found
    by_cases own : j = i
    · subst own
      have unused := removed.unused
      rw [hit.1] at unused
      cases unused
    · have old := (piped.entry removed sheltered bound own).matches_iff name
      exact absurd (old.mp hit) (Directory.entryIndex_none piped.created.absent bound)

end Written

/-! ## In every reachable state -/

/-- What is left of a pipe called `name` between these two states: nothing but handles
on the root. -/
structure NothingLeft (before after : System) (name : Name) : Prop where
  absent : (tableAt after.disk 1).entryIndex name = none
  map : ∀ s, (diskMap after.disk).Marked s ↔ (diskMap before.disk).Marked s
  entries : ∀ j, j < 10 → (tableAt after.disk 1).inUse j = (tableAt before.disk 1).inUse j ∧
    ((tableAt before.disk 1).inUse j = true →
      Directory.SameEntry (tableAt after.disk 1) (tableAt before.disk 1) j)
  files : ∀ j, j < 10 → (tableAt before.disk 1).inUse j = true →
    (tableAt before.disk 1).sector j ≠ 1 →
    ∀ s, s ∈ claimed before.disk ((tableAt before.disk 1).sector j) →
      after.disk s = before.disk s
  counters : ∀ s, s ≠ 1 → after.counters s = before.counters s

/-- A file of the directory shares no sector with the directory or the map. -/
theorem Stocked.file_apart {j : Nat} {s : Int} (stocked : Stocked layout deeds disk) (bound : j < 10)
    (used : (tableAt disk 1).inUse j = true) (notRoot : (tableAt disk 1).sector j ≠ 1)
    (member : s ∈ claimed disk ((tableAt disk 1).sector j)) :
    (diskMap disk).Marked s ∧ (s ≠ 0 ∧ s ≠ 2) ∧
      s ≠ 1 ∧ ∀ k, k < 3 → s ≠ (headerAt disk 1).dataSectors k := by
  have sheltered := stocked.sheltered
  obtain ⟨regular, -⟩ := (stocked.entry bound used).resolve_left notRoot
  have head : layout.Head ((tableAt disk 1).sector j) := .inr (.inr regular)
  have root : layout.Head 1 := .inr (.inl sheltered.root)
  obtain ⟨part, owned⟩ := mem_claimed.mp member
  have other : ∀ {q part'}, layout.Head q → HasPart disk q part' s →
      (tableAt disk 1).sector j = q := fun known owned' =>
    congrArg Prod.fst (sheltered.storage.single (_, part) (_, _) s ⟨head, owned⟩ ⟨known, owned'⟩)
  refine ⟨sheltered.part_marked head owned, ⟨?_, ?_⟩, ?_, ?_⟩
  · rintro rfl
    exact stocked.notMap regular (other (.inl rfl) (show HasPart disk 0 .header 0 from rfl))
  · rintro rfl
    exact stocked.notMap regular (other (.inl rfl) sheltered.map_data)
  · rintro rfl
    exact notRoot (other root (show HasPart disk 1 .header 1 from rfl))
  · rintro k slot rfl
    exact notRoot (other root (sheltered.table_slot sheltered.root slot))

/-- A file that was made and removed leaves nothing behind. -/
theorem Piped.nothingLeft {isDir : Bool} {data : Memory} {hs : Int} {i : Nat} {disk₁ : Disk}
    {vis₁ : Counters} {before after : System}
    (piped : Piped before.disk before.counters name data n hs i disk₁ vis₁)
    (sturdy : Sturdy layout deeds before.session before.disk before.counters)
    (removed : Removed (emptyLayout.add hs false) disk₁ after.disk 1 hs i isDir)
    (counters : ∀ s, s ≠ 1 → after.counters s = vis₁ s) : NothingLeft before after name := by
  have sheltered := sturdy.sheltered
  refine ⟨piped.absent removed sheltered, piped.marks removed, fun j bound => ?_,
    fun j bound used notRoot s member => ?_, fun s notRoot => ?_⟩
  · by_cases own : j = i
    · subst own
      have unused := (piped.created.widen sheltered.bare).slot_bounds sheltered
      refine ⟨removed.unused.trans unused.2.2.symm, fun used => ?_⟩
      exact absurd (used.symm.trans unused.2.2) (by decide)
    · have same := piped.entry removed sheltered bound own
      exact ⟨same.inUse, fun _ => same⟩
  · obtain ⟨marked, notMap, apart⟩ := sturdy.stocked.file_apart bound used notRoot member
    exact piped.kept removed sheltered marked notMap apart
  · rw [counters s notRoot, piped.counters, Function.update_of_ne notRoot]

/-- What is written into a pipe is read from it, once, and the pipe is gone. -/
theorem pipe_round_trip {trace : List (Call × Reply)} {system : System} {data : Memory}
    (buffer buffer' : Memory) (runs : System.Runs SmallCall trace system) (plain : name.Plain)
    (extension : (name.drop (name.findIdx (· == dot) + 1)).length ≤ 4)
    (absent : (tableAt system.disk 1).entryIndex name = none)
    (slot : ∃ i, i < 10 ∧ (tableAt system.disk 1).inUse i = false)
    (positive : 1 ≤ n) (small : n ≤ 1024)
    (enough : sectorsFor n + 1 ≤ (diskMap system.disk).freeCount) :
    ∃ (written read again : System) (into : Memory),
      system.Step (.writepipe data n name) (.count n) written ∧
      written.Step (.readpipe buffer name) (.bytes n into) read ∧
      (∀ o, o < n → into o = data o) ∧ NothingLeft system read name ∧
      read.Step (.readpipe buffer' name) (.bytes (-1) buffer') again := by
  obtain ⟨⟨layout, deeds, sturdy⟩, coherent⟩ := sturdy_of_runs runs
  have sheltered := sturdy.sheltered
  have short : ShortExtension name := by
    unfold ShortExtension SectorSize
    omega
  -- the pipe is written
  obtain ⟨result, machine₁, ran₁, ⟨fs₁, hs, i, rfl, mounted₁, piped⟩, coherent₁⟩ :=
    ensures_returns coherent (sturdy.ensures_writepipe data plain short absent
      (Directory.freeSlot_ne_none slot) small enough)
  -- and read
  obtain ⟨result, machine₂, ran₂, ⟨fs₂, into, isDir, rfl, mounted₂, copied, removed, counters⟩,
      coherent₂⟩ :=
    ensures_returns coherent₁ (piped.ensures_readpipe sturdy buffer plain positive small mounted₁)
  have gone := piped.absent removed sheltered
  obtain ⟨deeds₁, sturdy₁⟩ := piped.sturdy sturdy small mounted₁
  have removed₁ := removed.widen (sheltered.bare.add hs false)
  have sturdy₂ := sturdy₁.removed removed₁ (piped.closed sturdy) mounted₂ (counters_grow _ 1 1)
    fun _ _ notRoot => Function.update_of_ne notRoot ..
  rw [← counters] at sturdy₂
  -- the second reader finds no file
  obtain ⟨result, machine₃, ran₃, ⟨fs₃, rfl⟩, -⟩ :=
    ensures_returns coherent₂ (sturdy₂.ensures_readpipe_missing buffer' plain gone)
  have nothing : NothingLeft system ⟨⟨fs₂, system.session.handles⟩, machine₂⟩ name :=
    piped.nothingLeft sturdy removed fun s notRoot => by
      show machine₂.visNum s = machine₁.visNum s
      rw [counters, Function.update_of_ne notRoot]
  exact ⟨⟨_, machine₁⟩, ⟨_, machine₂⟩, ⟨_, machine₃⟩, into, ran₁, ran₂, copied, nothing, ran₃⟩

/-- One byte through a pipe called "a" on a new disk. -/
theorem pipe_on_new_disk : ∃ (system written read again : System) (into : Memory),
    System.Runs SmallCall [] system ∧
      system.Step (.writepipe (fun _ => 7) 1 nameA) (.count 1) written ∧
      written.Step (.readpipe (fun _ => 0) nameA) (.bytes 1 into) read ∧
      into 0 = 7 ∧ NothingLeft system read nameA ∧
      read.Step (.readpipe (fun _ => 0) nameA) (.bytes (-1) fun _ => 0) again := by
  obtain ⟨fs, booted, ran, ⟨formatted, -⟩, -⟩ := zeroMachine_blank.formats
  have runs : System.Runs SmallCall [] ⟨⟨fs, []⟩, booted⟩ := .boot zeroMachine_blank ran
  have room := formatted.room
  obtain ⟨written, read, again, into, wrote, reads, copied, nothing, fails⟩ :=
    @pipe_round_trip nameA 1 [] _ (fun _ => 7) (fun _ => 0) (fun _ => 0) runs (by decide) (by decide)
      (formatted.absent (by decide) (by decide))
      ⟨2, by decide, formatted.table.unused 2 (by decide) (by decide)⟩ le_rfl (by decide)
      (show sectorsFor 1 + 1 ≤ (diskMap booted.disk).freeCount from le_trans (by decide) room)
  exact ⟨_, written, read, again, into, runs, wrote, reads, copied 0 (by decide), nothing, fails⟩

end Nachos
