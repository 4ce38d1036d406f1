import Nachos.Effects.HostFile
import Nachos.Filesys.Pipes

/-! The test routines of the kernel (`filesys/fstest.cc`): `Copy` brings a file of
the host to the disk in small pieces, `Print` shows one, and `PerformanceTest`
writes a file and removes it. They use the file system as any caller does. What
`Copy` and `FileWrite` leave is the same as after `Writepipe` (`Piped`). -/
namespace Nachos
open Effects FileHeader OpenFile

namespace FileTests

abbrev TransferSize : Nat := 10

/-- `OpenFile::Print`, which prints nothing. -/
def print (file : OpenFile) : Int := file.hdr.sectorNumber

/-- The loop of `Copy`: `fread` from where the last one ended, until it gets nothing. -/
def transfer (fp : HostFile) (position : Nat) (openFile : OpenFile) : Kernel OpenFile :=
  let amountRead := (fp.read position TransferSize).1
  if 0 < amountRead then do
    let (_, openFile) ← openFile.Write (fp.read position TransferSize).2 amountRead
    transfer fp (position + amountRead) openFile
  else return openFile
termination_by fp.size - position
decreasing_by
  have most := fp.read_le position TransferSize
  omega

/-- How `Copy` ends. -/
inductive Copied where
  | noInput
  | noOutput
  | copied
deriving DecidableEq

/-- `Copy` once the target was opened. -/
def copyInto (fp : HostFile) : Option OpenFile → FileSystem → Kernel (Copied × FileSystem)
  | none, _ => .stop .assertion
  | some openFile, fs => do
    let openFile ← transfer fp 0 openFile
    let _ := print openFile
    openFile.delete
    return (.copied, fs)

/-- `Copy`; the host's file is `none` if it cannot be opened. -/
def Copy (fs : FileSystem) (source : Option HostFile) (target : Name) : Kernel (Copied × FileSystem) :=
  match source with
  | none => return (.noInput, fs)
  | some fp => do
    let (created, fs) ← fs.Create target fp.size
    if !created then
      return (.noOutput, fs)
    let (opened, fs) ← fs.Open target
    copyInto fp opened fs

/-- `FileName`: `"TestFile"`. -/
def TestFile : Name := [84, 101, 115, 116, 70, 105, 108, 101]

/-- `Contents`: `"1234567890"`, as many digits as a chunk has bytes. -/
def Contents : Memory := fun k => if k < 9 then 49 + UInt8.ofNat k else if k = 9 then 48 else 0

abbrev ContentSize : Nat := 10

abbrev FileSize : Nat := ContentSize * 50

/-- The loop of `FileWrite`, and the `delete` that follows it. -/
def writes (i : Nat) (openFile : OpenFile) : Kernel Unit :=
  if i < FileSize then do
    let (numBytes, openFile) ← openFile.Write Contents ContentSize
    if numBytes < 10 then openFile.delete
    else writes (i + ContentSize) openFile
  else openFile.delete
termination_by FileSize - i
decreasing_by
  simp only [FileSize, ContentSize] at *
  omega

/-- `FileWrite` once the file was opened. -/
def writeInto : Option OpenFile → FileSystem → Kernel FileSystem
  | none, fs => return fs
  | some openFile, fs => do
    writes 0 openFile
    return fs

/-- `FileWrite`. -/
def FileWrite (fs : FileSystem) : Kernel FileSystem := do
  let (created, fs) ← fs.Create TestFile 0
  if !created then
    return fs
  let (opened, fs) ← fs.Open TestFile
  writeInto opened fs

/-- `PerformanceTest`: whether the file was removed. -/
def PerformanceTest (fs : FileSystem) : Kernel (Bool × FileSystem) := do
  let fs ← FileWrite fs
  fs.Remove TestFile

end FileTests
open FileTests

variable {layout scope : Layout} {deeds : Deeds} {before disk : Disk} {vis : Counters} {session : Session}
  {fault : Fault → Prop} {fs : FileSystem} {file : OpenFile} {name : Name} {hs : Int}
  {i pos len n : Nat} {source : Memory}

/-! ## A new file that is being written -/

/-- The file was created on `before` and is open at `pos`; nothing else has happened. -/
structure Making (layout : Layout) (before : Disk) (name : Name) (hs : Int) (i : Nat) (fs : FileSystem)
    (disk : Disk) (file : OpenFile) (pos len : Nat) : Prop where
  sheltered : Sheltered layout before
  created : Created emptyLayout before disk 1 hs i name false len
  mounted : Mounted fs disk
  current : Current disk file hs
  position : file.seekPosition = pos
  reached : pos ≤ len
  small : len ≤ 1024

namespace Making

theorem after (making : Making layout before name hs i fs disk file pos len) :
    Sheltered (layout.add hs false) disk :=
  (making.created.widen making.sheltered.bare).sheltered making.sheltered

theorem number (making : Making layout before name hs i fs disk file pos len) :
    file.hdr.sectorNumber = hs := making.after.number (.inr (.inr (.inl rfl))) making.current

theorem valid (making : Making layout before name hs i fs disk file pos len) :
    ValidSector file.hdr.sectorNumber := by
  rw [making.number]
  exact making.after.valid_head (.inr (.inr (.inl rfl)))

/-- The sectors that creating it left free. -/
theorem freeCount (making : Making layout before name hs i fs disk file pos len) :
    (diskMap disk).freeCount + (sectorsFor len + 1) = (diskMap before).freeCount := by
  have count := BitMap.freeCount_takes making.created.taken
  have eight : sectorsFor len ≤ 8 := sectorsFor_le_iff.mpr (by have := making.small; omega)
  rw [claimed_direct making.created.headed.sectors eight] at count
  simp only [List.length_cons, length_slots] at count
  omega

/-- A write at the position, which may make the file longer. -/
theorem ensures_Write {count : Nat} {post : Int × OpenFile → Disk → Counters → Prop}
    (making : Making layout before name hs i fs disk file pos len) (positive : 0 < count)
    (fits : pos + count ≤ 1024)
    (enough : sectorsFor (max len (pos + count)) + 1 ≤ (diskMap before).freeCount)
    (holds : ∀ file' disk',
      Making layout before name hs i fs disk' file' (pos + count) (max len (pos + count)) →
      (∀ o, o < max len (pos + count) → fileByte disk' (headerAt disk' hs) o =
        if pos ≤ o ∧ o < pos + count then source (o - pos) else fileByte disk (headerAt disk hs) o) →
      post ((count : Int), file') disk' vis) :
    Ensures (file.Write source count) post fault disk vis := by
  have sheltered₁ := making.after
  have room := making.freeCount
  have valid := making.valid
  obtain ⟨sheltered, made, mounted, current, position, reached, small⟩ := making
  have within := sheltered.bare
  have file₁ : hs ∈ (layout.add hs false).files := .inl rfl
  have near₁ : hs ∈ (emptyLayout.add hs false).files := .inl rfl
  have longest : max len (pos + count) ≤ 1024 := max_le small fits
  have direct : sectorsFor (max len (pos + count)) ≤ 8 := sectorsFor_le_iff.mpr (by omega)
  have eight : sectorsFor (pos + count) ≤ 8 := sectorsFor_le_iff.mpr (by omega)
  have free : sectorsFor (pos + count) - sectorsFor len ≤ (diskMap disk).freeCount := by
    unfold sectorsFor at enough room ⊢
    omega
  unfold OpenFile.Write
  rw [if_pos valid]
  apply ensures_bind
  rw [position]
  refine ensures_WriteAt_file sheltered₁ file₁ near₁ made.headed current positive reached (.inl eight) free
    (fun k far _ high => ?_) ?_
  · omega
  intro file' disk' written grew current' seek
  have before₁ := sheltered₁.header file₁ made.headed current (sectorsFor_le_iff.mpr (by omega))
  have content : ∀ o, o < max len (pos + count) → fileByte disk' (headerAt disk' hs) o =
      if pos ≤ o ∧ o < pos + count then source (o - pos) else fileByte disk (headerAt disk hs) o :=
    fun o inside => written.content sheltered₁ file₁ made.headed current current' direct inside reached
  have created := made.grew sheltered within grew direct fun s => before₁.free_kept written direct (s := s)
  have mounted' := (grew.widen (within.add hs false)).mounted sheltered₁ mounted
  apply ensures_pure
  refine holds _ disk' ⟨sheltered, created, mounted', current', ?_, le_max_right _ _, longest⟩ content
  dsimp only
  rw [seek, position]
  push_cast
  rfl

/-- Closing the handle leaves a file that nobody has open. -/
theorem piped {data : Memory} {vis' : Counters} (making : Making layout before name hs i fs disk file pos len)
    (bytes : ∀ o, o < len → fileByte disk (headerAt disk hs) o = data o)
    (counters : vis' = Function.update vis 1 (vis 1 + 1)) :
    Piped before vis name data len hs i disk vis' := ⟨making.created, bytes, counters⟩

/-- `Copy` writes the rest of the host's file. -/
theorem ensures_transfer {fp : HostFile} {post : OpenFile → Disk → Counters → Prop}
    (making : Making layout before name hs i fs disk file pos fp.size)
    (enough : sectorsFor fp.size + 1 ≤ (diskMap before).freeCount)
    (copied : ∀ o, o < pos → fileByte disk (headerAt disk hs) o = fp.bytes o)
    (holds : ∀ file' disk', Making layout before name hs i fs disk' file' fp.size fp.size →
      (∀ o, o < fp.size → fileByte disk' (headerAt disk' hs) o = fp.bytes o) → post file' disk' vis) :
    Ensures (transfer fp pos file) post fault disk vis := by
  induction left : fp.size - pos using Nat.strong_induction_on generalizing disk file pos with
  | _ left ih =>
    have reached := making.reached
    have small := making.small
    have count : (fp.read pos TransferSize).1 = min 10 (fp.size - pos) := rfl
    rw [transfer]
    dsimp only
    rw [count]
    by_cases more : 0 < min 10 (fp.size - pos)
    · have whole : max fp.size (pos + min 10 (fp.size - pos)) = fp.size := by omega
      rw [if_pos more]
      apply ensures_bind
      refine making.ensures_Write more (by omega) (by rwa [whole]) fun file' disk' making' bytes => ?_
      rw [whole] at making' bytes
      refine ih _ (by omega) making' (fun o inside => ?_) rfl
      rw [bytes o (by omega)]
      by_cases new : pos ≤ o ∧ o < pos + min 10 (fp.size - pos)
      · rw [if_pos new]
        show fp.bytes (pos + (o - pos)) = fp.bytes o
        rw [Nat.add_sub_cancel' new.1]
      · rw [if_neg new]
        exact copied o (by omega)
    · rw [if_neg more]
      obtain rfl : pos = fp.size := by omega
      exact ensures_pure (holds file disk making copied)

/-- `FileWrite` makes the file longer, a chunk at a time. -/
theorem ensures_writes {post : Unit → Disk → Counters → Prop}
    (making : Making layout before name hs i fs disk file pos pos) {k : Nat}
    (whole : pos + ContentSize * k = FileSize)
    (enough : sectorsFor FileSize + 1 ≤ (diskMap before).freeCount)
    (written : ∀ o, o < pos → fileByte disk (headerAt disk hs) o = FileTests.Contents (o % 10))
    (holds : ∀ file' disk', Making layout before name hs i fs disk' file' FileSize FileSize →
      (∀ o, o < FileSize → fileByte disk' (headerAt disk' hs) o = FileTests.Contents (o % 10)) →
      post () disk' (Function.update vis hs (vis hs - 1))) :
    Ensures (writes pos file) post fault disk vis := by
  induction k generalizing disk file pos with
  | zero =>
    obtain rfl : pos = FileSize := whole
    rw [writes, if_neg (lt_irrefl _)]
    refine ensures_delete making.valid ?_
    rw [making.number]
    exact holds file disk making written
  | succ k ih =>
    have bound : pos + 10 ≤ 500 := by
      simp only [FileSize, ContentSize] at whole
      omega
    have longer : max pos (pos + ContentSize) = pos + 10 := max_eq_right (Nat.le_add_right _ _)
    rw [writes, if_pos (show pos < FileSize by simp only [FileSize, ContentSize]; omega)]
    apply ensures_bind
    refine making.ensures_Write (show 0 < ContentSize by decide) (by simp only [ContentSize]; omega) ?_
      fun file' disk' making' bytes => ?_
    · rw [longer]
      unfold sectorsFor at enough ⊢
      simp only [FileSize, ContentSize] at enough
      omega
    · rw [longer] at making' bytes
      dsimp only
      rw [if_neg (by decide)]
      refine ih making' (by simp only [FileSize, ContentSize] at whole ⊢; omega) ?_
      intro o inside
      rw [bytes o inside]
      by_cases new : pos ≤ o ∧ o < pos + ContentSize
      · have offset : o - pos = o % 10 := by
          simp only [FileSize, ContentSize] at whole new
          omega
        rw [if_pos new, offset]
      · rw [if_neg new]
        exact written o (by simp only [ContentSize] at new; omega)

end Making

/-- Opening a file of the root by its name. -/
theorem Sheltered.ensures_Open_plain {post : Option OpenFile × FileSystem → Disk → Counters → Prop}
    (sheltered : Sheltered layout disk) (within : scope.Within layout) (mounted : Mounted fs disk)
    (plain : name.Plain) (found : (tableAt disk 1).entryIndex name = some i)
    (holds : ∀ fs' file disk', Quiet scope disk disk' → Mounted fs' disk' →
      Current disk' file ((tableAt disk 1).sector i) → file.seekPosition = 0 →
      post (some file, fs') disk' (Function.update (Function.update vis 1 (vis 1 + 1)) ((tableAt disk 1).sector i)
        (Function.update vis 1 (vis 1 + 1) ((tableAt disk 1).sector i) + 1))) :
    Ensures (fs.Open name) post fault disk vis := by
  have split := splitPath_of_plain plain
  refine ensures_Open sheltered (sheltered.reach_of_plain within plain) mounted
    (sheltered.safe_of_plain plain) ?_ ?_ ?_
  · intro missing
    rw [split, sheltered.lookup_dot.1] at missing
    cases missing
  · intro fs' disk' q lookup _ missing
    rw [split, sheltered.lookup_dot.2] at lookup
    rw [lookup, split, found] at missing
    cases missing
  intro fs' file disk' q j s lookup _ found' sector quiet mounted' _ current position
  rw [split, sheltered.lookup_dot.2] at lookup
  subst lookup
  rw [split] at found'
  obtain rfl := Option.some.inj (found.symm.trans found')
  subst sector
  exact holds fs' file disk' quiet mounted' current position

/-- A file that is created, with room for it, is open for writing. -/
theorem Sturdy.ensures_create_open {A : Type} {post : A → Disk → Counters → Prop}
    (sturdy : Sturdy layout deeds session disk vis) (refused : FileSystem → Kernel A)
    (next : Option OpenFile → FileSystem → Kernel A) (plain : name.Plain) (short : ShortExtension name)
    (absent : (tableAt disk 1).entryIndex name = none) (slot : (tableAt disk 1).freeSlot ≠ none)
    (small : n ≤ 1024) (enough : sectorsFor n + 1 ≤ (diskMap disk).freeCount)
    (possible : ¬ CreateAborts disk name (sectorsFor n))
    (holds : ∀ fs' file hs i disk', Making layout disk name hs i fs' disk' file 0 n →
      Ensures (next (some file) fs') post fault disk' (Function.update (Function.update vis 1 (vis 1 + 1)) hs
        (Function.update vis 1 (vis 1 + 1) hs + 1))) :
    Ensures (session.fs.Create name n >>= fun made => if !made.1 then refused made.2 else
      made.2.Open name >>= fun opened => next opened.1 opened.2) post fault disk vis := by
  have sheltered := sturdy.sheltered
  have split := splitPath_of_plain plain
  have eight : sectorsFor n ≤ 8 := sectorsFor_le_iff.mpr (by omega)
  apply ensures_bind
  refine ensures_Create_file sheltered (sheltered.reach_of_plain sheltered.bare plain) sturdy.mounted
    (sheltered.safe_of_plain plain) short (by omega) (fun large => by omega)
    (fun _ aborts => absurd aborts possible) ?_ ?_
  · intro fs' disk' reason
    rw [CreateRefuses, split, sheltered.lookup_dot.2] at reason
    obtain (present | full | all) | lacking := reason
    · exact absurd absent present
    · exact absurd full slot
    · obtain ⟨s, after, -, taken, -⟩ := BitMap.find_of_free (show 0 < (diskMap disk).freeCount by omega)
      obtain ⟨low, high, clear⟩ := taken.fresh s (by simp)
      exact absurd (all s ⟨low, high⟩) clear
    · omega
  intro fs₁ disk₁ p hs i lookup _ made _ mounted₁
  rw [split] at made lookup
  rw [sheltered.lookup_dot.2] at lookup
  subst lookup
  have within := sheltered.bare
  have wider := within.add hs false
  have created := made.widen within
  have sheltered₁ := created.sheltered sheltered
  have entry := created.entryIndex_new sheltered
  have head₁ : (layout.add hs false).Head hs := .inr (.inr (.inl rfl))
  have root₁ := sheltered₁.lookup_dot
  dsimp only
  rw [if_neg (by decide)]
  apply ensures_bind
  refine ensures_Open sheltered₁ (sheltered₁.reach_of_plain wider plain) mounted₁
    (sheltered₁.safe_of_plain plain) ?_ ?_ ?_
  · intro missing
    rw [split, root₁.1] at missing
    cases missing
  · intro fs' disk' q lookup' _ missing
    rw [split, root₁.2] at lookup'
    rw [lookup', split, entry] at missing
    cases missing
  intro fs₂ file disk₂ q j s lookup₂ _ found sector quiet₂ mounted₂ _ current position
  rw [split, root₁.2] at lookup₂
  subst lookup₂
  rw [split] at found
  obtain rfl := Option.some.inj (entry.symm.trans found)
  rw [(created.new_entry sheltered).2.1] at sector
  subst sector
  exact holds fs₂ file hs i disk₂ ⟨sheltered, made.quiet sheltered within quiet₂, mounted₂, current, position,
    Nat.zero_le _, small⟩

/-- `Copy` to a new name, with room for it. -/
theorem Sturdy.ensures_Copy {fp : HostFile} (sturdy : Sturdy layout deeds session disk vis)
    (plain : name.Plain) (short : ShortExtension name) (absent : (tableAt disk 1).entryIndex name = none)
    (slot : (tableAt disk 1).freeSlot ≠ none) (small : fp.size ≤ 1024)
    (enough : sectorsFor fp.size + 1 ≤ (diskMap disk).freeCount)
    (possible : ¬ CreateAborts disk name (sectorsFor fp.size)) :
    Ensures (Copy session.fs (some fp) name) (fun result disk' vis' => ∃ hs i, result.1 = .copied ∧
      Mounted result.2 disk' ∧ Piped disk vis name fp.bytes fp.size hs i disk' vis') fault disk vis := by
  change Ensures (session.fs.Create name (fp.size : Nat) >>= fun made =>
    if !made.1 then pure (Copied.noOutput, made.2) else made.2.Open name >>= fun opened =>
      copyInto fp opened.1 opened.2) _ _ _ _
  refine sturdy.ensures_create_open (fun fs => pure (Copied.noOutput, fs)) (copyInto fp)
    plain short absent slot small enough possible ?_
  intro fs' file hs i disk' making
  unfold copyInto
  apply ensures_bind
  refine making.ensures_transfer enough (fun o none => absurd none (Nat.not_lt_zero o)) ?_
  intro file' disk'' made bytes
  apply ensures_bind
  refine ensures_delete made.valid ?_
  rw [made.number, counters_reopened]
  exact ensures_pure ⟨hs, i, rfl, made.mounted, made.created, bytes, rfl⟩

/-- `FileWrite`, with room for the file. -/
theorem Sturdy.ensures_FileWrite (sturdy : Sturdy layout deeds session disk vis)
    (absent : (tableAt disk 1).entryIndex TestFile = none) (slot : (tableAt disk 1).freeSlot ≠ none)
    (enough : sectorsFor FileSize + 1 ≤ (diskMap disk).freeCount) :
    Ensures (FileWrite session.fs) (fun fs' disk' vis' => ∃ hs i, Mounted fs' disk' ∧
      Piped disk vis TestFile (fun o => FileTests.Contents (o % 10)) FileSize hs i disk' vis') fault disk vis := by
  have plain : Name.Plain TestFile := by decide
  have none : sectorsFor 0 = 0 := rfl
  have possible : ¬ CreateAborts disk TestFile (sectorsFor 0) := by
    rintro (missing | ⟨hs, freeMap, -, without⟩)
    · rw [splitPath_of_plain plain, sturdy.sheltered.lookup_dot.1] at missing
      cases missing
    · exact absurd ⟨Nat.zero_le _, by simp [none], by simp⟩ (without 0)
  change Ensures (session.fs.Create TestFile (0 : Nat) >>= fun made =>
    if !made.1 then pure made.2 else made.2.Open TestFile >>= fun opened =>
      writeInto opened.1 opened.2) _ _ _ _
  refine sturdy.ensures_create_open pure writeInto plain (by decide) absent slot (by decide) (by omega) possible ?_
  intro fs' file hs i disk' making
  unfold writeInto
  apply ensures_bind
  refine making.ensures_writes (k := 50) rfl enough (fun o none => absurd none (Nat.not_lt_zero o)) ?_
  intro file' disk'' made bytes
  rw [counters_reopened]
  exact ensures_pure ⟨hs, i, made.mounted, made.created, bytes, rfl⟩

/-! ## Printing a file -/

section Printing

variable {h : Int} {disk' : Disk}

/-- The bytes of a file from `pos` on. -/
def fileText (disk : Disk) (h : Int) (pos count : Nat) : List UInt8 :=
  (List.range count).map fun k => fileByte disk (headerAt disk h) (pos + k)

end Printing

/-! ## In every reachable state -/

section Reached

variable {disk₁ disk₂ : Disk} {vis₁ vis₂ : Counters} {data : Memory}

/-- A new file takes none of the sectors of the files that were there, and reading
it changes none. -/
theorem Piped.others {j : Nat} {s : Int} (piped : Piped disk vis name data n hs i disk₁ vis₁)
    (stocked : Stocked layout deeds disk) (bound : j < 10) (used : (tableAt disk 1).inUse j = true)
    (notRoot : (tableAt disk 1).sector j ≠ 1) (member : s ∈ claimed disk ((tableAt disk 1).sector j))
    (quiet : Quiet (emptyLayout.add hs false) disk₁ disk₂) : disk₁ s = disk s ∧ disk₂ s = disk₁ s := by
  obtain ⟨marked, notMap, apart⟩ := stocked.file_apart bound used notRoot member
  have bare : ¬ emptyLayout.Head s := by
    rw [Formatted.head_iff]
    rintro (zero | one)
    · exact notMap.1 zero
    · exact apart.1 one
  refine ⟨piped.created.frame.others s bare ?_, quiet.others s ?_ id⟩
  · rintro (two | clear | ⟨k, less, here⟩)
    · exact notMap.2 two
    · exact clear marked
    · exact apart.2 k less here
  · rw [Layout.head_add]
    rintro (old | rfl)
    · exact bare old
    · exact (piped.created.widen stocked.sheltered.bare).header_fresh.1 marked

/-- The test file is removed again. -/
theorem Piped.ensures_gone (piped : Piped disk vis name data n hs i disk₁ vis₁)
    (before : Sturdy layout deeds session disk vis) (plain : name.Plain) (small : n ≤ 1024)
    (mounted : Mounted fs disk₁) :
    Ensures (fs.Remove name) (fun result disk₂ vis₂ => ∃ isDir, result.1 = true ∧
      Removed (emptyLayout.add hs false) disk₁ disk₂ 1 hs i isDir ∧ vis₂ = vis₁) fault disk₁ vis₁ := by
  have sheltered := before.sheltered
  have created := piped.created.widen sheltered.bare
  have entry := created.entryIndex_new sheltered
  have sector := (created.new_entry sheltered).2.1
  obtain ⟨deeds', sturdy⟩ := piped.sturdy before small mounted
  refine ensures_Remove sturdy.sheltered (sheltered.bare.add hs false) mounted plain
    sturdy.busy.ne' (fun j => sturdy.removable) ?_ ?_
  · rintro fs' disk' _ _ (missing | ⟨j, found, busy⟩)
    · rw [entry] at missing
      cases missing
    · obtain rfl := Option.some.inj (entry.symm.trans found)
      rw [sector] at busy
      exact absurd (piped.closed before) busy
  · intro fs' disk' e j isDir found place _ removed _
    obtain rfl := Option.some.inj (entry.symm.trans found)
    obtain rfl : hs = e := sector.symm.trans place
    exact ⟨isDir, rfl, removed, rfl⟩

/-- On a new disk there is a run of free sectors for any small file. -/
theorem Formatted.possible {before : Disk} {size : Nat} (formatted : Formatted before disk) (plain : name.Plain)
    (fits : sectorsFor size ≤ 8) : ¬ CreateAborts disk name (sectorsFor size) := by
  rintro (missing | ⟨hs, freeMap, taken, without⟩)
  · rw [splitPath_of_plain plain, formatted.consistent.sheltered.lookup_dot.1] at missing
    cases missing
  · have bits : freeMap.numBits = 1024 := taken.size
    -- the new header is not in one of two disjoint runs
    obtain ⟨b, run⟩ := @BitMap.exists_firstRun freeMap (sectorsFor size) (if hs < 14 then 14 else 6)
      (by rw [bits]; split <;> omega) fun j less marked => by
        rw [taken.exactly, formatted.marked, List.mem_singleton] at marked
        split at marked <;> omega
    exact without b run

/-- The bytes of the test file. -/
def TestText : List UInt8 := (List.range FileSize).map fun o => FileTests.Contents (o % ContentSize)

/-- In every such state with room for the test file, `FileWrite` leaves a file with all
of its bytes; `PerformanceTest` removes it then, and leaves nothing behind but a handle
on the root. -/
theorem performance_test_leaves_nothing {trace : List (Call × Reply)} {system : System}
    (runs : System.Runs SmallCall trace system) (absent : (tableAt system.disk 1).entryIndex TestFile = none)
    (slot : ∃ i, i < 10 ∧ (tableAt system.disk 1).inUse i = false)
    (enough : sectorsFor FileSize + 1 ≤ (diskMap system.disk).freeCount) :
    ∃ fs₁ machine₁ i fs after,
      (FileWrite system.session.fs).run SynchDisk.handle system.machine = .done fs₁ machine₁ ∧
      (tableAt machine₁.disk 1).entryIndex TestFile = some i ∧
      Headed machine₁.disk ((tableAt machine₁.disk 1).sector i) FileSize ∧
      fileText machine₁.disk ((tableAt machine₁.disk 1).sector i) 0 FileSize = TestText ∧
      (PerformanceTest system.session.fs).run SynchDisk.handle system.machine = .done (true, fs) after.machine ∧
      NothingLeft system after TestFile := by
  obtain ⟨⟨layout, deeds, sturdy⟩, coherent⟩ := sturdy_of_runs runs
  have sheltered := sturdy.sheltered
  obtain ⟨fs₁, machine₁, wrote, ⟨hs, i, mounted, piped⟩, coherent₁⟩ :=
    ensures_returns coherent (sturdy.ensures_FileWrite absent (Directory.freeSlot_ne_none slot) enough)
  obtain ⟨⟨done, fs⟩, machine, gone, ⟨isDir, rfl, removed, counters⟩, -⟩ :=
    ensures_returns coherent₁ (piped.ensures_gone sturdy (by decide) (by decide) mounted)
  have created := piped.created.widen sheltered.bare
  have sector := (created.new_entry sheltered).2.1
  have text : fileText machine₁.disk ((tableAt machine₁.disk 1).sector i) 0 FileSize = TestText := by
    refine List.map_congr_left fun o member => ?_
    rw [sector, Nat.zero_add]
    exact piped.bytes o (List.mem_range.mp member)
  refine ⟨fs₁, machine₁, i, fs, ⟨⟨fs, []⟩, machine⟩, wrote, created.entryIndex_new sheltered,
    by rw [sector]; exact created.headed, text, ?_,
    piped.nothingLeft sturdy removed fun s _ => congrFun counters s⟩
  unfold PerformanceTest
  rw [Program.run_bind, wrote]
  exact gone

theorem performance_test_on_new_disk : ∃ system fs₁ machine₁ i fs after, System.Runs SmallCall [] system ∧
    (FileWrite system.session.fs).run SynchDisk.handle system.machine = .done fs₁ machine₁ ∧
    fileText machine₁.disk ((tableAt machine₁.disk 1).sector i) 0 FileSize = TestText ∧
    (PerformanceTest system.session.fs).run SynchDisk.handle system.machine =
      .done (true, fs) after.machine ∧ NothingLeft system after TestFile := by
  obtain ⟨fs, booted, ran, ⟨formatted, -⟩, -⟩ := zeroMachine_blank.formats
  have runs : System.Runs SmallCall [] ⟨⟨fs, []⟩, booted⟩ := .boot zeroMachine_blank ran
  obtain ⟨fs₁, machine₁, i, fs', after, wrote, -, -, text, tests, nothing⟩ :=
    performance_test_leaves_nothing runs (formatted.absent (by decide) (by decide))
      ⟨2, by decide, formatted.table.unused 2 (by decide) (by decide)⟩
      (show sectorsFor FileSize + 1 ≤ (diskMap booted.disk).freeCount from le_trans (by decide) formatted.room)
  exact ⟨_, fs₁, machine₁, i, fs', after, runs, wrote, text, tests, nothing⟩

end Reached

end Nachos
