import Nachos.Filesys.FormatProofs
import Nachos.Filesys.Operations

/-! Sessions on a consistent disk. `Sound` ties the handles of a session to the
headers in use and to the open counters; `Safe` says what a call must meet for
the file system to stay sound. One lemma per call shows what it preserves, and
`sound_of_runs` follows by induction on the run. -/
namespace Nachos
open Effects FileHeader OpenFile

variable {layout scope : Layout} {disk disk' : Disk} {vis : Counters} {fault : Fault → Prop}
  {session : Session} {fs : FileSystem} {file : OpenFile} {h p : Int} {name : Name}

/-! ## Looking names up -/

/-- Names are unique, so any matching entry is the one a lookup finds. -/
theorem Sheltered.entryIndex_iff (sheltered : Sheltered layout disk) (known : p ∈ layout.dirs)
    {i : Nat} : (tableAt disk p).entryIndex name = some i ↔
      i < 10 ∧ (tableAt disk p).Matches name i := by
  constructor
  · exact Directory.entryIndex_some
  · rintro ⟨bound, found⟩
    obtain ⟨j, first⟩ :=
      Directory.entryIndex_isSome (show i < (tableAt disk p).tableSize from bound) found
    obtain ⟨bound', used, same⟩ := Directory.entryIndex_some first
    rw [first, sheltered.names p known j i bound' bound used found.1
      (Name.strncmpEq_trans same (Name.strncmpEq_symm found.2))]

/-- `"."` in the root names the root. -/
theorem Sheltered.lookup_dot (sheltered : Sheltered layout disk) :
    (tableAt disk 1).entryIndex [dot] = some 0 ∧ (tableAt disk 1).lookup [dot] = 1 := by
  have found : (tableAt disk 1).entryIndex [dot] = some 0 :=
    (sheltered.entryIndex_iff sheltered.root).mpr
      ⟨by omega, (sheltered.self 1 sheltered.root).1⟩
  refine ⟨found, ?_⟩
  unfold Directory.lookup
  rw [found]
  exact sheltered.rootSelf.1

theorem splitPath_of_plain (plain : name.Plain) : FileSystem.splitPath name = ([dot], name) := by
  unfold FileSystem.splitPath Name.absPath
  rw [Name.lastSlash_of_plain plain]
  rfl

/-- A single name is looked up in the root alone. -/
theorem Sheltered.reach_of_plain (sheltered : Sheltered layout disk) (within : scope.Within layout)
    (plain : name.Plain) : Reach scope layout disk name := by
  refine ⟨within, fun _ => ?_⟩
  rw [splitPath_of_plain plain, sheltered.lookup_dot.2]
  exact within.top

theorem Sheltered.near (sheltered : Sheltered layout disk) {name : Name} (i : Nat)
    (found : (tableAt disk 1).entryIndex name = some i) :
    layout.Head ((tableAt disk 1).sector i) :=
  (sheltered.root_entry found).1

/-- A name in the root, with or without `"."` before it, is safe. -/
theorem Sheltered.safe_in_root {last : Name} (sheltered : Sheltered layout disk)
    (split : FileSystem.splitPath name = ([dot], last)) (plain : last.Plain) : SafePath disk name := by
  have single : Name.Plain [dot] := by decide
  refine ⟨by rw [split]; exact single, by rw [split]; exact plain, fun i found => ?_⟩
  rw [split, sheltered.lookup_dot.1] at found
  obtain rfl := Option.some.inj found
  exact sheltered.rootSelf.2.2.1

theorem Sheltered.safe_of_plain (sheltered : Sheltered layout disk) (plain : name.Plain) :
    SafePath disk name := sheltered.safe_in_root (splitPath_of_plain plain) plain

/-- A lookup that succeeds before a `Create` succeeds alike after it. -/
theorem Created.entryIndex_old {q hs : Int} {i len : Nat} {isDir : Bool} {text : Name}
    (created : Created layout disk disk' p hs i name isDir len)
    (sheltered : Sheltered layout disk) (known : q ∈ layout.dirs) {j : Nat}
    (found : (tableAt disk q).entryIndex text = some j) :
    (tableAt disk' q).entryIndex text = some j := by
  have after := created.sheltered sheltered
  have known' : q ∈ (layout.add hs isDir).dirs := by
    unfold Layout.add
    split
    · exact .inr known
    · exact known
  obtain ⟨bound, hit⟩ := (sheltered.entryIndex_iff known).mp found
  have unused := (created.slot_bounds sheltered).2.2
  have other : q ≠ p ∨ j ≠ i := by
    by_contra same
    push Not at same
    obtain ⟨rfl, rfl⟩ := same
    rw [hit.1] at unused
    cases unused
  exact (after.entryIndex_iff known').mpr
    ⟨bound, ((created.old_entry sheltered known bound other).matches_iff text).mpr hit⟩

theorem Created.entryIndex_new {hs : Int} {i len : Nat} {isDir : Bool}
    (created : Created layout disk disk' p hs i name isDir len)
    (sheltered : Sheltered layout disk) : (tableAt disk' p).entryIndex name = some i := by
  have known : p ∈ (layout.add hs isDir).dirs := by
    unfold Layout.add
    split
    · exact .inr created.parent
    · exact created.parent
  exact ((created.sheltered sheltered).entryIndex_iff known).mpr
    ⟨(created.slot_bounds sheltered).2.1, (created.new_entry sheltered).1⟩

/-- A name that is not there is not there after a `Create` of another one. -/
theorem Created.entryIndex_none {hs : Int} {i len : Nat} {isDir : Bool} {text : Name}
    (created : Created layout disk disk' p hs i name isDir len) (sheltered : Sheltered layout disk)
    (absent : (tableAt disk p).entryIndex text = none)
    (differs : ¬ Name.strncmpEq name.chars text.chars FileNameMaxLen = true) :
    (tableAt disk' p).entryIndex text = none := by
  cases found : (tableAt disk' p).entryIndex text with
  | none => rfl
  | some j =>
    obtain ⟨bound, used, hit⟩ := Directory.entryIndex_some found
    by_cases new : j = i
    · subst new
      have mine := (created.new_entry sheltered).2.2.2
      exact absurd (Name.strncmpEq_trans (Name.strncmpEq_symm mine) hit) differs
    · have old := created.old_entry sheltered created.parent bound (.inr new)
      exact absurd ((old.matches_iff text).mp ⟨used, hit⟩) (Directory.entryIndex_none absent bound)

/-- After a `Create` the path still leads to the same directory. -/
theorem Created.path {text : Name} {hs : Int} {i len : Nat} {isDir : Bool}
    (created : Created layout disk disk' p hs i text isDir len)
    (sheltered : Sheltered layout disk) (safe : SafePath disk name)
    (lookup : p = (tableAt disk 1).lookup (FileSystem.splitPath name).1) :
    SafePath disk' name ∧ p = (tableAt disk' 1).lookup (FileSystem.splitPath name).1 := by
  have valid := (sheltered.valid_head (.inr (.inl created.parent))).1
  cases found : (tableAt disk 1).entryIndex (FileSystem.splitPath name).1 with
  | none =>
    unfold Directory.lookup at lookup
    rw [found] at lookup
    dsimp only at lookup
    omega
  | some j =>
    have found' := created.entryIndex_old sheltered sheltered.root found
    obtain ⟨bound, used, -⟩ := Directory.entryIndex_some found
    have unused := (created.slot_bounds sheltered).2.2
    have entry := created.old_entry sheltered sheltered.root (j := j) bound (by
      by_contra same
      push Not at same
      obtain ⟨rfl, rfl⟩ := same
      rw [used] at unused
      cases unused)
    refine ⟨⟨safe.first, safe.last, fun k here => ?_⟩, ?_⟩
    · obtain rfl : j = k := Option.some.inj (found'.symm.trans here)
      rw [entry.type]
      exact safe.directory j found
    · unfold Directory.lookup at lookup ⊢
      rw [found] at lookup
      rw [found']
      exact lookup.trans entry.sector.symm

/-! ## Counting handles -/

/-- Whether a slot of the handle table holds a handle on `s`. -/
def onSector (s : Int) : Option OpenFile → Bool
  | some file => file.hdr.sectorNumber == s
  | none => false

/-- The number of open handles on `s`. -/
def Session.openOn (session : Session) (s : Int) : Nat := session.handles.countP (onSector s)

theorem Session.file_some {i : Nat} (opened : session.file i = some file) :
    ∃ bound : i < session.handles.length, session.handles[i] = some file := by
  unfold Session.file at opened
  cases found : session.handles[i]? with
  | none =>
    rw [found] at opened
    cases opened
  | some slot =>
    rw [found] at opened
    obtain ⟨bound, here⟩ := List.getElem?_eq_some_iff.mp found
    exact ⟨bound, here.trans opened⟩

theorem Session.file_setFile {i j : Nat} {slot : Option OpenFile}
    (bound : i < session.handles.length) :
    (session.setFile i slot).file j = if j = i then slot else session.file j := by
  unfold Session.setFile Session.file
  by_cases same : j = i
  · subst same
    simp [bound]
  · simp [Ne.symm same, same]

theorem Session.openOn_setFile {i : Nat} (opened : session.file i = some file)
    (slot : Option OpenFile) (s : Int) :
    (session.setFile i slot).openOn s + (if file.hdr.sectorNumber = s then 1 else 0) =
      session.openOn s + if onSector s slot then 1 else 0 := by
  obtain ⟨bound, here⟩ := Session.file_some opened
  unfold Session.openOn Session.setFile
  rw [List.countP_set bound, here]
  have positive : onSector s (some file) = true → 0 < session.handles.countP (onSector s) :=
    fun on => List.countP_pos_iff.mpr ⟨_, List.mem_of_getElem here, on⟩
  by_cases on : file.hdr.sectorNumber = s
  · have set : onSector s (some file) = true := by simpa [onSector] using on
    have some := positive set
    rw [if_pos set, if_pos on]
    omega
  · have clear : ¬ onSector s (some file) = true := by simpa [onSector] using on
    rw [if_neg clear, if_neg on]
    omega

/-- Exchanging a handle for one on the same header leaves the count alone. -/
theorem Session.openOn_exchange {i : Nat} {file' : OpenFile} (opened : session.file i = some file)
    (same : file'.hdr.sectorNumber = file.hdr.sectorNumber) (s : Int) :
    (session.setFile i (some file')).openOn s = session.openOn s := by
  have count := Session.openOn_setFile opened (some file') s
  have equal : (onSector s (some file') = true) = (file.hdr.sectorNumber = s) := by
    simp [onSector, same]
  simp only [equal] at count
  omega

theorem Session.openOn_closed {i : Nat} (opened : session.file i = some file) (s : Int) :
    (session.setFile i none).openOn s + (if file.hdr.sectorNumber = s then 1 else 0) =
      session.openOn s := by
  have count := Session.openOn_setFile opened none s
  have clear : (onSector s none = true) = False := by simp [onSector]
  simp only [clear, if_false] at count
  exact count

theorem Session.openOn_opened (s : Int) :
    Session.openOn { fs := fs, handles := session.handles ++ [some file] } s =
      session.openOn s + if file.hdr.sectorNumber = s then 1 else 0 := by
  have equal : (onSector s (some file) = true) = (file.hdr.sectorNumber = s) := by
    simp [onSector]
  unfold Session.openOn
  rw [List.countP_append, List.countP_singleton]
  simp only [equal]

/-- An open handle is counted. -/
theorem Session.openOn_pos {i : Nat} (opened : session.file i = some file) :
    0 < session.openOn file.hdr.sectorNumber := by
  obtain ⟨bound, here⟩ := Session.file_some opened
  exact List.countP_pos_iff.mpr ⟨_, List.mem_of_getElem here, by simp [onSector]⟩

/-- What is counted is an open handle. -/
theorem Session.exists_open {s : Int} (counted : 0 < session.openOn s) :
    ∃ i file, session.file i = some file ∧ file.hdr.sectorNumber = s := by
  obtain ⟨slot, member, on⟩ := List.countP_pos_iff.mp counted
  cases slot with
  | none => cases on
  | some file =>
    obtain ⟨i, bound, here⟩ := List.getElem_of_mem member
    refine ⟨i, file, ?_, by simpa [onSector] using on⟩
    unfold Session.file
    rw [List.getElem?_eq_getElem bound, here]
    rfl

/-- A handle of the longer table is an old one or the new one. -/
theorem Session.file_opened {j : Nat} {other : OpenFile}
    (there : Session.file { fs := fs, handles := session.handles ++ [some file] } j = some other) :
    session.file j = some other ∨ other = file := by
  unfold Session.file at there
  dsimp only at there
  rw [List.getElem?_append] at there
  split at there
  · exact .inl there
  · cases last : j - session.handles.length with
    | zero =>
      rw [last] at there
      exact .inr (by simpa using there.symm)
    | succ more =>
      rw [last] at there
      simp at there

/-- The handles the kernel itself keeps. -/
def kernelHandles (s : Int) : Nat := if s = 0 ∨ s = 1 then 1 else 0

/-- The disk is consistent, the kernel's handles are current, every open handle
is on a header in use, and no handle is missing from the counters. -/
structure Sound (layout : Layout) (session : Session) (disk : Disk) (vis : Counters) : Prop where
  consistent : Consistent layout disk
  mounted : Mounted session.fs disk
  heads : ∀ i file, session.file i = some file → layout.Head file.hdr.sectorNumber
  counted : ∀ s, ((kernelHandles s + session.openOn s : Nat) : Int) ≤ vis s

namespace Sound

theorem sheltered (sound : Sound layout session disk vis) : Sheltered layout disk :=
  sound.consistent.sheltered

/-- A sector whose counter is zero has no open handle. -/
theorem not_open (sound : Sound layout session disk vis) {i : Nat}
    (opened : session.file i = some file) : vis file.hdr.sectorNumber ≠ 0 := by
  have positive := Session.openOn_pos opened
  have counted := sound.counted file.hdr.sectorNumber
  omega

theorem root_counted (sound : Sound layout session disk vis) : 0 < vis 1 := by
  have counted := sound.counted 1
  have kept : kernelHandles 1 = 1 := rfl
  omega

theorem root_busy (sound : Sound layout session disk vis) : vis 1 ≠ 0 :=
  sound.root_counted.ne'

/-- A change of file system and disk that keeps the handles' headers in use. -/
theorem replace {layout' : Layout} {vis' : Counters} (sound : Sound layout session disk vis)
    (consistent : Consistent layout' disk') (mounted : Mounted fs disk')
    (kept : ∀ h, layout.Head h → vis h ≠ 0 → layout'.Head h) (counters : ∀ s, vis s ≤ vis' s) :
    Sound layout' { session with fs := fs } disk' vis' where
  consistent := consistent
  mounted := mounted
  heads := fun i file opened => kept _ (sound.heads i file opened) (sound.not_open opened)
  counted := fun s => (sound.counted s).trans (counters s)

/-- An open handle is exchanged for one on the same header. -/
theorem exchange {i : Nat} {file' : OpenFile} (sound : Sound layout session disk vis)
    (opened : session.file i = some file) (consistent : Consistent layout disk')
    (mounted : Mounted session.fs disk')
    (same : file'.hdr.sectorNumber = file.hdr.sectorNumber) :
    Sound layout (session.setFile i (some file')) disk' vis where
  consistent := consistent
  mounted := mounted
  heads := fun j other there => by
    obtain ⟨bound, -⟩ := Session.file_some opened
    rw [Session.file_setFile bound] at there
    split at there
    · obtain rfl := Option.some.inj there
      rw [same]
      exact sound.heads i file opened
    · exact sound.heads j other there
  counted := fun s => by
    rw [Session.openOn_exchange opened same]
    exact sound.counted s

/-- A new handle, counted once. -/
theorem opened {vis' : Counters} (sound : Sound layout session disk vis)
    (consistent : Consistent layout disk') (mounted : Mounted fs disk')
    (known : layout.Head file.hdr.sectorNumber)
    (counters : ∀ s, vis s + (if file.hdr.sectorNumber = s then 1 else 0) ≤ vis' s) :
    Sound layout { fs := fs, handles := session.handles ++ [some file] } disk' vis' where
  consistent := consistent
  mounted := mounted
  heads := fun j other there => by
    obtain old | rfl := Session.file_opened there
    · exact sound.heads j other old
    · exact known
  counted := fun s => by
    have counted := sound.counted s
    have more := counters s
    rw [Session.openOn_opened]
    by_cases on : file.hdr.sectorNumber = s
    · rw [if_pos on] at more ⊢
      omega
    · rw [if_neg on] at more ⊢
      omega

theorem closed {i : Nat} (sound : Sound layout session disk vis)
    (opened : session.file i = some file) :
    Sound layout (session.setFile i none) disk
      (Function.update vis file.hdr.sectorNumber (vis file.hdr.sectorNumber - 1)) where
  consistent := sound.consistent
  mounted := sound.mounted
  heads := fun j other there => by
    obtain ⟨bound, -⟩ := Session.file_some opened
    rw [Session.file_setFile bound] at there
    split at there
    · cases there
    · exact sound.heads j other there
  counted := fun s => by
    have count := Session.openOn_closed opened s
    have counted := sound.counted s
    by_cases same : s = file.hdr.sectorNumber
    · subst same
      rw [Function.update_self]
      rw [if_pos rfl] at count
      omega
    · rw [Function.update_of_ne same]
      rw [if_neg (Ne.symm same)] at count
      omega

end Sound

/-! ## Safe calls -/

/-- Some path of entries leads from the root to a regular file with header `h`. -/
def IsFile (disk : Disk) (h : Int) : Prop :=
  ∃ path, Walk (Child disk) (1, true) path (h, false)

theorem Sheltered.file_of_walk (sheltered : Sheltered layout disk) (reached : IsFile disk h) :
    h ∈ layout.files := by
  obtain ⟨path, walk⟩ := reached
  exact sheltered.tree.walk_node walk

/-- A write of `n` bytes at `pos` through this handle stays out of trouble: the
header copy is current, the file is no directory, the file does not grow over
the border of eight sectors, there is room, and the entries of the indirect
block it goes through fit in seven bits. -/
structure WriteSafe (disk : Disk) (file : OpenFile) (n pos : Nat) : Prop where
  current : Current disk file file.hdr.sectorNumber
  regular : IsFile disk file.hdr.sectorNumber
  room : sectorsFor (pos + n) ≤ 8 ∨ sectorsFor (pos + n) ≤ sectorsFor file.hdr.numBytes.toNat
  enough : sectorsFor (pos + n) - sectorsFor file.hdr.numBytes.toNat ≤ (diskMap disk).freeCount
  small : SmallBetween disk file.hdr.sectorNumber (pos / 128)
    (min (sectorsFor file.hdr.numBytes.toNat) (sectorsFor (pos + n)))

/-- What a call must meet, in the state in which it is made. -/
def Safe (session : Session) (disk : Disk) (vis : Counters) : Call → Prop
  | .create name size => SafePath disk name ∧
      if size = -1 then ReusableHeader disk
      else 0 ≤ size ∧ ShortExtension name ∧ sectorsFor size.toNat ≤ 40 ∧
        (9 ≤ sectorsFor size.toNat → (diskMap disk).freeCount ≠ sectorsFor size.toNat + 1)
  | .openFile name => SafePath disk name
  | .read handle _ n => ∃ file, session.file handle = some file ∧
      (n ≤ 0 ∨ file.seekPosition > file.hdr.numBytes ∨
        0 ≤ file.seekPosition ∧ Current disk file file.hdr.sectorNumber)
  | .write handle _ n => ∃ file, session.file handle = some file ∧
      (n ≤ 0 ∨ file.seekPosition > file.hdr.numBytes ∨
        0 ≤ file.seekPosition ∧ WriteSafe disk file n.toNat file.seekPosition.toNat)
  | .seek handle _ => ∃ file, session.file handle = some file
  | .close handle => ∃ file, session.file handle = some file
  | .remove name => name.Plain ∧ ∀ i, (tableAt disk 1).entryIndex name = some i →
      vis ((tableAt disk 1).sector i) = 0 → Removable disk i
  | .writepipe _ size name => SafePath disk name ∧ ShortExtension name ∧ size ≤ 1024 ∧
      sectorsFor size.toNat + 1 ≤ (diskMap disk).freeCount
  | .readpipe _ name => name.Plain ∧ ∀ i, (tableAt disk 1).entryIndex name = some i →
      vis ((tableAt disk 1).sector i) = 0 → Removable disk i

/-- The file system is sound with some layout. -/
def SoundHere (session : Session) (disk : Disk) (vis : Counters) : Prop :=
  ∃ layout, Sound layout session disk vis

/-- What can stop the kernel in a safe call: an `ASSERT`, or a read whose end no `int`
holds. -/
def Call.MayStop (session : Session) : Call → Fault → Prop
  | .read handle _ n, reason => reason = .assertion ∨
      ∃ file, session.file handle = some file ∧ 2147483648 ≤ file.seekPosition + n
  | _, reason => reason = .assertion

def Keeps (session : Session) (disk : Disk) (vis : Counters) (call : Call) : Prop :=
  Ensures (call.perform session) (fun result disk' vis' => SoundHere result.2 disk' vis')
    (call.MayStop session) disk vis

section Calls

theorem keeps_create {size : Int} (sound : Sound layout session disk vis)
    (safe : Safe session disk vis (.create name size)) :
    Keeps session disk vis (.create name size) := by
  obtain ⟨path, kind⟩ := safe
  unfold Keeps Call.perform
  apply ensures_bind
  have refused : ∀ fs' disk', Quiet layout disk disk' → Mounted fs' disk' →
      Ensures (pure (Reply.flag false, { session with fs := fs' }))
        (fun result disk' vis' => SoundHere result.2 disk' vis') (· = .assertion) disk' vis :=
    fun fs' disk' quiet mounted => ensures_pure ⟨layout, sound.replace
      (quiet.consistent sound.consistent) mounted (fun _ known _ => known) fun _ => le_rfl⟩
  split at kind
  · rename_i directory
    subst directory
    refine ensures_Create_directory sound.sheltered sound.mounted path kind (fun _ => rfl)
      (fun fs' disk' _ => refused fs' disk') ?_
    intro fs' disk' p hs i _ _ created mounted
    exact ensures_pure ⟨_, sound.replace (created.consistent sound.consistent) mounted
      (fun _ known _ => Layout.head_add.mpr (.inl known)) fun _ => le_rfl⟩
  · obtain ⟨positive, short, fits, spare⟩ := kind
    lift size to Nat using positive
    refine ensures_Create_file sound.sheltered sound.sheltered.reach sound.mounted path short fits spare
      (fun _ _ => rfl) (fun fs' disk' _ => refused fs' disk') ?_
    intro fs' disk' p hs i _ _ created _ mounted
    exact ensures_pure ⟨_, sound.replace (created.consistent sound.consistent) mounted
      (fun _ known _ => Layout.head_add.mpr (.inl known)) fun _ => le_rfl⟩

theorem counters_grow (vis : Counters) (p s : Int) : vis s ≤ Function.update vis p (vis p + 1) s := by
  by_cases same : s = p
  · subst same
    rw [Function.update_self]
    omega
  · rw [Function.update_of_ne same]

theorem keeps_openFile (sound : Sound layout session disk vis)
    (safe : Safe session disk vis (.openFile name)) : Keeps session disk vis (.openFile name) := by
  unfold Keeps Call.perform
  apply ensures_bind
  have grows : ∀ p s, vis s ≤ Function.update vis p (vis p + 1) s := counters_grow vis
  refine ensures_Open sound.sheltered sound.sheltered.reach sound.mounted safe (fun _ => rfl) ?_ ?_
  · intro fs' disk' p _ _ _ quiet mounted
    exact ensures_pure ⟨layout, sound.replace (quiet.consistent sound.consistent) mounted
      (fun _ known _ => known) (grows p)⟩
  · intro fs' file disk' p i s _ _ _ _ quiet mounted known current _
    have sheltered := quiet.sheltered sound.sheltered
    have number := sheltered.number known current
    refine ensures_pure
      ⟨layout, sound.opened (quiet.consistent sound.consistent) mounted (by rw [number]; exact known) ?_⟩
    intro t
    have first := grows p t
    rw [number]
    by_cases same : s = t
    · subst same
      rw [if_pos rfl, Function.update_self]
      omega
    · rw [if_neg same, Function.update_of_ne (Ne.symm same)]
      omega

theorem keeps_read {handle : Nat} {into : Memory} {n : Int} (sound : Sound layout session disk vis)
    (safe : Safe session disk vis (.read handle into n)) :
    Keeps session disk vis (.read handle into n) := by
  obtain ⟨file, opened, safe⟩ := safe
  have known := sound.heads handle file opened
  unfold Keeps Call.perform Session.through
  dsimp only
  rw [opened]
  apply ensures_bind
  unfold OpenFile.Read
  rw [if_pos (sound.sheltered.valid_head known)]
  apply ensures_bind
  by_cases nothing : n ≤ 0 ∨ file.seekPosition > file.hdr.numBytes
  · refine ensures_ReadAt_nothing nothing ?_
    apply ensures_pure
    exact ensures_pure ⟨layout, sound.exchange opened sound.consistent sound.mounted rfl⟩
  · obtain ⟨low, current⟩ : 0 ≤ file.seekPosition ∧ Current disk file file.hdr.sectorNumber := by
      tauto
    push Not at nothing
    obtain ⟨len, headed⟩ := sound.sheltered.headed _ known
    have length := current.numBytes.trans headed.length
    obtain ⟨count, rfl⟩ := Int.eq_ofNat_of_zero_le (show 0 ≤ n by omega)
    obtain ⟨pos, start⟩ := Int.eq_ofNat_of_zero_le low
    have sum : pos + count < 2147483648 ∨
        (Call.read handle into count).MayStop session .undefined := by
      by_cases fits : pos + count < 2147483648
      · exact .inl fits
      · exact .inr (.inr ⟨file, opened, by omega⟩)
    rw [start] at nothing ⊢
    refine ensures_ReadAt_head sound.sheltered known known headed current (by omega) (by omega) sum
      (.inl rfl) ?_
    intro file' into' disk' quiet current' _
    have sheltered := quiet.sheltered sound.sheltered
    apply ensures_pure
    exact ensures_pure ⟨layout, sound.exchange opened (quiet.consistent sound.consistent)
      (sound.mounted.quiet sound.sheltered quiet) (sheltered.number known current')⟩

theorem keeps_write {handle : Nat} {source : Memory} {n : Int}
    (sound : Sound layout session disk vis) (safe : Safe session disk vis (.write handle source n)) :
    Keeps session disk vis (.write handle source n) := by
  obtain ⟨file, opened, safe⟩ := safe
  have known := sound.heads handle file opened
  unfold Keeps Call.perform Session.through
  dsimp only
  rw [opened]
  apply ensures_bind
  unfold OpenFile.Write
  rw [if_pos (sound.sheltered.valid_head known)]
  apply ensures_bind
  by_cases nothing : n ≤ 0 ∨ file.seekPosition > file.hdr.numBytes
  · refine ensures_WriteAt_nothing nothing ?_
    apply ensures_pure
    exact ensures_pure ⟨layout, sound.exchange opened sound.consistent sound.mounted rfl⟩
  · obtain ⟨low, safe⟩ : 0 ≤ file.seekPosition ∧
        WriteSafe disk file n.toNat file.seekPosition.toNat := by tauto
    push Not at nothing
    have regular := sound.sheltered.file_of_walk safe.regular
    obtain ⟨len, headed⟩ := sound.sheltered.headed _ known
    have length := safe.current.numBytes.trans headed.length
    obtain ⟨count, rfl⟩ := Int.eq_ofNat_of_zero_le (show 0 ≤ n by omega)
    obtain ⟨pos, start⟩ := Int.eq_ofNat_of_zero_le low
    obtain ⟨current, -, room, enough, small⟩ := safe
    rw [length, start, Int.toNat_natCast, Int.toNat_natCast, Int.toNat_natCast] at room enough small
    rw [start] at nothing ⊢
    refine ensures_WriteAt_file sound.sheltered regular regular headed current (by omega) (by omega) room
      enough small ?_
    intro file' disk' written grew current' _
    have sheltered := grew.sheltered sound.sheltered
    apply ensures_pure
    exact ensures_pure ⟨layout, sound.exchange opened (grew.consistent sound.consistent)
      (grew.mounted sound.sheltered sound.mounted) (sheltered.number known current')⟩

theorem keeps_seek {handle : Nat} {position : Int} (sound : Sound layout session disk vis)
    (safe : Safe session disk vis (.seek handle position)) :
    Keeps session disk vis (.seek handle position) := by
  obtain ⟨file, opened⟩ := safe
  unfold Keeps Call.perform Session.through
  dsimp only
  rw [opened]
  exact ensures_pure ⟨layout, sound.exchange opened sound.consistent sound.mounted rfl⟩

theorem keeps_close {handle : Nat} (sound : Sound layout session disk vis)
    (safe : Safe session disk vis (.close handle)) : Keeps session disk vis (.close handle) := by
  obtain ⟨file, opened⟩ := safe
  unfold Keeps Call.perform Session.through
  dsimp only
  rw [opened]
  apply ensures_bind
  refine ensures_delete (sound.sheltered.valid_head (sound.heads handle file opened)) ?_
  exact ensures_pure ⟨layout, sound.closed opened⟩

/-- A removal of something without open handles, as the rest of a call. -/
theorem Sound.removed {e : Int} {i : Nat} {isDir : Bool} {vis' : Counters}
    (sound : Sound layout session disk vis) (removed : Removed layout disk disk' 1 e i isDir)
    (mounted : Mounted fs disk') (free : vis e = 0) (counters : ∀ s, vis s ≤ vis' s) :
    Sound (layout.remove e) { session with fs := fs } disk' vis' := by
  refine sound.replace (removed.consistent sound.consistent) mounted (fun h known busy => ?_) counters
  refine (Layout.head_remove (removed.node sound.sheltered).2.1).mpr ⟨known, ?_⟩
  rintro rfl
  exact busy free

theorem keeps_remove (sound : Sound layout session disk vis)
    (safe : Safe session disk vis (.remove name)) : Keeps session disk vis (.remove name) := by
  obtain ⟨plain, removable⟩ := safe
  unfold Keeps Call.perform
  apply ensures_bind
  refine ensures_Remove sound.sheltered sound.sheltered.whole sound.mounted plain sound.root_busy removable ?_ ?_
  · intro fs' disk' quiet mounted _
    exact ensures_pure ⟨layout, sound.replace (quiet.consistent sound.consistent) mounted
      (fun _ known _ => known) fun _ => le_rfl⟩
  · intro fs' disk' e i isDir _ _ free removed mounted
    exact ensures_pure ⟨_, sound.removed removed mounted free fun _ => le_rfl⟩

/-- Writing the length back once more changes nothing. -/
private theorem setLength_same {size : Int} (length : file.hdr.numBytes = size) :
    file.hdr.SetLength size = file.hdr := by
  rw [← length]
  exact setField_field _ _

/-- A handle that is opened and closed again is not counted. -/
theorem counters_reopened {p s : Int} :
    Function.update (Function.update (Function.update vis p (vis p + 1)) s
        (Function.update vis p (vis p + 1) s + 1)) s
        (Function.update (Function.update vis p (vis p + 1)) s
          (Function.update vis p (vis p + 1) s + 1) s - 1) =
      Function.update vis p (vis p + 1) := by
  rw [Function.update_idem, Function.update_self, Int.add_sub_cancel, Function.update_eq_self]

/-- The end of `Writepipe`: the header is written once more, the handle closed. -/
private theorem ensures_finishPipe {size : Int} {post : Int × FileSystem → Disk → Counters → Prop}
    (sheltered : Sheltered layout disk) (known : layout.Head h) (near : scope.Head h)
    (current : Current disk file h) (length : file.hdr.numBytes = size)
    (holds : ∀ disk', Quiet scope disk disk' →
      post (size, fs) disk' (Function.update vis h (vis h - 1))) :
    Ensures (do
      let hdr := file.hdr.SetLength size
      hdr.WriteBack hdr.sectorNumber
      OpenFile.delete { file with hdr := hdr }
      return (size, fs)) post fault disk vis := by
  have valid := sheltered.valid_head known
  have number := sheltered.number known current
  rw [setLength_same length]
  dsimp only
  rw [number]
  apply ensures_bind
  refine ensures_WriteBack valid ?_
  apply ensures_bind
  refine ensures_delete (by rw [number]; exact valid) ?_
  rw [number]
  exact ensures_pure (holds _ (Frame.clock near current _))

/-- `Writepipe` that finds the name new makes a file of the data, and leaves the handle
on its directory counted. -/
theorem ensures_Writepipe {data : Memory} {size : Int} {post : Int × FileSystem → Disk → Counters → Prop}
    (sheltered : Sheltered layout disk) (reach : Reach scope layout disk name)
    (mounted : Mounted fs disk) (path : SafePath disk name) (short : ShortExtension name) (small : size ≤ 1024)
    (enough : sectorsFor size.toNat + 1 ≤ (diskMap disk).freeCount)
    (allowed : (tableAt disk 1).entryIndex (FileSystem.splitPath name).1 = none → fault .assertion)
    (refused : ∀ fs' disk', NoEntry disk ((tableAt disk 1).lookup (FileSystem.splitPath name).1)
      (FileSystem.splitPath name).2 → Quiet scope disk disk' → Mounted fs' disk' →
      post (-1, fs') disk' vis)
    (holds : ∀ fs' disk' p hs i, p = (tableAt disk 1).lookup (FileSystem.splitPath name).1 →
      Created scope disk disk' p hs i (FileSystem.splitPath name).2 false size.toNat →
      Mounted fs' disk' →
      (∀ o, o < size.toNat → fileByte disk' (headerAt disk' hs) o = data o) →
      post (size.toNat, fs') disk' (Function.update vis p (vis p + 1))) :
    Ensures (fs.Writepipe data size name) post fault disk vis := by
  have eight : sectorsFor size.toNat ≤ 8 := by
    unfold sectorsFor
    omega
  have none : sectorsFor 0 = 0 := rfl
  unfold FileSystem.Writepipe
  apply ensures_bind
  change Ensures (fs.Create name ((0 : Nat) : Int)) _ _ _ _
  refine ensures_Create_file sheltered reach mounted path short (by decide)
    (fun large => absurd large (by decide)) ?_ ?_ ?_
  · rintro - (missing | ⟨hs, freeMap, -, without⟩)
    · exact allowed missing
    · exact absurd ⟨Nat.zero_le _, by simp [none], by simp⟩ (without 0)
  · intro fs' disk' reason quiet mounted'
    refine ensures_pure (refused fs' disk' (reason.resolve_right ?_) quiet mounted')
    omega
  intro fs₁ disk₁ p hs i lookup _ made _ mounted₁
  have within := reach.within
  have wider := within.add hs false
  have created : Created layout disk disk₁ p hs i _ false 0 := made.widen within
  have sheltered₁ := created.sheltered sheltered
  obtain ⟨path₁, lookup₁⟩ := created.path sheltered path lookup
  have reach₁ : Reach (scope.add hs false) (layout.add hs false) disk₁ name :=
    ⟨wider, fun _ => lookup₁ ▸ made.parent⟩
  have entry := created.entryIndex_new sheltered
  have file₁ : hs ∈ (layout.add hs false).files := .inl rfl
  have near₁ : hs ∈ (scope.add hs false).files := .inl rfl
  have head₁ : (layout.add hs false).Head hs := .inr (.inr file₁)
  have free₁ : sectorsFor size.toNat ≤ (diskMap disk₁).freeCount := by
    have count := BitMap.freeCount_takes created.taken
    rw [claimed_direct created.headed.sectors (by decide)] at count
    simp only [List.length_cons, length_slots] at count
    omega
  dsimp only
  rw [if_neg (by simp)]
  apply ensures_bind
  refine ensures_Open sheltered₁ reach₁ mounted₁ path₁ ?_ ?_ ?_
  · intro missing
    have valid := (sheltered.valid_head (.inr (.inl created.parent))).1
    unfold Directory.lookup at lookup₁
    rw [missing] at lookup₁
    dsimp only at lookup₁
    omega
  · intro fs' disk' q lookup' _ missing
    rw [← lookup₁] at lookup'
    rw [lookup', entry] at missing
    cases missing
  intro fs₂ file disk₂ q j s lookup₂ _ found sector quiet₂ mounted₂ _ current position
  rw [← lookup₁] at lookup₂
  subst lookup₂
  obtain rfl := Option.some.inj (entry.symm.trans found)
  rw [(created.new_entry sheltered).2.1] at sector
  subst sector
  have wide₂ := quiet₂.widen wider
  have sheltered₂ := wide₂.sheltered sheltered₁
  have created₂ := made.quiet sheltered within quiet₂
  have headed₂ := created₂.headed
  have length : file.hdr.numBytes = ((0 : Nat) : Int) := current.numBytes.trans headed₂.length
  apply ensures_bind
  unfold OpenFile.Write
  rw [if_pos (by rw [sheltered₂.number head₁ current]; exact sheltered₂.valid_head head₁)]
  apply ensures_bind
  by_cases nothing : size ≤ 0
  · have zero : size.toNat = 0 := by omega
    rw [zero] at holds
    refine ensures_WriteAt_nothing (.inl nothing) ?_
    apply ensures_pure
    refine ensures_finishPipe sheltered₂ head₁ (.inr (.inr near₁)) current length
      fun disk₃ quiet₃ => ?_
    rw [counters_reopened]
    exact holds _ disk₃ _ _ _ lookup (created₂.quiet sheltered within quiet₃)
      (mounted₂.quiet sheltered₂ (quiet₃.widen wider)) (by omega)
  · obtain ⟨n, rfl⟩ := Int.eq_ofNat_of_zero_le (show 0 ≤ size by omega)
    rw [Int.toNat_natCast] at free₁ eight holds
    have whole : max 0 (0 + n) = n := by omega
    rw [position]
    change Ensures (file.WriteAt data (n : Int) ((0 : Nat) : Int)) _ _ _ _
    refine ensures_WriteAt_file sheltered₂ file₁ near₁ headed₂ current (by omega) le_rfl
      (.inl (by rw [Nat.zero_add]; exact eight)) ?_ ?_ ?_
    · rw [(wide₂.map sheltered₁).freeCount, Nat.zero_add]
      exact (Nat.sub_le _ _).trans free₁
    · intro k far _ bound
      omega
    · intro file' disk₃ written grew current₃ _
      have direct : sectorsFor (max 0 (0 + n)) ≤ 8 := (congrArg sectorsFor whole).trans_le eight
      have header₂ := sheltered₂.header file₁ headed₂ current (by decide)
      have content : ∀ o, o < n → fileByte disk₃ (headerAt disk₃ hs) o = data o := by
        intro o inside
        rw [written.content sheltered₂ file₁ headed₂ current current₃ direct (by omega) le_rfl,
          if_pos (by omega), Nat.sub_zero]
      have rest := fun s => header₂.free_kept written direct (s := s)
      rw [whole] at grew direct
      have wide₃ := grew.widen wider
      have sheltered₃ := wide₃.sheltered sheltered₂
      have created₃ := created₂.grew sheltered within grew direct rest
      have length₃ : file'.hdr.numBytes = (n : Int) := by rw [written.length, whole]
      apply ensures_pure
      refine ensures_finishPipe sheltered₃ head₁ (.inr (.inr near₁)) ?_ ?_ fun disk₄ quiet₄ => ?_
      · exact current₃
      · exact length₃
      have wide₄ := quiet₄.widen wider
      rw [counters_reopened]
      refine holds _ disk₄ _ _ _ lookup (created₃.quiet sheltered within quiet₄)
        ((wide₃.mounted sheltered₂ mounted₂).quiet sheltered₃ wide₄) fun o inside => ?_
      rw [wide₄.byte sheltered₃ head₁ grew.after (.of_direct direct) inside]
      exact content o inside

theorem keeps_writepipe {data : Memory} {size : Int} (sound : Sound layout session disk vis)
    (safe : Safe session disk vis (.writepipe data size name)) :
    Keeps session disk vis (.writepipe data size name) := by
  unfold Keeps Call.perform
  apply ensures_bind
  obtain ⟨path, short, small, enough⟩ := safe
  refine ensures_Writepipe sound.sheltered sound.sheltered.reach sound.mounted path short small
    enough (fun _ => rfl) ?_ ?_
  · intro fs' disk' _ quiet mounted
    exact ensures_pure ⟨layout, sound.replace (quiet.consistent sound.consistent) mounted
      (fun _ known _ => known) fun _ => le_rfl⟩
  · intro fs' disk' p hs i _ created mounted _
    exact ensures_pure ⟨_, sound.replace (created.consistent sound.consistent) mounted
      (fun _ known _ => Layout.head_add.mpr (.inl known)) (counters_grow vis p)⟩

theorem Removable.quiet {i : Nat} (removable : Removable disk i) (quiet : Quiet layout disk disk')
    (sheltered : Sheltered layout disk) (bound : i < 10)
    (used : (tableAt disk 1).inUse i = true) : Removable disk' i := by
  have entry := (quiet.same_table sheltered sheltered.root).entry bound
  have known := sheltered.entry_head sheltered.root bound used
  refine ⟨fun kind j c below => ?_, ?_⟩
  · rw [entry.type] at kind
    rw [entry.sector] at below
    by_cases low : 2 ≤ i
    · have node := (sheltered.child sheltered.root low bound used).2
      rw [decide_eq_true kind] at node
      exact removable.empty kind j c ((child_same (quiet.same_table sheltered node)).mp below)
    · have root : (tableAt disk 1).sector i = 1 := by
        obtain rfl | rfl : i = 0 ∨ i = 1 := by omega
        · exact sheltered.rootSelf.1
        · exact sheltered.rootSelf.2.1
      rw [root] at below
      refine removable.empty kind j c ?_
      rw [root]
      exact (child_same (quiet.same_table sheltered sheltered.root)).mp below
  · rw [entry.sector]
    exact removable.entries.quiet quiet sheltered known

/-- `Readpipe` leaves the handle on the root counted. It gives the file back unless that
is empty or open. -/
theorem ensures_Readpipe {buffer : Memory} {post : Int × Memory × FileSystem → Disk → Counters → Prop}
    (sheltered : Sheltered layout disk) (within : scope.Within layout)
    (near : ∀ i, (tableAt disk 1).entryIndex name = some i →
      scope.Head ((tableAt disk 1).sector i))
    (mounted : Mounted fs disk) (plain : name.Plain) (busy : 0 < vis 1)
    (removable : ∀ i, (tableAt disk 1).entryIndex name = some i →
      vis ((tableAt disk 1).sector i) = 0 → Removable disk i)
    (allowed : ∀ i, (tableAt disk 1).entryIndex name = some i →
      (∀ len, (tableAt disk 1).sector i ∈ layout.files → Headed disk ((tableAt disk 1).sector i) len →
        ¬ sectorsFor len ≤ 8) → fault .assertion)
    (missing : (tableAt disk 1).entryIndex name = none → ∀ fs' disk', Quiet scope disk disk' →
      Mounted fs' disk' → post (-1, buffer, fs') disk' (Function.update vis 1 (vis 1 + 1)))
    (kept : ∀ i, (tableAt disk 1).entryIndex name = some i →
      Headed disk ((tableAt disk 1).sector i) 0 ∨ vis ((tableAt disk 1).sector i) ≠ 0 →
      ∀ n into fs' disk', Quiet scope disk disk' → Mounted fs' disk' →
      post (n, into, fs') disk' (Function.update vis 1 (vis 1 + 1)))
    (done : ∀ len into fs' disk' e i isDir, (tableAt disk 1).entryIndex name = some i →
      (tableAt disk 1).sector i = e → vis e = 0 → Headed disk e len →
      (e ∈ layout.files → sectorsFor len ≤ 8 →
        ∀ o, o < len → into o = fileByte disk (headerAt disk e) o) →
      Removed scope disk disk' 1 e i isDir → Mounted fs' disk' →
      post ((len : Nat), into, fs') disk' (Function.update vis 1 (vis 1 + 1))) :
    Ensures (fs.Readpipe buffer name) post fault disk vis := by
  have split := splitPath_of_plain plain
  have dot := sheltered.lookup_dot.2
  unfold FileSystem.Readpipe
  apply ensures_bind
  refine ensures_Open sheltered (sheltered.reach_of_plain within plain) mounted
    (sheltered.safe_of_plain plain) ?_ ?_ ?_
  · intro lost
    rw [split, sheltered.lookup_dot.1] at lost
    cases lost
  · intro fs' disk' p lookup _ absent quiet mounted
    rw [split, dot] at lookup
    subst lookup
    rw [split] at absent
    exact ensures_pure (missing absent fs' disk' quiet mounted)
  intro fs₁ file disk₁ p i s lookup _ found sector quiet₁ mounted₁ known current position
  rw [split, dot] at lookup
  subst lookup
  rw [split] at found
  subst sector
  obtain ⟨bound, used, -⟩ := Directory.entryIndex_some found
  have wide₁ := quiet₁.widen within
  have sheltered₁ := wide₁.sheltered sheltered
  have valid := sheltered₁.valid_head known
  have number := sheltered₁.number known current
  obtain ⟨len, headed⟩ := sheltered.headed _ known
  have headed₁ := Frame.headed wide₁ known id headed
  have length : file.hdr.FileLength = (len : Int) := current.numBytes.trans headed₁.length
  dsimp only
  rw [length]
  by_cases empty : len = 0
  · subst empty
    rw [if_pos (by omega)]
    apply ensures_bind
    refine ensures_delete (by rw [number]; exact valid) ?_
    rw [number, counters_reopened]
    exact ensures_pure (kept i found (.inl headed) _ _ fs₁ disk₁ quiet₁ mounted₁)
  · rw [if_neg (by omega)]
    apply ensures_bind
    unfold OpenFile.Read
    rw [if_pos (show ValidSector (file.Seek 0).hdr.sectorNumber by
      change ValidSector file.hdr.sectorNumber
      rw [number]
      exact valid)]
    apply ensures_bind
    change Ensures ((file.Seek 0).ReadAt buffer (len : Int) ((0 : Nat) : Int)) _ _ _ _
    have fits := sectorsFor_le_iff.mp headed.fits
    refine ensures_ReadAt_current sheltered₁ known (near i found) headed₁
      (show Current disk₁ (file.Seek 0) _ from current) (by omega) (by omega) (.inl (by omega)) ?_ ?_
    · intro far
      refine allowed i found fun len' regular headed' direct => far ?_
      have same := headed'.length.symm.trans headed.length
      obtain rfl : len' = len := by exact_mod_cast same
      exact ⟨regular, direct, by omega⟩
    intro file' into disk₂ quiet₂ current₂ _ copied
    have wide₂ := quiet₂.widen within
    have sheltered₂ := wide₂.sheltered sheltered₁
    have number₂ : file'.hdr.sectorNumber = (tableAt disk 1).sector i :=
      sheltered₂.number known current₂
    have twice : Quiet scope disk disk₂ := Frame.trans quiet₁ quiet₂
    have quiet : Quiet layout disk disk₂ := twice.widen within
    rw [Nat.sub_zero, Nat.min_self] at copied ⊢
    apply ensures_pure
    apply ensures_bind
    refine ensures_delete (by rw [number₂]; exact valid) ?_
    dsimp only
    rw [number₂, counters_reopened]
    apply ensures_bind
    have busy₂ : Function.update vis 1 (vis 1 + 1) 1 ≠ 0 := by
      rw [Function.update_self]
      omega
    have same := quiet.same_table sheltered sheltered.root
    have entry := same.entry bound
    have other : Function.update vis 1 (vis 1 + 1) ((tableAt disk 1).sector i) = 0 ↔
        vis ((tableAt disk 1).sector i) = 0 := by
      by_cases root : (tableAt disk 1).sector i = 1
      · rw [root]
        exact iff_of_false busy₂ (by omega)
      · rw [Function.update_of_ne root]
    have only : ∀ {j}, (tableAt disk₂ 1).entryIndex name = some j → j = i := by
      intro j found'
      rw [Directory.entryIndex_congr same] at found'
      exact (Option.some.inj (found.symm.trans found')).symm
    refine ensures_Remove sheltered₂ within (mounted₁.quiet sheltered₁ wide₂) plain busy₂
      ?_ ?_ ?_
    · intro j found' free
      obtain rfl := only found'
      rw [entry.sector, other] at free
      exact (removable j found free).quiet quiet sheltered bound used
    · intro fs' disk₃ quiet₃ mounted₃ reason
      refine ensures_pure (kept i found (.inr ?_) _ _ fs' disk₃ (Frame.trans twice quiet₃) mounted₃)
      obtain gone | ⟨j, found', open₂⟩ := reason
      · rw [Directory.entryIndex_congr same, found] at gone
        cases gone
      · obtain rfl := only found'
        rw [entry.sector, Ne, other] at open₂
        exact open₂
    · intro fs' disk₃ e j isDir found' sector free removed mounted₃
      obtain rfl := only found'
      rw [entry.sector] at sector
      subst sector
      have original := twice.removed sheltered within
        (Layout.head_of_node ((removed.widen within).node sheltered₂).1) removed
      refine ensures_pure (done len into fs' disk₃ _ _ isDir found rfl (other.mp free) headed ?_
        original mounted₃)
      intro regular direct o inside
      rw [copied regular direct o inside, Nat.zero_add]
      exact wide₁.byte sheltered known headed (.of_direct direct) inside

theorem keeps_readpipe {buffer : Memory} (sound : Sound layout session disk vis)
    (safe : Safe session disk vis (.readpipe buffer name)) :
    Keeps session disk vis (.readpipe buffer name) := by
  obtain ⟨plain, removable⟩ := safe
  unfold Keeps Call.perform
  apply ensures_bind
  have still : ∀ {n into fs' disk'}, Quiet layout disk disk' → Mounted fs' disk' →
      Ensures (pure (Reply.bytes n into, { session with fs := fs' }))
        (fun result disk' vis' => SoundHere result.2 disk' vis') (· = .assertion) disk'
        (Function.update vis 1 (vis 1 + 1)) := fun quiet mounted =>
    ensures_pure ⟨layout, sound.replace (quiet.consistent sound.consistent) mounted
      (fun _ known _ => known) (counters_grow vis 1)⟩
  refine ensures_Readpipe sound.sheltered sound.sheltered.whole sound.sheltered.near sound.mounted
    plain sound.root_counted removable
    (fun _ _ _ => rfl) (fun _ _ _ => still) (fun _ _ _ _ _ _ _ => still) ?_
  intro len into fs' disk' e i isDir _ _ free _ _ removed mounted
  exact ensures_pure ⟨_, sound.removed removed mounted free (counters_grow vis 1)⟩

end Calls

/-- Every safe call keeps the file system sound. -/
theorem keeps_call (sound : Sound layout session disk vis) {call : Call}
    (safe : Safe session disk vis call) : Keeps session disk vis call := by
  cases call with
  | create => exact keeps_create sound safe
  | openFile => exact keeps_openFile sound safe
  | read => exact keeps_read sound safe
  | write => exact keeps_write sound safe
  | seek => exact keeps_seek sound safe
  | close => exact keeps_close sound safe
  | remove => exact keeps_remove sound safe
  | writepipe => exact keeps_writepipe sound safe
  | readpipe => exact keeps_readpipe sound safe

/-! ## Runs -/

/-- The calls that are safe in the state they are made in. -/
def SafeCall (system : System) (call : Call) (_ : Reply) : Prop :=
  Safe system.session system.disk system.counters call

/-- The system is sound and its cache coherent. -/
structure SoundSystem (system : System) : Prop where
  sound : SoundHere system.session system.disk system.counters
  coherent : system.machine.cache.Coherent system.machine.disk

theorem blank_coherent {machine : SynchDisk} (blank : System.Blank machine) :
    machine.cache.Coherent machine.disk := fun i valid => by
  rw [blank.cache i] at valid
  cases valid

/-- Mounting counts the two handles of the kernel. -/
theorem mountedCounters_blank {machine : SynchDisk} (blank : System.Blank machine) (s : Int) :
    mountedCounters machine.visNum s = kernelHandles s := by
  unfold mountedCounters kernelHandles
  by_cases first : s = 1
  · subst first
    rw [Function.update_self, blank.counters]
    decide
  · rw [Function.update_of_ne first]
    by_cases zeroth : s = 0
    · subst zeroth
      rw [Function.update_self, blank.counters]
      decide
    · rw [Function.update_of_ne zeroth, if_neg (fun either => either.elim zeroth first),
        blank.counters]
      decide

theorem sound_boot {machine after : SynchDisk} (blank : System.Blank machine)
    (formatted : FileSystem.format.run SynchDisk.handle machine = .done fs after) :
    SoundSystem { session := { fs := fs, handles := [] }, machine := after } := by
  have ends : Ensures FileSystem.format
      (fun fs disk' vis' => SoundHere { fs := fs, handles := [] } disk' vis') (fun _ => False)
      machine.disk machine.visNum := by
    refine ensures_format fun fs disk' formatted mounted =>
      ⟨emptyLayout, formatted.consistent, mounted, fun i file opened => ?_, fun s => ?_⟩
    · simp [Session.file] at opened
    · rw [mountedCounters_blank blank s]
      unfold Session.openOn
      rw [List.countP_nil, Nat.add_zero]
  obtain ⟨sound, coherent⟩ := ensures_done (blank_coherent blank) formatted ends
  exact ⟨sound, coherent⟩

theorem sound_step {system after : System} {call : Call} {reply : Reply}
    (sound : SoundSystem system) (safe : SafeCall system call reply)
    (taken : system.Step call reply after) : SoundSystem after := by
  obtain ⟨layout, here⟩ := sound.sound
  have keeps := keeps_call here safe
  unfold Keeps at keeps
  obtain ⟨sound, coherent⟩ := ensures_done sound.coherent taken keeps
  exact ⟨sound, coherent⟩

/-- A machine whose disk has just been made: all zeros. -/
def zeroMachine : SynchDisk where
  disk := fun _ _ => 0
  cache := fun _ => { valid := false, dirty := false, sector := 0, cnt := 0, data := fun _ => 0 }
  visNum := fun _ => 0
  supply := fun _ _ => 0
  ticks := fun _ => 0

theorem zeroMachine_blank : System.Blank zeroMachine := ⟨fun _ => rfl, fun _ => rfl⟩

/-- The name `"a"`. -/
def nameA : Name := [97]

/-- Formatting succeeds on every blank machine. -/
theorem System.Blank.formats {machine : SynchDisk} (blank : System.Blank machine) : ∃ fs booted,
    FileSystem.format.run SynchDisk.handle machine = .done fs booted ∧
      (Formatted machine.disk booted.disk ∧ Mounted fs booted.disk) ∧
      booted.cache.Coherent booted.disk := by
  have formats : Ensures FileSystem.format
      (fun fs disk' _ => Formatted machine.disk disk' ∧ Mounted fs disk') (fun _ => False)
      machine.disk machine.visNum :=
    ensures_format fun fs disk' shape mounted => ⟨shape, mounted⟩
  exact ensures_returns (blank_coherent blank) formats

theorem Formatted.room {before : Disk} (formatted : Formatted before disk) :
    1018 ≤ (diskMap disk).freeCount := by
  obtain ⟨first, run⟩ := @BitMap.exists_firstRun (diskMap disk) 1018 6 le_rfl fun j _ marked => by
    have range := (formatted.marked _).mp marked
    omega
  exact run.le_freeCount

theorem Formatted.firstFree {before : Disk} (formatted : Formatted before disk) :
    FirstFree disk 6 := by
  refine ⟨⟨by decide, fun marked => ?_⟩, fun t low high => (formatted.marked t).mpr ⟨low, high⟩⟩
  have range := (formatted.marked 6).mp marked
  omega

/-- On a formatted disk a file of up to eight sectors can be created in the root. -/
theorem Formatted.ensures_Create_in_root {post : Bool × FileSystem → Disk → Counters → Prop}
    {last : Name} {before : Disk} {size : Nat} (formatted : Formatted before disk) (mounted : Mounted fs disk)
    (split : FileSystem.splitPath name = ([dot], last)) (plain : last.Plain) (short : ShortExtension name)
    (notDot : ¬ Name.strncmpEq (Name.chars [dot]) last.chars FileNameMaxLen = true)
    (notDots : ¬ Name.strncmpEq (Name.chars [dot, dot]) last.chars FileNameMaxLen = true)
    (fits : sectorsFor size ≤ 8)
    (made : ∀ fs' disk' i, Created emptyLayout disk disk' 1 6 i last false size →
      Mounted fs' disk' → post (true, fs') disk' vis) :
    Ensures (fs.Create name size) post fault disk vis := by
  have sheltered := formatted.consistent.sheltered
  obtain ⟨dotIndex, dotLookup⟩ := sheltered.lookup_dot
  have room := formatted.room
  refine ensures_Create_file sheltered sheltered.reach mounted (sheltered.safe_in_root split plain) short (by omega)
    (by omega) ?_ ?_ ?_
  · rintro - (missing | ⟨hs, freeMap, taken, none⟩)
    · rw [split, dotIndex] at missing
      cases missing
    · have bits : freeMap.numBits = 1024 := taken.size
      -- the new header is not in one of two disjoint runs
      obtain ⟨b, run⟩ := @BitMap.exists_firstRun freeMap (sectorsFor size)
        (if hs < 14 then 14 else 6) (by rw [bits]; split <;> omega) fun j less marked => by
          rw [taken.exactly, formatted.marked, List.mem_singleton] at marked
          split at marked <;> omega
      exact absurd run (none b)
  · rintro fs' disk' ((present | full | full) | lacking)
    · rw [split, dotLookup] at present
      exact absurd (formatted.absent notDot notDots) present
    · rw [split, dotLookup] at full
      have used := List.find?_eq_none.mp full 2 (List.mem_range.mpr (show 2 < 10 by omega))
      rw [formatted.table.unused 2 (by omega) (by omega)] at used
      exact absurd rfl used
    · have range := (formatted.marked 6).mp (full 6 (by decide))
      omega
    · omega
  · intro fs' disk' p hs i lookup firstFree created _ mounted'
    rw [split] at lookup created
    rw [dotLookup] at lookup
    subst lookup
    obtain rfl := formatted.firstFree.unique firstFree
    exact made fs' disk' i created mounted'

theorem Formatted.ensures_Create {post : Bool × FileSystem → Disk → Counters → Prop}
    {before : Disk} {size : Nat} (formatted : Formatted before disk) (mounted : Mounted fs disk)
    (plain : name.Plain) (short : ShortExtension name)
    (notDot : ¬ Name.strncmpEq (Name.chars [dot]) name.chars FileNameMaxLen = true)
    (notDots : ¬ Name.strncmpEq (Name.chars [dot, dot]) name.chars FileNameMaxLen = true)
    (fits : sectorsFor size ≤ 8)
    (made : ∀ fs' disk' i, Created emptyLayout disk disk' 1 6 i name false size →
      Mounted fs' disk' → post (true, fs') disk' vis) :
    Ensures (fs.Create name size) post fault disk vis :=
  formatted.ensures_Create_in_root mounted (splitPath_of_plain plain) plain short notDot notDots fits made

/-- Creating a file of two sectors on it succeeds too. -/
theorem zeroMachine_creates : ∃ fs booted after,
    FileSystem.format.run SynchDisk.handle zeroMachine = .done fs booted ∧
      Formatted zeroMachine.disk booted.disk ∧
      System.Step { session := { fs := fs, handles := [] }, machine := booted }
        (.create nameA 200) (.flag true) after := by
  obtain ⟨fs, booted, formatted, ⟨shape, mounted⟩, coherent⟩ := zeroMachine_blank.formats
  have creates : Ensures (Call.perform { fs := fs, handles := [] } (.create nameA 200))
      (fun result _ _ => result.1 = .flag true) (fun _ => False) booted.disk booted.visNum := by
    unfold Call.perform
    apply ensures_bind
    change Ensures (fs.Create nameA ((200 : Nat) : Int)) _ _ _ _
    exact shape.ensures_Create mounted (by decide) (by decide) (by decide) (by decide) (by decide)
      fun _ _ _ _ _ => ensures_pure rfl
  obtain ⟨⟨_, session⟩, after, taken, rfl, -⟩ := ensures_returns coherent creates
  exact ⟨fs, booted, { session := session, machine := after }, formatted, shape, taken⟩

/-- The disk after a file of up to eight sectors was created on it; the sectors
behind the first six were free before. -/
theorem zeroMachine_file {size : Nat} (fits : sectorsFor size ≤ 8) : ∃ before disk i,
    Formatted zeroMachine.disk before ∧ Created emptyLayout before disk 1 6 i nameA false size ∧
      1017 - sectorsFor size ≤ (diskMap disk).freeCount := by
  obtain ⟨fs, booted, -, ⟨shape, mounted⟩, -⟩ := zeroMachine_blank.formats
  have creates : Ensures (fs.Create nameA size) (fun _ disk' _ => ∃ i,
      Created emptyLayout booted.disk disk' 1 6 i nameA false size) (fun _ => False) booted.disk
      booted.visNum :=
    shape.ensures_Create mounted (by decide) (by decide) (by decide) (by decide) fits
      fun _ disk' i created _ => ⟨i, created⟩
  obtain ⟨-, disk, -, ⟨i, created⟩, -⟩ := ensures_both creates creates
  refine ⟨booted.disk, disk, i, shape, created, ?_⟩
  have room := shape.room
  have count := BitMap.freeCount_takes created.taken
  rw [claimed_direct created.headed.sectors fits] at count
  simp only [List.length_cons, length_slots] at count
  omega

end Nachos
