import Mathlib.Data.List.GetD
import Nachos.Filesys.ByteFiles
import Nachos.Filesys.SessionProofs

/-! The file system refines a map from names to byte strings. `Represents` ties
the abstract state to the root's table, the headers and data on disk, the
private header copies of open handles and the open counters. Every call keeps
it, and gets a reply the abstract state allows. -/
namespace Nachos
open Effects FileHeader OpenFile

variable {layout scope : Layout} {disk disk' : Disk} {vis : Counters} {session : Session}
  {fs : FileSystem} {file : OpenFile} {name name' : Name} {s : Int}
  {state : ByteFiles.State} {content : ByteFiles.File}

/-- The names of the contract: no `'/'`, at most 20 characters, neither dot nor
dots, and at most four characters behind the first dot. -/
structure FileName (name : Name) : Prop where
  short : name.length ≤ FileNameMaxLen
  text : ∀ c ∈ name, c ≠ slash ∧ c ≠ 0
  notDot : name ≠ [dot]
  notDots : name ≠ [dot, dot]
  extension : (name.drop (name.findIdx (· == dot) + 1)).length ≤ 4

namespace FileName

theorem plain (valid : FileName name) : name.Plain :=
  Name.plain_iff.mpr fun c member => (valid.text c member).1

theorem shortExtension (valid : FileName name) : ShortExtension name := by
  have few := valid.extension
  unfold ShortExtension SectorSize
  omega

end FileName

/-- Text of at most 20 characters is compared to its end. -/
theorem Name.eq_of_strncmpEq (short : name.length ≤ 20) (short' : name'.length ≤ 20)
    (text : ∀ c ∈ name, c ≠ 0) (text' : ∀ c ∈ name', c ≠ 0)
    (equal : Name.strncmpEq name.chars name'.chars FileNameMaxLen = true) : name = name' := by
  have inside : ∀ {text : Name} (k : Nat), (∀ c ∈ text, c ≠ 0) → (text.chars k ≠ 0 ↔ k < text.length) := by
    intro text k nonzero
    unfold Name.chars
    by_cases bound : k < text.length
    · rw [List.getD_eq_getElem _ _ bound]
      exact ⟨fun _ => bound, fun _ => nonzero _ (List.getElem_mem bound)⟩
    · rw [List.getD_eq_default _ _ (by omega)]
      exact ⟨fun wrong => absurd rfl wrong, fun wrong => absurd wrong bound⟩
  have same : ∀ k, k < 20 → k ≤ name.length → name.chars k = name'.chars k := fun k bound here =>
    Name.strncmpEq_iff.mp equal k bound fun j less => (inside j text).mpr (by omega)
  have longer : name.length ≤ name'.length := by
    by_contra shorter
    have ended := same name'.length (by omega) (by omega)
    have running := (inside name'.length text).mpr (by omega)
    rw [ended] at running
    have impossible := (inside name'.length text').mp running
    omega
  have length : name.length = name'.length := by
    by_contra differ
    have ended := same name.length (by omega) le_rfl
    have running := (inside name.length text').mpr (by omega)
    rw [← ended] at running
    have impossible := (inside name.length text).mp running
    omega
  refine List.ext_getElem length fun k bound bound' => ?_
  have here := same k (by omega) (by omega)
  unfold Name.chars at here
  rwa [List.getD_eq_getElem _ _ bound, List.getD_eq_getElem _ _ bound'] at here

/-- Looking the name up in the root leads to header `s`. -/
def Leads (disk : Disk) (name : Name) (s : Int) : Prop :=
  ∃ i, (tableAt disk 1).entryIndex name = some i ∧ (tableAt disk 1).sector i = s

/-- The file with header `s` has this length and these bytes. -/
structure Contains (disk : Disk) (s : Int) (content : ByteFiles.File) : Prop where
  headed : Headed disk s content.length
  direct : content.length ≤ 1024
  bytes : ∀ o b, content.written o = some b →
    o < content.length ∧ fileByte disk (headerAt disk s) o = b

/-- The simulation relation. -/
structure Represents (layout : Layout) (state : ByteFiles.State) (session : Session) (disk : Disk)
    (vis : Counters) : Prop where
  consistent : Consistent layout disk
  flat : layout.dirs = {1}
  mounted : Mounted session.fs disk
  named : ∀ name content, state.files name = some content → FileName name
  present : ∀ name content, state.files name = some content →
    ∃ s, Leads disk name s ∧ Contains disk s content
  absent : ∀ name, FileName name → state.files name = none →
    (tableAt disk 1).entryIndex name = none
  slots : session.handles.length = state.handles.length
  opened : ∀ i file, session.file i = some file → ∃ name pos, state.handle i = some (name, pos)
  handles : ∀ i name pos, state.handle i = some (name, pos) → ∃ file s content,
    session.file i = some file ∧ state.files name = some content ∧ Leads disk name s ∧
    Current disk file s ∧ file.seekPosition = pos ∧ pos ≤ content.length
  alone : ∀ i j name pos pos', state.handle i = some (name, pos) →
    state.handle j = some (name, pos') → i = j
  counters : ∀ s, s ≠ 0 → s ≠ 1 → vis s = session.openOn s
  busy : 1 ≤ vis 1

theorem Represents.sheltered (rep : Represents layout state session disk vis) :
    Sheltered layout disk := rep.consistent.sheltered

/-! ## Names and headers -/

namespace Represents

/-- A name of the contract leads to a regular file. -/
theorem leads_file (rep : Represents layout state session disk vis) (valid : FileName name)
    (leads : Leads disk name s) : s ∈ layout.files := by
  obtain ⟨i, found, sector⟩ := leads
  have sheltered := rep.sheltered
  obtain ⟨bound, used, text⟩ := Directory.entryIndex_some found
  have zeros : ∀ {text : Name}, (∀ c ∈ text, c ≠ slash ∧ c ≠ 0) → ∀ c ∈ text, c ≠ 0 :=
    fun all c member => (all c member).2
  obtain ⟨self, dad⟩ := sheltered.self 1 sheltered.root
  have low : 2 ≤ i := by
    by_contra small
    obtain rfl | rfl : i = 0 ∨ i = 1 := by omega
    · exact valid.notDot (Name.eq_of_strncmpEq valid.short (by decide) (zeros valid.text)
        (by simp) (Name.strncmpEq_trans (Name.strncmpEq_symm text) self.2))
    · exact valid.notDots (Name.eq_of_strncmpEq valid.short (by decide) (zeros valid.text)
        (by simp) (Name.strncmpEq_trans (Name.strncmpEq_symm text) dad.2))
  obtain ⟨link, node⟩ := sheltered.child sheltered.root low bound used
  have notRoot := (sheltered.tree.closed _ _ _ sheltered.tree.top link).2
  rw [sector] at link node notRoot
  cases kind : decide ((tableAt disk 1).type i = 0) with
  | false =>
    rw [kind] at node
    exact node
  | true =>
    rw [kind] at node notRoot
    have root : s ∈ layout.dirs := node
    rw [rep.flat] at root
    exact absurd (by rw [Set.mem_singleton_iff.mp root]) notRoot

/-- Different names lead to different headers. -/
theorem leads_inj (rep : Represents layout state session disk vis) (valid : FileName name)
    (valid' : FileName name') (leads : Leads disk name s) (leads' : Leads disk name' s) :
    name = name' := by
  have file := rep.leads_file valid leads
  obtain ⟨i, found, sector⟩ := leads
  obtain ⟨j, found', sector'⟩ := leads'
  have sheltered := rep.sheltered
  obtain ⟨boundI, usedI, textI⟩ := Directory.entryIndex_some found
  obtain ⟨boundJ, usedJ, textJ⟩ := Directory.entryIndex_some found'
  have notRoot : s ≠ 1 := by
    rintro rfl
    exact sheltered.kinds 1 sheltered.root file
  have link : ∀ k, k < 10 → (tableAt disk 1).inUse k = true → (tableAt disk 1).sector k = s →
      Child disk (1, true) k (s, false) := by
    intro k bound used here
    have low : 2 ≤ k := by
      by_contra small
      obtain rfl | rfl : k = 0 ∨ k = 1 := by omega
      · exact notRoot (here.symm.trans sheltered.rootSelf.1)
      · exact notRoot (here.symm.trans sheltered.rootSelf.2.1)
    obtain ⟨link, node⟩ := sheltered.child sheltered.root low bound used
    rw [here] at link node
    cases kind : decide ((tableAt disk 1).type k = 0) with
    | false => rwa [kind] at link
    | true =>
      rw [kind] at node
      exact absurd file (sheltered.kinds s node)
  obtain ⟨-, rfl⟩ := sheltered.tree.once _ _ _ _ _ sheltered.tree.top sheltered.tree.top
    (link i boundI usedI sector) (link j boundJ usedJ sector')
  exact Name.eq_of_strncmpEq valid.short valid'.short (fun c member => (valid.text c member).2)
    (fun c member => (valid'.text c member).2)
    (Name.strncmpEq_trans (Name.strncmpEq_symm textI) textJ)

end Represents

/-! ## What other files keep -/

/-- File `s` keeps its header, apart from clock texts, and its bytes. -/
structure KeepsFile (disk disk' : Disk) (s : Int) : Prop where
  agrees : Agrees (headerAt disk' s) (headerAt disk s)
  bytes : ∀ len o, Headed disk s len → sectorsFor len ≤ 8 → o < len →
    fileByte disk' (headerAt disk' s) o = fileByte disk (headerAt disk s) o

theorem KeepsFile.contains (keeps : KeepsFile disk disk' s) (contains : Contains disk s content) :
    Contains disk' s content := by
  have headed := contains.headed
  refine ⟨⟨keeps.agrees.numBytes.trans headed.length, keeps.agrees.numSectors.trans headed.sectors,
    keeps.agrees.sectorNumber.trans headed.number, headed.fits⟩, contains.direct, fun o b known => ?_⟩
  obtain ⟨inside, byte⟩ := contains.bytes o b known
  refine ⟨inside, (keeps.bytes _ o headed ?_ inside).trans byte⟩
  have direct := contains.direct
  unfold sectorsFor
  omega

theorem KeepsFile.current (keeps : KeepsFile disk disk' s) (current : Current disk file s) :
    Current disk' file s := Agrees.trans current keeps.agrees.symm

theorem Quiet.keepsFile (quiet : Quiet layout disk disk') (sheltered : Sheltered layout disk)
    (known : layout.Head s) : KeepsFile disk disk' s :=
  ⟨quiet.agrees known, fun _ _ headed direct inside =>
    quiet.byte sheltered known headed (.of_direct direct) inside⟩

theorem Edited.keepsFile {p : Int} (edited : Edited layout disk disk' p)
    (sheltered : Sheltered layout disk) (known : s ∈ layout.files) : KeepsFile disk disk' s :=
  ⟨edited.frame.headers s (.inr (.inr known))
      (edited.header_unchanged sheltered (.inr (.inr known))),
    fun _ _ headed direct inside => edited.byte sheltered known headed (.of_direct direct) inside⟩

theorem Grew.keepsFile {h : Int} {len len' : Nat} (grew : Grew layout disk disk' h len len')
    (sheltered : Sheltered layout disk) (known : s ∈ layout.files) (other : s ≠ h) :
    KeepsFile disk disk' s :=
  ⟨grew.frame.headers s (.inr (.inr known)) (grew.other_header sheltered (.inr (.inr known)) other),
    fun _ _ headed direct inside => grew.other_byte sheltered known other headed (.of_direct direct) inside⟩

theorem Quiet.leads (quiet : Quiet layout disk disk') (sheltered : Sheltered layout disk) :
    Leads disk' name s ↔ Leads disk name s := by
  have same := quiet.same_table sheltered sheltered.root
  unfold Leads
  rw [Directory.entryIndex_congr same]
  refine exists_congr fun i => and_congr_right fun found => ?_
  rw [(same.entry (Directory.entryIndex_some found).1).sector]

/-! ## Handles of the two states -/

namespace ByteFiles.State

theorem handle_some {i : Nat} {slot : Name × Nat} (opened : state.handle i = some slot) :
    ∃ bound : i < state.handles.length, state.handles[i] = some slot := by
  unfold State.handle at opened
  cases found : state.handles[i]? with
  | none =>
    rw [found] at opened
    cases opened
  | some here =>
    rw [found] at opened
    obtain ⟨bound, same⟩ := List.getElem?_eq_some_iff.mp found
    exact ⟨bound, same.trans opened⟩

theorem handle_setHandle {i j : Nat} {slot : Option (Name × Nat)}
    (bound : i < state.handles.length) :
    (state.setHandle i slot).handle j = if j = i then slot else state.handle j := by
  unfold State.setHandle State.handle
  by_cases same : j = i
  · subst same
    simp [bound]
  · simp [Ne.symm same, same]

/-- A name is not busy when no handle is open. -/
theorem not_busy (closed : ∀ slot ∈ state.handles, slot = none) : ¬ state.Busy name := by
  rintro ⟨i, pos, there⟩
  obtain ⟨bound, held⟩ := handle_some there
  have none := closed _ (List.getElem_mem bound)
  rw [held] at none
  cases none

end ByteFiles.State

/-- A slot behind the last one is added to a table of handles. -/
theorem join_append {A : Type} (slots : List (Option A)) (last : Option A) (j : Nat) :
    ((slots ++ [last])[j]?).join = if j = slots.length then last else (slots[j]?).join := by
  by_cases here : j = slots.length
  · subst here
    simp
  · rw [if_neg here, List.getElem?_append]
    split
    · rfl
    · rename_i past
      have short : [last].length ≤ j - slots.length := by
        rw [List.length_singleton]
        omega
      rw [List.getElem?_eq_none short, List.getElem?_eq_none (by omega)]

namespace Represents

/-- The files and the disk change, and the handles stay usable. -/
theorem change {layout' : Layout} {files : Name → Option ByteFiles.File}
    (rep : Represents layout state session disk vis) (consistent : Consistent layout' disk')
    (flat : layout'.dirs = {1}) (mounted : Mounted fs disk')
    (named : ∀ name content, files name = some content → FileName name)
    (present : ∀ name content, files name = some content →
      ∃ s, Leads disk' name s ∧ Contains disk' s content)
    (absent : ∀ name, FileName name → files name = none → (tableAt disk' 1).entryIndex name = none)
    (kept : ∀ i name pos content s, state.handle i = some (name, pos) →
      state.files name = some content → Leads disk name s →
      files name = some content ∧ Leads disk' name s ∧ KeepsFile disk disk' s) :
    Represents layout' { state with files := files } { session with fs := fs } disk' vis where
  consistent := consistent
  flat := flat
  mounted := mounted
  named := named
  present := present
  absent := absent
  slots := rep.slots
  opened := rep.opened
  handles := fun i name pos open' => by
    obtain ⟨file, s, content, here, known, leads, current, position, reached⟩ :=
      rep.handles i name pos open'
    obtain ⟨known', leads', keeps⟩ := kept i name pos content s open' known leads
    exact ⟨file, s, content, here, known', leads', keeps.current current, position, reached⟩
  alone := rep.alone
  counters := rep.counters
  busy := rep.busy

theorem quiet (rep : Represents layout state session disk vis) (quiet : Quiet layout disk disk')
    (mounted : Mounted fs disk') :
    Represents layout state { session with fs := fs } disk' vis := by
  have sheltered := rep.sheltered
  have same := quiet.same_table sheltered sheltered.root
  refine rep.change (quiet.consistent rep.consistent) rep.flat mounted rep.named ?_ ?_ ?_
  · intro name content known
    obtain ⟨s, leads, contains⟩ := rep.present name content known
    have file := rep.leads_file (rep.named name content known) leads
    exact ⟨s, (quiet.leads sheltered).mpr leads,
      (quiet.keepsFile sheltered (.inr (.inr file))).contains contains⟩
  · intro name valid missing
    rw [Directory.entryIndex_congr same]
    exact rep.absent name valid missing
  · intro i name pos content s _ known leads
    have file := rep.leads_file (rep.named name content known) leads
    exact ⟨known, (quiet.leads sheltered).mpr leads,
      quiet.keepsFile sheltered (.inr (.inr file))⟩

/-- One handle moves, while files and disk may change under it. -/
theorem move {files : Name → Option ByteFiles.File} {i pos pos' : Nat} {file file' : OpenFile}
    {content' : ByteFiles.File} (rep : Represents layout state session disk vis)
    (consistent : Consistent layout disk') (mounted : Mounted session.fs disk')
    (named : ∀ name content, files name = some content → FileName name)
    (present : ∀ name content, files name = some content →
      ∃ s, Leads disk' name s ∧ Contains disk' s content)
    (absent : ∀ name, FileName name → files name = none → (tableAt disk' 1).entryIndex name = none)
    (kept : ∀ j name pos content s, j ≠ i → state.handle j = some (name, pos) →
      state.files name = some content → Leads disk name s →
      files name = some content ∧ Leads disk' name s ∧ KeepsFile disk disk' s)
    (here : state.handle i = some (name, pos)) (open' : session.file i = some file)
    (known : files name = some content') (leads : Leads disk' name s)
    (current : Current disk' file' s) (position : file'.seekPosition = pos')
    (reached : pos' ≤ content'.length)
    (number : file'.hdr.sectorNumber = file.hdr.sectorNumber) :
    Represents layout { state.setHandle i (some (name, pos')) with files := files }
      (session.setFile i (some file')) disk' vis := by
  obtain ⟨bound, -⟩ := Session.file_some open'
  obtain ⟨bound', -⟩ := ByteFiles.State.handle_some here
  have slot : ∀ j, ByteFiles.State.handle
      { state.setHandle i (some (name, pos')) with files := files } j =
      if j = i then some (name, pos') else state.handle j :=
    fun j => ByteFiles.State.handle_setHandle bound'
  have owner : ∀ j name'' pos'', (if j = i then some (name, pos') else state.handle j) =
      some (name'', pos'') → ∃ pos, state.handle j = some (name'', pos) := by
    intro j name'' pos'' at_j
    split at at_j
    · rename_i same
      obtain ⟨rfl, -⟩ := Prod.mk.inj (Option.some.inj at_j)
      exact ⟨pos, by rw [same]; exact here⟩
    · exact ⟨pos'', at_j⟩
  refine ⟨consistent, rep.flat, mounted, named, present, absent, ?_, ?_, ?_, ?_, ?_, rep.busy⟩
  · simp [Session.setFile, ByteFiles.State.setHandle, rep.slots]
  · intro j other there
    rw [Session.file_setFile bound] at there
    rw [slot]
    split at there <;> rename_i same
    · rw [if_pos same]
      exact ⟨_, _, rfl⟩
    · rw [if_neg same]
      exact rep.opened j other there
  · intro j name'' pos'' there
    rw [slot] at there
    rw [Session.file_setFile bound]
    split at there <;> rename_i same
    · obtain ⟨rfl, rfl⟩ := Prod.mk.inj (Option.some.inj there)
      rw [if_pos same]
      exact ⟨file', s, content', rfl, known, leads, current, position, reached⟩
    · rw [if_neg same]
      obtain ⟨other, t, content, opened, known, leads, current, position, reached⟩ :=
        rep.handles j name'' pos'' there
      obtain ⟨known', leads', keeps⟩ := kept j name'' pos'' content t same there known leads
      exact ⟨other, t, content, opened, known', leads', keeps.current current, position, reached⟩
  · intro j k name'' posJ posK atJ atK
    rw [slot] at atJ atK
    obtain ⟨oldJ, oldAtJ⟩ := owner j name'' posJ atJ
    obtain ⟨oldK, oldAtK⟩ := owner k name'' posK atK
    exact rep.alone j k name'' oldJ oldK oldAtJ oldAtK
  · intro t notMap notRoot
    rw [rep.counters t notMap notRoot]
    rw [Session.openOn_exchange open' number]

end Represents

/-! ## Calls -/

/-- The calls of the contract: sizes are not negative, no file grows beyond 1024
bytes or the free sectors, positions stay inside the file, and a file is opened
only while it is not open. -/
def Regular (session : Session) (disk : Disk) : Call → Reply → Prop
  | .create name size, reply => FileName name ∧ 0 ≤ size ∧ (reply = .flag true → size ≤ 1024)
  | .openFile name, _ => FileName name ∧ ∀ s, Leads disk name s → session.openOn s = 0
  | .read _ _ _, _ => True
  | .write handle _ n, _ => ∀ file, session.file handle = some file → 0 < n →
      file.seekPosition + n ≤ 1024 ∧
      sectorsFor (file.seekPosition + n).toNat - sectorsFor file.Length.toNat ≤
        (diskMap disk).freeCount
  | .seek handle position, _ => ∀ file, session.file handle = some file →
      0 ≤ position ∧ position ≤ file.Length
  | .close _, _ => True
  | .remove name, _ => FileName name
  | _, _ => False

/-- If the call returns and was a regular one, its reply is allowed and the
states still match. -/
def Answers (state : ByteFiles.State) (session : Session) (disk : Disk) (vis : Counters)
    (call : Call) : Prop :=
  Ensures (call.perform session) (fun result disk' vis' => Regular session disk call result.1 →
    ByteFiles.Allows state call result.1 ∧
      ∃ layout', Represents layout' (ByteFiles.next state call result.1) result.2 disk' vis')
    (fun _ => True) disk vis

/-- The call stops for no other reason; its reply is allowed and the states still match. -/
def Answered (state : ByteFiles.State) (session : Session) (fault : Fault → Prop) (disk : Disk)
    (vis : Counters) (call : Call) : Prop :=
  Ensures (call.perform session) (fun result disk' vis' => ByteFiles.Allows state call result.1 ∧
    ∃ layout', Represents layout' (ByteFiles.next state call result.1) result.2 disk' vis')
    fault disk vis

/-- Whether most calls are regular is known before they are made. -/
theorem answers_of_regular {call : Call} {reply : Reply}
    (known : ∀ reply', Regular session disk call reply' → Regular session disk call reply)
    (answered : Regular session disk call reply → Answered state session (fun _ => True) disk vis call) :
    Answers state session disk vis call := by
  by_cases regular : Regular session disk call reply
  · exact ensures_post (answered regular) fun _ _ _ holds _ => holds
  · exact ensures_any (fun _ => trivial) fun _ _ _ holds => absurd (known _ holds) regular

section Calls
variable {fault : Fault → Prop} {reply : Reply}

/-- Whatever the size, an allocation that is refused has changed nothing. -/
theorem ensures_Allocate_refused {hdr : FileHeader} {freeMap : BitMap} {size : Int} :
    Ensures (hdr.Allocate freeMap size) (fun result disk' vis' => result.1 = true ∨
      (result.1 = false ∧ disk' = disk ∧ vis' = vis)) (fun _ => True) disk vis := by
  have stops : ∀ reason : Fault, (fun _ => True) reason := fun _ => trivial
  unfold Allocate
  apply ensures_bind
  refine ensures_checked (BitMap.numClear_ok freeMap) ?_
  dsimp only
  split
  · exact ensures_pure (.inr ⟨rfl, rfl, rfl⟩)
  split
  · refine ensures_bind (ensures_any stops fun ⟨bigBlock, after⟩ _ _ => ?_)
    split
    · exact ensures_pure (.inl rfl)
    · exact ensures_bind (ensures_any stops fun _ _ _ => ensures_pure (.inl rfl))
  · refine ensures_bind (ensures_any stops fun _ _ _ => ?_)
    split
    · exact ensures_stop trivial
    · refine ensures_bind (ensures_any stops fun _ _ _ => ?_)
      refine ensures_bind (ensures_any stops fun _ _ _ => ?_)
      exact ensures_bind (ensures_any stops fun _ _ _ => ensures_pure (.inl rfl))

/-- A file that could not be created leaves the disk as it was. One that was has a short
extension. -/
theorem ensures_createFile_refused {hdr : FileHeader} {freeMap : BitMap} {hs size : Int}
    {dir : Directory} :
    Ensures (fs.createFile hdr freeMap hs name size dir file) (fun result disk' vis' =>
      (result.1 = true ∧ ShortExtension name) ∨
        (result = (false, file, fs) ∧ disk' = disk ∧ vis' = vis))
      (fun _ => True) disk vis := by
  have stops : ∀ reason : Fault, (fun _ => True) reason := fun _ => trivial
  unfold FileSystem.createFile
  apply ensures_bind
  refine ensures_post ensures_Allocate_refused ?_
  rintro ⟨allocated, hdr', freeMap'⟩ disk' vis' (success | ⟨failure, rfl, rfl⟩)
  · dsimp only at success ⊢
    rw [success, if_neg (by simp)]
    apply ensures_bind
    by_cases short : ShortExtension name
    · obtain ⟨hdr₁, computed, -⟩ := setType_ok hdr' short
      refine ensures_checked computed ?_
      refine ensures_bind (ensures_any stops fun _ _ _ => ?_)
      refine ensures_bind (ensures_any stops fun _ _ _ => ?_)
      refine ensures_bind (ensures_any stops fun _ _ _ => ?_)
      exact ensures_bind (ensures_any stops fun _ _ _ => ensures_pure (.inl ⟨rfl, short⟩))
    · have fails : hdr'.setType name = .error .undefined := if_neg short
      rw [fails]
      exact ensures_stop trivial
  · dsimp only at failure ⊢
    rw [failure, if_pos (by simp)]
    exact ensures_pure (.inr ⟨rfl, rfl, rfl⟩)

/-- `Create` that returns FALSE has touched nothing but clock texts. -/
theorem ensures_Create_refused {post : Bool × FileSystem → Disk → Counters → Prop} {size : Int}
    (sheltered : Sheltered layout disk) (reach : Reach scope layout disk name)
    (mounted : Mounted fs disk) (safe : SafePath disk name) (positive : 0 ≤ size)
    (success : ShortExtension name → ∀ fs' disk vis, post (true, fs') disk vis)
    (refused : ∀ fs' disk' p, p = (tableAt disk 1).lookup (FileSystem.splitPath name).1 →
      Quiet scope disk disk' → Mounted fs' disk' →
      Consulted fs disk disk' p (FileSystem.splitPath name).2 → post (false, fs') disk' vis) :
    Ensures (fs.Create name size) post (fun _ => True) disk vis := by
  refine ensures_Create sheltered reach mounted safe (fun _ => trivial)
    (fun fs' disk' p lookup _ => refused fs' disk' p lookup) ?_
  intro fs' file disk' base hs freeMap i p hdr lookup near quiet mounted' consulted current _ _ _ _ _
  have number := ((quiet.widen reach.within).sheltered sheltered).number
    (.inr (.inl (reach.within.dirs p near))) current
  rw [if_neg (by omega)]
  refine ensures_post ensures_createFile_refused ?_
  rintro ⟨created, file', fs''⟩ disk'' vis'' (⟨done, short⟩ | ⟨same, rfl, rfl⟩)
  · exact .inr ⟨done, success short, fun _ => trivial⟩
  · obtain ⟨rfl, rest⟩ := Prod.mk.inj same
    obtain ⟨rfl, rfl⟩ := Prod.mk.inj rest
    exact .inl ⟨rfl, number, refused fs'' disk'' p lookup quiet mounted' consulted⟩

/-- The states after a file was created. -/
theorem Represents.created {hs : Int} {i size : Nat} (rep : Represents layout state session disk vis)
    (valid : FileName name) (small : size ≤ 1024)
    (made : Created layout disk disk' 1 hs i name false size) (mounted : Mounted fs disk') :
    Represents (layout.add hs false)
      { state with files := Function.update state.files name (some (.created size)) }
      { session with fs := fs } disk' vis := by
  have sheltered := rep.sheltered
  have sheltered' := made.sheltered sheltered
  have entry := made.entryIndex_new sheltered
  have sector := (made.new_entry sheltered).2.1
  have fresh : state.files name = none := by
    by_contra present
    obtain ⟨content, known⟩ := Option.ne_none_iff_exists'.mp present
    obtain ⟨t, ⟨j, found, -⟩, -⟩ := rep.present name content known
    rw [made.absent] at found
    cases found
  have kept : ∀ {other t}, FileName other → Leads disk other t →
      Leads disk' other t ∧ KeepsFile disk disk' t := by
    intro other t good leads
    refine ⟨?_, made.toEdited.keepsFile sheltered (rep.leads_file good leads)⟩
    obtain ⟨j, found, here⟩ := leads
    obtain ⟨bound, used, -⟩ := Directory.entryIndex_some found
    have unused := (made.slot_bounds sheltered).2.2
    have apart : j ≠ i := by
      rintro rfl
      rw [used] at unused
      cases unused
    exact ⟨j, made.entryIndex_old sheltered sheltered.root found,
      (made.old_entry sheltered sheltered.root bound (.inr apart)).sector.trans here⟩
  refine rep.change (made.consistent rep.consistent) rep.flat mounted ?_ ?_ ?_ ?_
  · intro other content known
    by_cases same : other = name
    · rw [same]
      exact valid
    · rw [Function.update_of_ne same] at known
      exact rep.named other content known
  · intro other content known
    by_cases same : other = name
    · subst same
      rw [Function.update_self] at known
      obtain rfl := Option.some.inj known
      refine ⟨hs, ⟨i, entry, sector⟩, made.headed, small, fun o b written => ?_⟩
      cases written
    · rw [Function.update_of_ne same] at known
      obtain ⟨t, leads, contains⟩ := rep.present other content known
      obtain ⟨leads', keeps⟩ := kept (rep.named other content known) leads
      exact ⟨t, leads', keeps.contains contains⟩
  · intro other good missing
    by_cases same : other = name
    · subst same
      rw [Function.update_self] at missing
      cases missing
    · rw [Function.update_of_ne same] at missing
      have before := rep.absent other good missing
      cases found : (tableAt disk' 1).entryIndex other with
      | none => rfl
      | some j =>
        obtain ⟨bound, used, text⟩ := Directory.entryIndex_some found
        by_cases new : j = i
        · subst new
          have own := (made.new_entry sheltered).1.2
          exact absurd (Name.eq_of_strncmpEq good.short valid.short
            (fun c member => (good.text c member).2) (fun c member => (valid.text c member).2)
            (Name.strncmpEq_trans (Name.strncmpEq_symm text) own)) same
        · have old := made.old_entry sheltered sheltered.root bound (.inr new)
          exact absurd ((old.matches_iff other).mp ⟨used, text⟩)
            (Directory.entryIndex_none before bound)
  · intro j other pos content t _ known leads
    have apart : other ≠ name := by
      rintro rfl
      rw [fresh] at known
      cases known
    rw [Function.update_of_ne apart]
    exact ⟨known, kept (rep.named other content known) leads⟩

theorem answers_create {size : Int} (rep : Represents layout state session disk vis) :
    Answers state session disk vis (.create name size) := by
  unfold Answers Call.perform
  by_cases regular : FileName name ∧ 0 ≤ size
  rotate_left
  · exact ensures_any (fun _ => trivial) fun result _ _ holds => absurd ⟨holds.1, holds.2.1⟩ regular
  obtain ⟨valid, positive⟩ := regular
  have sheltered := rep.sheltered
  have path := sheltered.safe_of_plain valid.plain
  have refused : ∀ fs' disk', Quiet layout disk disk' → Mounted fs' disk' →
      Ensures (pure (Reply.flag false, { session with fs := fs' })) (fun result disk' vis' =>
        Regular session disk (.create name size) result.1 →
        ByteFiles.Allows state (.create name size) result.1 ∧ ∃ layout', Represents layout'
          (ByteFiles.next state (.create name size) result.1) result.2 disk' vis')
        (fun _ => True) disk' vis :=
    fun fs' disk' quiet mounted => ensures_pure fun _ =>
      ⟨fun wrong => absurd wrong (by simp), layout, rep.quiet quiet mounted⟩
  apply ensures_bind
  by_cases small : size ≤ 1024
  · lift size to Nat using positive
    have few : sectorsFor size ≤ 8 := by
      unfold sectorsFor
      omega
    refine ensures_Create_file sheltered sheltered.reach rep.mounted path valid.shortExtension (by omega)
      (by omega) (fun _ _ => trivial) (fun fs' disk' _ => refused fs' disk') ?_
    intro fs' disk' p hs i lookup _ made _ mounted
    rw [splitPath_of_plain valid.plain] at made lookup
    rw [sheltered.lookup_dot.2] at lookup
    subst lookup
    refine ensures_pure fun _ => ⟨fun _ => ?_, _, rep.created valid (by omega) made mounted⟩
    by_contra present
    obtain ⟨content, known⟩ := Option.ne_none_iff_exists'.mp present
    obtain ⟨t, ⟨j, found, -⟩, -⟩ := rep.present name content known
    rw [made.absent] at found
    cases found
  · refine ensures_Create_refused sheltered sheltered.reach rep.mounted path positive ?_
      fun fs' disk' _ _ quiet mounted _ => refused fs' disk' quiet mounted
    intro _ fs' disk' vis'
    exact ensures_pure fun holds => absurd (holds.2.2 rfl) small

/-- `Open` leaves a handle on the root behind, which nothing depends on. -/
theorem Represents.leak (rep : Represents layout state session disk vis) :
    Represents layout state session disk (Function.update vis 1 (vis 1 + 1)) := by
  refine { rep with counters := fun t notMap notRoot => ?_, busy := ?_ }
  · rw [Function.update_of_ne notRoot]
    exact rep.counters t notMap notRoot
  · have some := rep.busy
    rw [Function.update_self]
    omega

/-- The states after a file was opened. -/
theorem Represents.openedFile (rep : Represents layout state session disk vis)
    (valid : FileName name) (leads : Leads disk name s) (unopened : session.openOn s = 0)
    (current : Current disk file s) (position : file.seekPosition = 0)
    (known : state.files name = some content) :
    Represents layout { state with handles := state.handles ++ [some (name, 0)] }
      { session with handles := session.handles ++ [some file] } disk
      (Function.update vis s (vis s + 1)) := by
  have sheltered := rep.sheltered
  have regular := rep.leads_file valid leads
  have head : layout.Head s := .inr (.inr regular)
  have number := sheltered.number head current
  have notMap := (sheltered.file_apart regular).1
  have notRoot : s ≠ 1 := by
    rintro rfl
    exact sheltered.kinds 1 sheltered.root regular
  have others : ∀ j pos, state.handle j = some (name, pos) → False := by
    intro j pos there
    obtain ⟨file', t, -, opened, -, leads', current', -, -⟩ := rep.handles j name pos there
    obtain ⟨i, found, here⟩ := leads
    obtain ⟨i', found', here'⟩ := leads'
    obtain rfl := Option.some.inj (found.symm.trans found')
    obtain rfl : t = s := here'.symm.trans here
    have positive := Session.openOn_pos opened
    rw [sheltered.number head current'] at positive
    omega
  have file_at : ∀ j, Session.file { session with handles := session.handles ++ [some file] } j =
      if j = session.handles.length then some file else session.file j := fun j =>
    join_append _ _ j
  have handle_at : ∀ j, ByteFiles.State.handle
      { state with handles := state.handles ++ [some (name, 0)] } j =
      if j = session.handles.length then some (name, 0) else state.handle j := fun j => by
    rw [rep.slots]
    exact join_append _ _ j
  refine { rep with slots := ?_, opened := ?_, handles := ?_, alone := ?_, counters := ?_, busy := ?_ }
  · simp [rep.slots]
  · intro j other there
    rw [file_at] at there
    rw [handle_at]
    split at there <;> rename_i last
    · rw [if_pos last]
      exact ⟨_, _, rfl⟩
    · rw [if_neg last]
      exact rep.opened j other there
  · intro j name' pos there
    rw [handle_at] at there
    rw [file_at]
    split at there <;> rename_i last
    · obtain ⟨rfl, rfl⟩ := Prod.mk.inj (Option.some.inj there)
      rw [if_pos last]
      exact ⟨file, s, content, rfl, known, leads, current, position, Nat.zero_le _⟩
    · rw [if_neg last]
      exact rep.handles j name' pos there
  · intro j k name' posJ posK atJ atK
    rw [handle_at] at atJ atK
    split at atJ <;> rename_i lastJ <;> split at atK <;> rename_i lastK
    · rw [lastJ, lastK]
    · obtain ⟨rfl, -⟩ := Prod.mk.inj (Option.some.inj atJ)
      exact (others k posK atK).elim
    · obtain ⟨rfl, -⟩ := Prod.mk.inj (Option.some.inj atK)
      exact (others j posJ atJ).elim
    · exact rep.alone j k name' posJ posK atJ atK
  · intro t mapless rootless
    have before := rep.counters t mapless rootless
    rw [Session.openOn_opened, number]
    by_cases same : s = t
    · subst same
      rw [Function.update_self, if_pos rfl, before]
      omega
    · rw [Function.update_of_ne (Ne.symm same), if_neg same, before]
      omega
  · rw [Function.update_of_ne (Ne.symm notRoot)]
    exact rep.busy

theorem Represents.answered_openFile (rep : Represents layout state session disk vis)
    (regular : Regular session disk (.openFile name) reply) :
    Answered state session fault disk vis (.openFile name) := by
  obtain ⟨valid, unopened⟩ := regular
  unfold Answered Call.perform
  have sheltered := rep.sheltered
  have split := splitPath_of_plain valid.plain
  apply ensures_bind
  refine ensures_Open sheltered sheltered.reach rep.mounted (sheltered.safe_of_plain valid.plain) ?_ ?_ ?_
  · intro missing
    rw [split, sheltered.lookup_dot.1] at missing
    cases missing
  · intro fs' disk' p lookup _ missing quiet mounted
    rw [split, sheltered.lookup_dot.2] at lookup
    subst lookup
    rw [split] at missing
    refine ensures_pure ⟨?_, layout, (rep.quiet quiet mounted).leak⟩
    have none : state.files name = none := by
      by_contra present
      obtain ⟨content, known⟩ := Option.ne_none_iff_exists'.mp present
      obtain ⟨t, ⟨j, found, -⟩, -⟩ := rep.present name content known
      rw [missing] at found
      cases found
    change Option.none = if (state.files name).isSome then some state.handles.length else Option.none
    rw [none]
    rfl
  · intro fs' file disk' p i s lookup _ found sector quiet mounted head current position
    rw [split, sheltered.lookup_dot.2] at lookup
    subst lookup
    rw [split] at found
    have leads : Leads disk name s := ⟨i, found, sector⟩
    obtain ⟨content, known⟩ : ∃ content, state.files name = some content := by
      apply Option.ne_none_iff_exists'.mp
      intro none
      rw [rep.absent name valid none] at found
      cases found
    refine ensures_pure ⟨?_, layout, ?_⟩
    · change some session.handles.length =
        if (state.files name).isSome then some state.handles.length else none
      rw [known, rep.slots]
      rfl
    · have rep' := (rep.quiet quiet mounted).leak
      exact rep'.openedFile valid ((quiet.leads sheltered).mpr leads) (unopened s leads) current
        position known

theorem answers_openFile (rep : Represents layout state session disk vis) :
    Answers state session disk vis (.openFile name) :=
  @answers_of_regular _ _ _ _ _ .nothing (fun _ regular => regular) rep.answered_openFile

/-- Everything the relation knows about an open handle. -/
theorem Represents.through {handle : Nat} (rep : Represents layout state session disk vis)
    (opened : session.file handle = some file) : ∃ name pos content s,
    state.handle handle = some (name, pos) ∧ state.files name = some content ∧
    Leads disk name s ∧ s ∈ layout.files ∧ Contains disk s content ∧ Current disk file s ∧
    file.seekPosition = pos ∧ pos ≤ content.length := by
  obtain ⟨name, pos, there⟩ := rep.opened handle file opened
  obtain ⟨file', s, content, same, known, leads, current, position, reached⟩ :=
    rep.handles handle name pos there
  obtain rfl := Option.some.inj (opened.symm.trans same)
  obtain ⟨t, leads', contains⟩ := rep.present name content known
  obtain rfl : t = s := by
    obtain ⟨i, found, here⟩ := leads
    obtain ⟨i', found', here'⟩ := leads'
    obtain rfl := Option.some.inj (found.symm.trans found')
    exact here'.symm.trans here
  exact ⟨name, pos, content, t, there, known, leads,
    rep.leads_file (rep.named name content known) leads, contains, current, position, reached⟩

/-- A handle moves inside its file and nothing else happens. -/
theorem Represents.reposition {handle pos pos' : Nat} {file' : OpenFile}
    (rep : Represents layout state session disk vis)
    (there : state.handle handle = some (name, pos)) (opened : session.file handle = some file)
    (known : state.files name = some content) (leads : Leads disk name s)
    (current : Current disk file' s) (position : file'.seekPosition = pos')
    (reached : pos' ≤ content.length)
    (number : file'.hdr.sectorNumber = file.hdr.sectorNumber) :
    Represents layout (state.setHandle handle (some (name, pos')))
      (session.setFile handle (some file')) disk vis :=
  rep.move rep.consistent rep.mounted rep.named rep.present rep.absent
    (fun _ _ _ _ _ _ _ known leads => ⟨known, leads, Agrees.refl _, fun _ _ _ _ _ => rfl⟩)
    there opened known leads current position reached number

theorem Represents.answered_read {handle : Nat} {into : Memory} {n : Int}
    (rep : Represents layout state session disk vis) (opened : session.file handle = some file)
    (sum : file.seekPosition + n < 2147483648 ∨ fault .undefined)
    (empty : file.hdr.numBytes = 0 → fault .assertion) :
    Answered state session fault disk vis (.read handle into n) := by
  obtain ⟨name, pos, content, s, there, known, leads, regular, contains, current, position,
    reached⟩ := rep.through opened
  have sheltered := rep.sheltered
  have head : layout.Head s := .inr (.inr regular)
  have number := sheltered.number head current
  have length : file.hdr.numBytes = (content.length : Int) := current.numBytes.trans contains.headed.length
  have direct : sectorsFor content.length ≤ 8 := by
    have small := contains.direct
    unfold sectorsFor
    omega
  unfold Answered Call.perform Session.through
  simp only [opened]
  apply ensures_bind
  unfold OpenFile.Read
  rw [if_pos (by rw [number]; exact sheltered.valid_head head), position]
  rw [position] at sum
  apply ensures_bind
  by_cases nothing : n ≤ 0
  · refine ensures_ReadAt_nothing (.inl nothing) ?_
    apply ensures_pure
    refine ensures_pure ⟨⟨name, pos, content, ⟨there, known⟩, ?_, ?_, ?_⟩, layout, ?_⟩
    · rw [Int.toNat_of_nonpos nothing, Nat.zero_min]
      rfl
    · intro j b less
      simp at less
    · exact fun _ _ => rfl
    · unfold ByteFiles.next
      dsimp only
      rw [there]
      exact rep.reposition there opened known leads current (by simp [position])
        (by simpa using reached) rfl
  · obtain ⟨count, rfl⟩ := Int.eq_ofNat_of_zero_le (show 0 ≤ n by omega)
    refine ensures_ReadAt_file sheltered regular head contains.headed current (.of_direct direct) (by omega)
      reached (sum.imp_left fun less => by exact_mod_cast less)
      (fun zero => empty (by rw [length, zero]; rfl)) ?_
    intro file' into' disk' quiet current' position' copied kept
    have sheltered' := quiet.sheltered sheltered
    apply ensures_pure
    refine ensures_pure ⟨⟨name, pos, content, ⟨there, known⟩, ?_, ?_, ?_⟩, layout, ?_⟩
    · rw [Int.toNat_natCast]
    · intro j b less written
      rw [Int.toNat_natCast] at less
      exact (copied j less).trans (contains.bytes _ b written).2
    · intro j past
      rw [Int.toNat_natCast] at past
      exact kept j past
    · unfold ByteFiles.next
      dsimp only
      rw [there]
      have rep' := rep.quiet quiet (rep.mounted.quiet sheltered quiet)
      refine rep'.reposition there opened known ((quiet.leads sheltered).mpr leads) current' ?_ ?_
        ((sheltered'.number head current').trans number.symm)
      · dsimp only
        rw [position', position, Int.toNat_natCast]
        omega
      · rw [Int.toNat_natCast]
        omega

/-- A call through a handle that is not open stops the kernel. -/
theorem answers_through {call : Call} {handle : Nat} {body : OpenFile → Kernel (Reply × Session)}
    (uses : call.perform session = session.through handle body)
    (answers : ∀ file, session.file handle = some file → Answers state session disk vis call) :
    Answers state session disk vis call := by
  cases opened : session.file handle with
  | some file => exact answers file opened
  | none =>
    unfold Answers
    rw [uses]
    unfold Session.through
    simp only [opened]
    exact ensures_stop trivial

theorem answers_read {handle : Nat} {into : Memory} {n : Int}
    (rep : Represents layout state session disk vis) :
    Answers state session disk vis (.read handle into n) :=
  answers_through rfl fun _ opened => @answers_of_regular _ _ _ _ _ .nothing (fun _ regular => regular)
    fun _ => rep.answered_read opened (.inr trivial) fun _ => trivial

theorem Represents.answered_seek {handle : Nat} {position : Int}
    (rep : Represents layout state session disk vis) (opened : session.file handle = some file)
    (regular : Regular session disk (.seek handle position) reply) :
    Answered state session fault disk vis (.seek handle position) := by
  obtain ⟨name, pos, content, s, there, known, leads, -, contains, current, -, -⟩ := rep.through opened
  obtain ⟨low, high⟩ := regular file opened
  have length : file.Length = (content.length : Int) := current.numBytes.trans contains.headed.length
  unfold Answered Call.perform Session.through
  simp only [opened]
  refine ensures_pure ⟨⟨name, pos, content, there, known⟩, layout, ?_⟩
  unfold ByteFiles.next
  dsimp only
  rw [there]
  refine rep.reposition there opened known leads current ?_ (by omega) rfl
  exact (Int.toNat_of_nonneg low).symm

theorem answers_seek {handle : Nat} {position : Int}
    (rep : Represents layout state session disk vis) :
    Answers state session disk vis (.seek handle position) :=
  answers_through rfl fun _ opened => @answers_of_regular _ _ _ _ _ .nothing (fun _ regular => regular)
    (rep.answered_seek opened)

theorem Represents.answered_close {handle : Nat} (rep : Represents layout state session disk vis)
    (opened : session.file handle = some file) :
    Answered state session fault disk vis (.close handle) := by
  obtain ⟨name, pos, content, s, there, known, leads, regular, contains, current, -, -⟩ :=
    rep.through opened
  have sheltered := rep.sheltered
  have number := sheltered.number (.inr (.inr regular)) current
  have notRoot : s ≠ 1 := by
    rintro rfl
    exact sheltered.kinds 1 sheltered.root regular
  unfold Answered Call.perform Session.through
  simp only [opened]
  apply ensures_bind
  refine ensures_delete (by rw [number]; exact sheltered.valid_head (.inr (.inr regular))) ?_
  rw [number]
  refine ensures_pure ⟨⟨name, pos, content, there, known⟩, layout, ?_⟩
  obtain ⟨bound, -⟩ := Session.file_some opened
  obtain ⟨bound', -⟩ := ByteFiles.State.handle_some there
  change Represents layout (state.setHandle handle none) (session.setFile handle none) disk _
  refine { rep with slots := ?_, opened := ?_, handles := ?_, alone := ?_, counters := ?_, busy := ?_ }
  · simp [Session.setFile, ByteFiles.State.setHandle, rep.slots]
  · intro j other at_j
    rw [Session.file_setFile bound] at at_j
    rw [ByteFiles.State.handle_setHandle bound']
    split at at_j <;> rename_i same
    · cases at_j
    · rw [if_neg same]
      exact rep.opened j other at_j
  · intro j name' pos' at_j
    rw [ByteFiles.State.handle_setHandle bound'] at at_j
    rw [Session.file_setFile bound]
    split at at_j <;> rename_i same
    · cases at_j
    · rw [if_neg same]
      exact rep.handles j name' pos' at_j
  · intro j k name' posJ posK atJ atK
    rw [ByteFiles.State.handle_setHandle bound'] at atJ atK
    split at atJ
    · cases atJ
    · split at atK
      · cases atK
      · exact rep.alone j k name' posJ posK atJ atK
  · intro t mapless rootless
    have before := rep.counters t mapless rootless
    have count := Session.openOn_closed opened t
    rw [number] at count
    by_cases same : s = t
    · subst same
      rw [Function.update_self]
      rw [if_pos rfl] at count
      omega
    · rw [Function.update_of_ne (Ne.symm same)]
      rw [if_neg same] at count
      omega
  · rw [Function.update_of_ne (Ne.symm notRoot)]
    exact rep.busy

theorem answers_close {handle : Nat} (rep : Represents layout state session disk vis) :
    Answers state session disk vis (.close handle) :=
  answers_through rfl fun _ opened => @answers_of_regular _ _ _ _ _ .nothing (fun _ regular => regular)
    fun _ => rep.answered_close opened

theorem Grew.leads {h : Int} {len len' : Nat} (grew : Grew layout disk disk' h len len')
    (sheltered : Sheltered layout disk) :
    (tableAt disk' 1).entryIndex name = (tableAt disk 1).entryIndex name ∧
      (Leads disk' name s ↔ Leads disk name s) := by
  have same := grew.other_table sheltered sheltered.root
  have index := Directory.entryIndex_congr same name
  refine ⟨index, ?_⟩
  unfold Leads
  rw [index]
  refine exists_congr fun i => and_congr_right fun found => ?_
  rw [(same.entry (Directory.entryIndex_some found).1).sector]

/-- The bytes of a file after a write. -/
theorem Contains.store {source : Memory} {pos n : Nat} {file' : OpenFile}
    (contains : Contains disk s content) (sheltered : Sheltered layout disk)
    (regular : s ∈ layout.files) (current : Current disk file s) (current' : Current disk' file' s)
    (written : Written disk disk' file.hdr file'.hdr source pos n content.length)
    (grew : Grew layout disk disk' s content.length (max content.length (pos + n)))
    (positive : 0 < n) (reached : pos ≤ content.length) (small : pos + n ≤ 1024) :
    Contains disk' s (content.store pos n source) := by
  have limit : max content.length (pos + n) ≤ 1024 := by
    have direct := contains.direct
    omega
  have few : sectorsFor (max content.length (pos + n)) ≤ 8 := by
    unfold sectorsFor
    omega
  have length : (content.store pos n source).length = max content.length (pos + n) :=
    if_pos positive
  refine ⟨by rw [length]; exact grew.after, by rw [length]; exact limit, fun o b known => ?_⟩
  have bytes := @OpenFile.Written.content layout disk disk' file s content.length n pos source
    file' written sheltered regular contains.headed current current' few o
  rw [length]
  unfold ByteFiles.File.store at known
  dsimp only at known
  split at known <;> rename_i covered
  · have inside : o < max content.length (pos + n) := by omega
    refine ⟨inside, ?_⟩
    rw [bytes inside reached, if_pos covered]
    exact Option.some.inj known
  · obtain ⟨inside, byte⟩ := contains.bytes o b known
    have within : o < max content.length (pos + n) := by omega
    refine ⟨within, ?_⟩
    rw [bytes within reached, if_neg covered]
    exact byte

theorem ByteFiles.File.store_nothing (content : ByteFiles.File) (pos : Nat) (source : Memory) :
    content.store pos 0 source = content := by
  unfold ByteFiles.File.store
  rw [if_neg (by omega)]
  congr 1
  funext o
  rw [if_neg (by omega)]

theorem Represents.answered_write {handle : Nat} {source : Memory} {n : Int}
    (rep : Represents layout state session disk vis) (opened : session.file handle = some file)
    (regular : Regular session disk (.write handle source n) reply) :
    Answered state session fault disk vis (.write handle source n) := by
  obtain ⟨name, pos, content, s, there, known, leads, member, contains, current, position,
    reached⟩ := rep.through opened
  have sheltered := rep.sheltered
  have head : layout.Head s := .inr (.inr member)
  have number := sheltered.number head current
  have answer : ByteFiles.Allows state (.write handle source n) (.count n.toNat) :=
    ⟨⟨name, pos, content, there, known⟩, rfl⟩
  have after : ByteFiles.next state (.write handle source n) (.count n.toNat) =
      { state.setHandle handle (some (name, pos + n.toNat)) with
        files := Function.update state.files name (some (content.store pos n.toNat source)) } := by
    unfold ByteFiles.next
    dsimp only
    rw [there]
    dsimp only
    rw [known]
    rfl
  unfold Answered Call.perform Session.through
  simp only [opened]
  by_cases nothing : n ≤ 0
  · apply ensures_bind
    unfold OpenFile.Write
    rw [if_pos (by rw [number]; exact sheltered.valid_head head)]
    apply ensures_bind
    refine ensures_WriteAt_nothing (.inl nothing) ?_
    apply ensures_pure
    have zero : n.toNat = 0 := Int.toNat_of_nonpos nothing
    rw [zero] at answer after
    refine ensures_pure ⟨answer, layout, ?_⟩
    change Represents layout (ByteFiles.next state (.write handle source n) (.count (0 : Nat))) _ _ _
    rw [after, ByteFiles.File.store_nothing, ← known, Function.update_eq_self]
    exact rep.reposition there opened known leads current (by simp [position])
      (by simpa using reached) rfl
  · obtain ⟨count, rfl⟩ := Int.eq_ofNat_of_zero_le (show 0 ≤ n by omega)
    rw [Int.toNat_natCast] at answer after
    obtain ⟨low, enough⟩ := regular file opened (by omega)
    have length : file.Length = (content.length : Int) := current.numBytes.trans contains.headed.length
    have sum : ((pos : Int) + (count : Int)).toNat = pos + count := by omega
    rw [position] at low enough
    rw [length, Int.toNat_natCast, sum] at enough
    have small : pos + count ≤ 1024 := by exact_mod_cast low
    have few : sectorsFor (pos + count) ≤ 8 := by
      unfold sectorsFor
      omega
    apply ensures_bind
    unfold OpenFile.Write
    rw [if_pos (by rw [number]; exact sheltered.valid_head head), position]
    apply ensures_bind
    refine ensures_WriteAt_file sheltered member member contains.headed current (by omega) reached
      (.inl few) enough (fun k far _ bound => by omega) ?_
    intro file' disk' written grew current' position'
    have sheltered' := grew.sheltered sheltered
    apply ensures_pure
    refine ensures_pure ⟨answer, layout, ?_⟩
    change Represents layout
      (ByteFiles.next state (.write handle source count) (.count (count : Nat))) _ _ _
    rw [after]
    have stored := contains.store sheltered member current current' written grew (by omega)
      reached small
    have apart : ∀ {other content' t}, other ≠ name → state.files other = some content' →
        Leads disk other t → KeepsFile disk disk' t := by
      intro other content' t differ known' leads'
      have valid' := rep.named other content' known'
      refine grew.keepsFile sheltered (rep.leads_file valid' leads') ?_
      rintro rfl
      exact differ (rep.leads_inj valid' (rep.named name content known) leads' leads)
    refine rep.move (grew.consistent rep.consistent) (grew.mounted sheltered rep.mounted) ?_ ?_ ?_ ?_ there opened
      (Function.update_self _ _ _) ((grew.leads sheltered).2.mpr leads) current' ?_ ?_ ?_
    · intro other content' known'
      by_cases same : other = name
      · rw [same]
        exact rep.named name content known
      · rw [Function.update_of_ne same] at known'
        exact rep.named other content' known'
    · intro other content' known'
      by_cases same : other = name
      · subst same
        rw [Function.update_self] at known'
        obtain rfl := Option.some.inj known'
        exact ⟨s, (grew.leads sheltered).2.mpr leads, stored⟩
      · rw [Function.update_of_ne same] at known'
        obtain ⟨t, leads', contains'⟩ := rep.present other content' known'
        exact ⟨t, (grew.leads sheltered).2.mpr leads', (apart same known' leads').contains contains'⟩
    · intro other valid missing
      by_cases same : other = name
      · subst same
        rw [Function.update_self] at missing
        cases missing
      · rw [Function.update_of_ne same] at missing
        rw [(grew.leads (s := 0) sheltered).1]
        exact rep.absent other valid missing
    · intro j other pos' content' t differ there' known' leads'
      have other' : other ≠ name := by
        rintro rfl
        exact differ (rep.alone j handle other pos' pos there' there)
      rw [Function.update_of_ne other']
      exact ⟨known', (grew.leads sheltered).2.mpr leads', apart other' known' leads'⟩
    · dsimp only
      rw [position', position]
      omega
    · unfold ByteFiles.File.store
      dsimp only
      rw [if_pos (by omega)]
      omega
    · exact (sheltered'.number head current').trans number.symm

theorem answers_write {handle : Nat} {source : Memory} {n : Int}
    (rep : Represents layout state session disk vis) :
    Answers state session disk vis (.write handle source n) :=
  answers_through rfl fun _ opened => @answers_of_regular _ _ _ _ _ .nothing (fun _ regular => regular)
    (rep.answered_write opened)

/-- Handles are open on the header of a name exactly when the name is busy. -/
theorem Represents.busy_iff (rep : Represents layout state session disk vis)
    (valid : FileName name) (leads : Leads disk name s) :
    0 < session.openOn s ↔ state.Busy name := by
  have number : ∀ {i file}, session.file i = some file → ∃ other pos t,
      state.handle i = some (other, pos) ∧ FileName other ∧ Leads disk other t ∧
        file.hdr.sectorNumber = t := by
    intro i file opened
    obtain ⟨other, pos, content, t, there, known, leads', regular, -, current, -, -⟩ :=
      rep.through opened
    exact ⟨other, pos, t, there, rep.named other content known, leads',
      rep.sheltered.number (.inr (.inr regular)) current⟩
  constructor
  · intro counted
    obtain ⟨i, file, opened, on⟩ := Session.exists_open counted
    obtain ⟨other, pos, t, there, valid', leads', own⟩ := number opened
    obtain rfl : t = s := own.symm.trans on
    rw [rep.leads_inj valid' valid leads' leads] at there
    exact ⟨i, pos, there⟩
  · rintro ⟨i, pos, there⟩
    obtain ⟨file, t, content, opened, -, leads', current, -, -⟩ := rep.handles i name pos there
    obtain rfl : t = s := by
      obtain ⟨j, found, here⟩ := leads
      obtain ⟨j', found', here'⟩ := leads'
      obtain rfl := Option.some.inj (found.symm.trans found')
      exact here'.symm.trans here
    have regular := rep.leads_file valid leads
    rw [← rep.sheltered.number (.inr (.inr regular)) current]
    exact Session.openOn_pos opened

/-- The states after a file was removed. -/
theorem Represents.removed {e : Int} {i : Nat} {isDir : Bool}
    (rep : Represents layout state session disk vis) (valid : FileName name)
    (found : (tableAt disk 1).entryIndex name = some i) (sector : (tableAt disk 1).sector i = e)
    (gone : Removed layout disk disk' 1 e i isDir) (idle : ¬ state.Busy name)
    (mounted : Mounted fs disk') :
    Represents (layout.remove e)
      { state with files := Function.update state.files name none }
      { session with fs := fs } disk' vis := by
  have sheltered := rep.sheltered
  have sheltered' := gone.sheltered sheltered
  have notRoot := (gone.node sheltered).2.2
  have root' : (1 : Int) ∈ (layout.remove e).dirs := sheltered'.root
  have old : ∀ {j}, j < 10 → j ≠ i → Directory.SameEntry (tableAt disk' 1) (tableAt disk 1) j :=
    fun bound other => gone.old_entry sheltered sheltered.root bound (.inr other)
  have kept : ∀ {other t}, FileName other → other ≠ name → Leads disk other t →
      Leads disk' other t ∧ KeepsFile disk disk' t := by
    intro other t good differ leads
    refine ⟨?_, gone.toEdited.keepsFile sheltered (rep.leads_file good leads)⟩
    obtain ⟨j, found', here⟩ := leads
    obtain ⟨bound, hit⟩ := Directory.entryIndex_some found'
    have apart : j ≠ i := by
      rintro rfl
      exact differ (rep.leads_inj good valid ⟨j, found', rfl⟩ ⟨j, found, rfl⟩)
    exact ⟨j, (sheltered'.entryIndex_iff root').mpr ⟨bound, ((old bound apart).matches_iff other).mpr hit⟩,
      (old bound apart).sector.trans here⟩
  have still : ∀ {other j}, (tableAt disk' 1).entryIndex other = some j →
      j ≠ i ∧ (tableAt disk 1).entryIndex other = some j := by
    intro other j found'
    obtain ⟨bound, hit⟩ := Directory.entryIndex_some found'
    have apart : j ≠ i := by
      rintro rfl
      have used := hit.1
      rw [gone.unused] at used
      cases used
    exact ⟨apart, (sheltered.entryIndex_iff sheltered.root).mpr
      ⟨bound, ((old bound apart).matches_iff other).mp hit⟩⟩
  refine rep.change (gone.consistent rep.consistent) ?_ mounted ?_ ?_ ?_ ?_
  · unfold Layout.remove
    rw [rep.flat]
    exact Set.sdiff_singleton_eq_self (by simpa using notRoot)
  · intro other content known
    by_cases same : other = name
    · rw [same]
      exact valid
    · rw [Function.update_of_ne same] at known
      exact rep.named other content known
  · intro other content known
    by_cases same : other = name
    · subst same
      rw [Function.update_self] at known
      cases known
    · rw [Function.update_of_ne same] at known
      obtain ⟨t, leads, contains⟩ := rep.present other content known
      obtain ⟨leads', keeps⟩ := kept (rep.named other content known) same leads
      exact ⟨t, leads', keeps.contains contains⟩
  · intro other good missing
    cases found' : (tableAt disk' 1).entryIndex other with
    | none => rfl
    | some j =>
      obtain ⟨apart, before⟩ := still found'
      by_cases same : other = name
      · subst same
        exact absurd (Option.some.inj (before.symm.trans found)) apart
      · rw [Function.update_of_ne same] at missing
        rw [rep.absent other good missing] at before
        cases before
  · intro j other pos content t there known leads
    have differ : other ≠ name := by
      rintro rfl
      exact idle ⟨j, pos, there⟩
    rw [Function.update_of_ne differ]
    exact ⟨known, kept (rep.named other content known) differ leads⟩

/-- A file can be removed. -/
theorem Represents.removable {i : Nat} (rep : Represents layout state session disk vis) (valid : FileName name)
    (found : (tableAt disk 1).entryIndex name = some i) : Removable disk i := by
  have sheltered := rep.sheltered
  have regular := rep.leads_file valid ⟨i, found, rfl⟩
  obtain ⟨content, here⟩ : ∃ content, state.files name = some content := by
    apply Option.ne_none_iff_exists'.mp
    intro none
    rw [rep.absent name valid none] at found
    cases found
  obtain ⟨t, ⟨j, found', sector⟩, contains⟩ := rep.present name content here
  obtain rfl := Option.some.inj (found.symm.trans found')
  refine ⟨fun kind => ?_, fun k far inside => ?_⟩
  · exact absurd regular (sheltered.kinds _ ((sheltered.root_entry found).2 kind))
  · rw [sector, contains.headed.sectors] at inside
    have small := contains.direct
    unfold sectorsFor at inside
    omega

theorem Represents.answered_remove (rep : Represents layout state session disk vis) (valid : FileName name) :
    Answered state session fault disk vis (.remove name) := by
  unfold Answered Call.perform
  have sheltered := rep.sheltered
  have known : ∀ {i}, (tableAt disk 1).entryIndex name = some i →
      ∃ content, state.files name = some content := by
    intro i found
    apply Option.ne_none_iff_exists'.mp
    intro none
    rw [rep.absent name valid none] at found
    cases found
  have count : ∀ {i}, (tableAt disk 1).entryIndex name = some i →
      vis ((tableAt disk 1).sector i) = session.openOn ((tableAt disk 1).sector i) := by
    intro i found
    have regular := rep.leads_file valid ⟨i, found, rfl⟩
    refine rep.counters _ (sheltered.file_apart regular).1 fun root => ?_
    rw [root] at regular
    exact sheltered.kinds 1 sheltered.root regular
  apply ensures_bind
  refine ensures_Remove sheltered sheltered.whole rep.mounted valid.plain (by have some := rep.busy; omega) ?_ ?_ ?_
  · exact fun i found _ => rep.removable valid found
  · intro fs' disk' quiet mounted reason
    refine ensures_pure ⟨⟨fun wrong => (by cases wrong), ?_⟩, layout, rep.quiet quiet mounted⟩
    rintro ⟨present, idle⟩
    rcases reason with missing | ⟨i, found, busy⟩
    · obtain ⟨content, here⟩ := Option.isSome_iff_exists.mp present
      obtain ⟨t, ⟨j, found, -⟩, -⟩ := rep.present name content here
      rw [missing] at found
      cases found
    · rw [count found] at busy
      exact absurd ((rep.busy_iff valid ⟨i, found, rfl⟩).mp (by omega)) idle
  · intro fs' disk' e i isDir found sector free gone mounted
    have idle : ¬ state.Busy name := by
      intro busy
      have some := (rep.busy_iff valid ⟨i, found, rfl⟩).mpr busy
      have counted := count found
      rw [sector, free] at counted
      rw [sector] at some
      omega
    obtain ⟨content, here⟩ := known found
    refine ensures_pure ⟨⟨fun _ => ⟨by rw [here]; rfl, idle⟩, fun _ => rfl⟩, _,
      rep.removed valid found sector gone idle mounted⟩

theorem answers_remove (rep : Represents layout state session disk vis) :
    Answers state session disk vis (.remove name) :=
  @answers_of_regular _ _ _ _ _ .nothing (fun _ regular => regular) rep.answered_remove

end Calls

theorem answers_call (rep : Represents layout state session disk vis) (call : Call) :
    Answers state session disk vis call := by
  cases call with
  | create => exact answers_create rep
  | openFile => exact answers_openFile rep
  | read => exact answers_read rep
  | write => exact answers_write rep
  | seek => exact answers_seek rep
  | close => exact answers_close rep
  | remove => exact answers_remove rep
  | writepipe => exact ensures_any (fun _ => trivial) fun _ _ _ regular => regular.elim
  | readpipe => exact ensures_any (fun _ => trivial) fun _ _ _ regular => regular.elim

/-! ## Systems -/

/-- A regular call in the state it is made in. -/
def RegularCall (system : System) (call : Call) (reply : Reply) : Prop :=
  Regular system.session system.disk call reply

/-- The system stands for the abstract state. -/
structure SystemRepresents (state : ByteFiles.State) (system : System) : Prop where
  states : ∃ layout, Represents layout state system.session system.disk system.counters
  coherent : system.machine.cache.Coherent system.machine.disk

theorem represents_boot {machine after : SynchDisk} (blank : System.Blank machine)
    (formatted : FileSystem.format.run SynchDisk.handle machine = .done fs after) :
    SystemRepresents ByteFiles.empty
      { session := { fs := fs, handles := [] }, machine := after } := by
  have ends : Ensures FileSystem.format (fun fs disk' vis' => ∃ layout,
      Represents layout ByteFiles.empty { fs := fs, handles := [] } disk' vis') (fun _ => False)
      machine.disk machine.visNum := by
    refine ensures_format fun fs disk' shape mounted => ⟨emptyLayout, shape.consistent, rfl, mounted,
      fun _ _ known => (by cases known), fun _ _ known => (by cases known), fun name valid _ => ?_,
      rfl, fun i file opened => (by simp [Session.file] at opened),
      fun i name pos there => (by simp [ByteFiles.State.handle, ByteFiles.empty] at there),
      fun i j name pos pos' there => (by simp [ByteFiles.State.handle, ByteFiles.empty] at there),
      fun s notMap notRoot => ?_, ?_⟩
    · refine shape.absent (fun same => valid.notDot ?_) fun same => valid.notDots ?_
      · exact (Name.eq_of_strncmpEq (by decide) valid.short (by simp)
          (fun c member => (valid.text c member).2) same).symm
      · exact (Name.eq_of_strncmpEq (by decide) valid.short (by simp)
          (fun c member => (valid.text c member).2) same).symm
    · unfold mountedCounters
      rw [Function.update_of_ne notRoot, Function.update_of_ne notMap, blank.counters]
      rfl
    · unfold mountedCounters
      rw [Function.update_self, blank.counters]
      decide
  obtain ⟨states, coherent⟩ := ensures_done (blank_coherent blank) formatted ends
  exact ⟨states, coherent⟩

/-! ## Calls that return -/

section Returning
variable {system : System} {handle pos : Nat} {reply : Reply}

/-- A regular call that is known to return leads from one system to the next. -/
theorem SystemRepresents.step (call : Call) (states : SystemRepresents state system)
    (answered : ∀ layout, Represents layout state system.session system.disk system.counters →
      Answered state system.session (fun _ => False) system.disk system.counters call) :
    ∃ reply after, system.Step call reply after ∧ ByteFiles.Allows state call reply ∧
      SystemRepresents (ByteFiles.next state call reply) after := by
  obtain ⟨⟨layout, rep⟩, coherent⟩ := states
  obtain ⟨⟨reply, session⟩, machine, taken, ⟨allowed, next⟩, coherent'⟩ :=
    ensures_returns coherent (answered layout rep)
  exact ⟨reply, ⟨session, machine⟩, taken, allowed, next, coherent'⟩

/-- The handle of the abstract state is open in the session. -/
theorem Represents.open_handle (rep : Represents layout state session disk vis)
    (there : state.At handle name pos content) :
    ∃ file, session.file handle = some file ∧ file.seekPosition = pos ∧ file.Length = (content.length : Int) ∧
      content.length ≤ 1024 := by
  obtain ⟨file, s, -, opened, -⟩ := rep.handles handle name pos there.1
  obtain ⟨name', pos', content', t, there', known, -, -, contains, current, position, -⟩ := rep.through opened
  obtain ⟨rfl, rfl⟩ := Prod.mk.inj (Option.some.inj (there'.symm.trans there.1))
  obtain rfl := Option.some.inj (known.symm.trans there.2)
  exact ⟨file, opened, position, current.numBytes.trans contains.headed.length, contains.direct⟩

theorem SystemRepresents.openFile (states : SystemRepresents state system) (valid : FileName name)
    (known : (state.files name).isSome) (idle : ¬ state.Busy name) :
    ∃ after, RegularCall system (.openFile name) (.handle (some state.handles.length)) ∧
      system.Step (.openFile name) (.handle (some state.handles.length)) after ∧
      SystemRepresents { state with handles := state.handles ++ [some (name, 0)] } after := by
  have regular : ∀ reply, RegularCall system (.openFile name) reply := by
    obtain ⟨⟨layout, rep⟩, -⟩ := states
    exact fun _ => ⟨valid, fun s leads => Nat.eq_zero_of_not_pos (mt (rep.busy_iff valid leads).mp idle)⟩
  obtain ⟨reply, after, taken, allowed, next⟩ :=
    states.step (.openFile name) fun _ rep => rep.answered_openFile (regular .nothing)
  cases reply with
  | handle opened =>
    obtain rfl : opened = some state.handles.length := Eq.trans allowed (if_pos known)
    exact ⟨after, regular _, taken, next⟩
  | _ => exact allowed.elim

theorem SystemRepresents.write {source : Memory} {n : Nat} (states : SystemRepresents state system)
    (there : state.At handle name pos content) (small : pos + n ≤ 1024)
    (room : sectorsFor (pos + n) ≤ sectorsFor content.length) :
    ∃ after, RegularCall system (.write handle source n) (.count n) ∧
      system.Step (.write handle source n) (.count n) after ∧
      SystemRepresents (ByteFiles.next state (.write handle source n) (.count n)) after := by
  have regular : ∀ reply, RegularCall system (.write handle source n) reply := by
    obtain ⟨⟨layout, rep⟩, -⟩ := states
    obtain ⟨file, opened, position, length, -⟩ := rep.open_handle there
    intro reply file' opened' _
    obtain rfl := Option.some.inj (opened.symm.trans opened')
    rw [position, length]
    refine ⟨by omega, ?_⟩
    have sum : ((pos : Int) + (n : Int)).toNat = pos + n := by omega
    rw [sum, Int.toNat_natCast]
    omega
  obtain ⟨reply, after, taken, allowed, next⟩ := states.step (.write handle source n) fun _ rep => by
    obtain ⟨file, opened, -⟩ := rep.open_handle there
    exact rep.answered_write opened (regular .nothing)
  cases reply with
  | count written =>
    obtain rfl : written = n := allowed.2
    exact ⟨after, regular _, taken, next⟩
  | _ => exact allowed.elim

theorem SystemRepresents.seek {position : Nat} (states : SystemRepresents state system)
    (there : state.At handle name pos content) (inside : position ≤ content.length) :
    ∃ after, RegularCall system (.seek handle position) .nothing ∧
      system.Step (.seek handle position) .nothing after ∧
      SystemRepresents (ByteFiles.next state (.seek handle position) .nothing) after := by
  have regular : ∀ reply, RegularCall system (.seek handle position) reply := by
    obtain ⟨⟨layout, rep⟩, -⟩ := states
    obtain ⟨file, opened, -, length, -⟩ := rep.open_handle there
    intro reply file' opened'
    obtain rfl := Option.some.inj (opened.symm.trans opened')
    rw [length]
    omega
  obtain ⟨reply, after, taken, allowed, next⟩ := states.step (.seek handle position) fun _ rep => by
    obtain ⟨file, opened, -⟩ := rep.open_handle there
    exact rep.answered_seek opened (regular .nothing)
  cases reply with
  | nothing => exact ⟨after, regular _, taken, next⟩
  | _ => exact allowed.elim

/-- What is read is what was written. -/
theorem SystemRepresents.read {into : Memory} {n : Nat} (states : SystemRepresents state system)
    (there : state.At handle name pos content) (small : pos + n < 2147483648) (data : 0 < content.length) :
    ∃ buffer after, RegularCall system (.read handle into n) (.bytes (min n (content.length - pos) : Nat) buffer) ∧
      system.Step (.read handle into n) (.bytes (min n (content.length - pos) : Nat) buffer) after ∧
      (∀ j b, j < min n (content.length - pos) → content.written (pos + j) = some b → buffer j = b) ∧
      SystemRepresents (ByteFiles.next state (.read handle into n)
        (.bytes (min n (content.length - pos) : Nat) buffer)) after := by
  obtain ⟨reply, after, taken, allowed, next⟩ := states.step (.read handle into n) fun _ rep => by
    obtain ⟨file, opened, position, length, -⟩ := rep.open_handle there
    refine rep.answered_read opened (.inl (by rw [position]; exact_mod_cast small)) fun empty => ?_
    have length : file.hdr.numBytes = (content.length : Int) := length
    omega
  cases reply with
  | bytes count buffer =>
    obtain ⟨name', pos', content', there', counted, bytes, -⟩ := allowed
    obtain ⟨rfl, rfl⟩ := Prod.mk.inj (Option.some.inj (there'.1.symm.trans there.1))
    obtain rfl := Option.some.inj (there'.2.symm.trans there.2)
    rw [Int.toNat_natCast] at counted
    subst counted
    exact ⟨buffer, after, trivial, taken, fun j b less => bytes j b (by rwa [Int.toNat_natCast]), next⟩
  | _ => exact allowed.elim

theorem SystemRepresents.close (states : SystemRepresents state system)
    (there : state.At handle name pos content) :
    ∃ after, RegularCall system (.close handle) .nothing ∧ system.Step (.close handle) .nothing after ∧
      SystemRepresents (state.setHandle handle none) after := by
  obtain ⟨reply, after, taken, allowed, next⟩ := states.step (.close handle) fun _ rep => by
    obtain ⟨file, opened, -⟩ := rep.open_handle there
    exact rep.answered_close opened
  cases reply with
  | nothing => exact ⟨after, trivial, taken, next⟩
  | _ => exact allowed.elim

theorem SystemRepresents.remove (states : SystemRepresents state system) (valid : FileName name)
    (known : (state.files name).isSome) (idle : ¬ state.Busy name) :
    ∃ after, RegularCall system (.remove name) (.flag true) ∧ system.Step (.remove name) (.flag true) after ∧
      SystemRepresents { state with files := Function.update state.files name none } after := by
  obtain ⟨reply, after, taken, allowed, next⟩ := states.step (.remove name) fun _ rep => rep.answered_remove valid
  cases reply with
  | flag success =>
    obtain rfl : success = true := allowed.mpr ⟨known, idle⟩
    exact ⟨after, valid, taken, next⟩
  | _ => exact allowed.elim

end Returning

/-! ## Runs of regular calls -/

/-- A regular call gets a reply the map allows, and leads to the state it is in then. -/
theorem SystemRepresents.answers {system after : System} {call : Call} {reply : Reply}
    (states : SystemRepresents state system) (regular : RegularCall system call reply)
    (taken : system.Step call reply after) :
    ByteFiles.Allows state call reply ∧ SystemRepresents (ByteFiles.next state call reply) after := by
  obtain ⟨⟨layout, rep⟩, coherent⟩ := states
  have answers := answers_call rep call
  unfold Answers at answers
  obtain ⟨holds, coherent'⟩ := ensures_done coherent taken answers
  obtain ⟨allowed, next⟩ := holds regular
  exact ⟨allowed, next, coherent'⟩

/-- Every run of regular calls is one a map from names to byte strings allows,
and the disk holds what the map does. -/
theorem runs_refine_byte_files {trace : List (Call × Reply)} {system : System}
    (runs : System.Runs RegularCall trace system) :
    ∃ state, ByteFiles.Runs trace state ∧ SystemRepresents state system := by
  induction runs with
  | boot blank formatted => exact ⟨_, .start, represents_boot blank formatted⟩
  | step _ regular taken ih =>
    obtain ⟨state, before, states⟩ := ih
    obtain ⟨allowed, states'⟩ := states.answers regular taken
    exact ⟨_, .step before allowed, states'⟩

/-- The bytes of a file of 200 bytes that was written up to its 250th. -/
def writtenFile : ByteFiles.File := (ByteFiles.File.created 200).store 0 250 fun _ => 7

/-- It is read from its 100th byte on, closed, and removed. -/
def fileLife (buffer : Memory) : List (Call × Reply) :=
  [(.create nameA 200, .flag true), (.openFile nameA, .handle (some 0)),
    (.write 0 (fun _ => 7) (250 : Nat), .count (250 : Nat)), (.seek 0 (100 : Nat), .nothing),
    (.read 0 (fun _ => 0) (200 : Nat), .bytes (150 : Nat) buffer), (.close 0, .nothing), (.remove nameA, .flag true)]

theorem file_life_refines_byte_files : ∃ buffer system, System.Runs RegularCall (fileLife buffer) system ∧
    (∀ j, j < 150 → buffer j = 7) ∧
    ∃ state, ByteFiles.Runs (fileLife buffer) state ∧ SystemRepresents state system := by
  obtain ⟨fs, booted, system₁, formatted, -, taken⟩ := zeroMachine_creates
  have valid : FileName nameA := ⟨by decide, by simp [nameA], by decide, by decide, by decide⟩
  have regular : RegularCall ⟨⟨fs, []⟩, booted⟩ (.create nameA 200) (.flag true) :=
    ⟨valid, by decide, fun _ => by decide⟩
  obtain ⟨-, created⟩ := (represents_boot zeroMachine_blank formatted).answers regular taken
  obtain ⟨system₂, regular₂, taken₂, opened⟩ := created.openFile valid rfl
    (ByteFiles.State.not_busy fun _ member => absurd member List.not_mem_nil)
  obtain ⟨system₃, regular₃, taken₃, written⟩ :=
    @SystemRepresents.write nameA _ (.created 200) _ 0 0 (fun _ => 7) 250 opened ⟨rfl, rfl⟩ (by decide) (by decide)
  obtain ⟨system₄, regular₄, taken₄, sought⟩ :=
    @SystemRepresents.seek nameA _ writtenFile _ 0 250 100 written ⟨rfl, rfl⟩ (by decide)
  obtain ⟨buffer, system₅, regular₅, taken₅, bytes, read⟩ :=
    @SystemRepresents.read nameA _ writtenFile _ 0 100 (fun _ => 0) 200 sought ⟨rfl, rfl⟩ (by decide) (by decide)
  obtain ⟨system₆, regular₆, taken₆, closed⟩ := @SystemRepresents.close nameA _ writtenFile _ 0 250 read ⟨rfl, rfl⟩
  obtain ⟨system, regular₇, taken₇, -⟩ := closed.remove valid rfl
    (ByteFiles.State.not_busy fun _ member => List.mem_singleton.mp member)
  have runs : System.Runs RegularCall (fileLife buffer) system :=
    ((((((System.Runs.boot zeroMachine_blank formatted).step regular taken).step regular₂ taken₂).step regular₃
      taken₃).step regular₄ taken₄).step regular₅ taken₅).step regular₆ taken₆ |>.step regular₇ taken₇
  refine ⟨buffer, system, runs, fun j less => bytes j 7 less (if_pos ⟨?_, ?_⟩), runs_refine_byte_files runs⟩ <;> omega

end Nachos
