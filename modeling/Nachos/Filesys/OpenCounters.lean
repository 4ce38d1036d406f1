import Nachos.Filesys.Refinement

/-! The open counters `vis_num` over runs of the file system. `Create` and `Remove`
close every handle they open. `Open` never closes the one on the directory it looks
the name up in, so that the counter of that directory stays one too high. -/
namespace Nachos
open Effects FileHeader OpenFile

variable {layout : Layout} {disk : Disk} {vis : Counters} {session : Session} {name : Name}

/-- The calls that make, remove, open and close. -/
def Call.naming : Call → Bool
  | .read .. | .write .. | .seek .. => false
  | _ => true

/-- The name `Open` is called with in this call: `Writepipe` gets there once it has
created its file. -/
def Call.opens : Call → Reply → Option Name
  | .openFile name, _ => some name
  | .readpipe _ name, _ => some name
  | .writepipe _ _ name, .count n => if n = -1 then none else some name
  | _, _ => none

/-- The directory part of a path, as the root names it. -/
def directoryOf (disk : Disk) (name : Name) : Int :=
  (tableAt disk 1).lookup (FileSystem.splitPath name).1

/-- How many handles on `s` the call leaves behind. -/
def lost (disk : Disk) (call : Call) (reply : Reply) (s : Int) : Nat :=
  match call.opens reply with
  | some name => if directoryOf disk name = s then 1 else 0
  | none => 0

/-- A run of such calls from `start`, with the handles left behind so far. -/
inductive Tallied (start : System) : List (Call × Reply) → System → (Int → Nat) → Prop where
  | start : Tallied start [] start fun _ => 0
  | step {trace : List (Call × Reply)} {system after : System} {tally : Int → Nat} {call : Call}
      {reply : Reply} (before : Tallied start trace system tally) (kind : call.naming = true)
      (safe : SafeCall system call reply) (taken : system.Step call reply after) :
      Tallied start (trace ++ [(call, reply)]) after fun s => tally s + lost system.disk call reply s

/-- The file system has just been mounted: only the handles of the kernel are counted. -/
structure Mounting (start : System) : Prop where
  sound : SoundSystem start
  none : start.session.handles = []
  counters : ∀ s, start.counters s = kernelHandles s

/-- The counters change as the handles do, and by what is left behind. -/
def Accounts (session : Session) (disk : Disk) (vis : Counters) (call : Call) : Prop :=
  Ensures (call.perform session) (fun result _ vis' => ∀ s,
    vis' s + session.openOn s = vis s + result.2.openOn s + lost disk call result.1 s)
    (· = .assertion) disk vis

/-- One handle more on `p`. -/
theorem counters_update (vis : Counters) (p s : Int) :
    Function.update vis p (vis p + 1) s = vis s + if p = s then 1 else 0 := by
  by_cases same : p = s
  · subst same
    rw [Function.update_self, if_pos rfl]
  · rw [Function.update_of_ne (Ne.symm same), if_neg same, Int.add_zero]

section Calls

theorem accounts_create {size : Int} (sound : Sound layout session disk vis)
    (safe : Safe session disk vis (.create name size)) : Accounts session disk vis (.create name size) := by
  obtain ⟨path, kind⟩ := safe
  unfold Accounts Call.perform
  apply ensures_bind
  have same : ∀ (success : Bool) (fs' : FileSystem) (disk' : Disk),
      Ensures (pure (Reply.flag success, { session with fs := fs' })) (fun result _ vis' => ∀ s,
        vis' s + session.openOn s =
          vis s + result.2.openOn s + lost disk (.create name size) result.1 s)
        (· = .assertion) disk' vis := by
    intro success fs' disk'
    refine ensures_pure fun s => ?_
    show _ = vis s + session.openOn s + ((0 : Nat) : Int)
    omega
  split at kind
  · rename_i directory
    subst directory
    exact ensures_Create_directory sound.sheltered sound.mounted path kind (fun _ => rfl)
      (fun fs' disk' _ _ _ => same false fs' disk') fun fs' disk' _ _ _ _ _ _ _ => same true fs' disk'
  · obtain ⟨positive, short, fits, spare⟩ := kind
    obtain ⟨n, rfl⟩ := Int.eq_ofNat_of_zero_le positive
    exact ensures_Create_file sound.sheltered sound.sheltered.reach sound.mounted path short fits spare
      (fun _ _ => rfl) (fun fs' disk' _ _ _ => same false fs' disk')
      fun fs' disk' _ _ _ _ _ _ _ _ => same true fs' disk'

theorem accounts_openFile (sound : Sound layout session disk vis)
    (safe : Safe session disk vis (.openFile name)) : Accounts session disk vis (.openFile name) := by
  unfold Accounts Call.perform
  apply ensures_bind
  refine ensures_Open sound.sheltered sound.sheltered.reach sound.mounted safe (fun _ => rfl) ?_ ?_
  · intro fs' disk' p lookup _ _ _ _
    refine ensures_pure fun s => ?_
    rw [counters_update, lookup]
    show _ = vis s + session.openOn s + ((if directoryOf disk name = s then 1 else 0 : Nat) : Int)
    unfold directoryOf
    split <;> omega
  · intro fs' file disk' p i t lookup _ _ _ quiet _ known current _
    have number := (quiet.sheltered sound.sheltered).number known current
    refine ensures_pure fun s => ?_
    rw [counters_update (Function.update vis p (vis p + 1)) t s, counters_update vis p s, lookup]
    have more : Session.openOn { fs := fs', handles := session.handles ++ [some file] } s =
        session.openOn s + if t = s then 1 else 0 := by
      rw [Session.openOn_opened, number]
    rw [more]
    show _ = _ + _ + ((if directoryOf disk name = s then 1 else 0 : Nat) : Int)
    unfold directoryOf
    split <;> split <;> omega

theorem accounts_close {handle : Nat} (sound : Sound layout session disk vis)
    (safe : Safe session disk vis (.close handle)) : Accounts session disk vis (.close handle) := by
  obtain ⟨file, opened⟩ := safe
  unfold Accounts Call.perform Session.through
  dsimp only
  rw [opened]
  apply ensures_bind
  refine ensures_delete (sound.sheltered.valid_head (sound.heads handle file opened)) ?_
  refine ensures_pure fun s => ?_
  have count := Session.openOn_closed opened s
  show _ = vis s + (session.setFile handle none).openOn s + ((0 : Nat) : Int)
  by_cases same : s = file.hdr.sectorNumber
  · subst same
    rw [Function.update_self]
    rw [if_pos rfl] at count
    omega
  · rw [Function.update_of_ne same]
    rw [if_neg (Ne.symm same)] at count
    omega

theorem accounts_remove (sound : Sound layout session disk vis)
    (safe : Safe session disk vis (.remove name)) : Accounts session disk vis (.remove name) := by
  obtain ⟨plain, removable⟩ := safe
  unfold Accounts Call.perform
  apply ensures_bind
  have same : ∀ s, vis s + session.openOn s = vis s + session.openOn s + ((0 : Nat) : Int) := by
    intro s
    omega
  exact ensures_Remove sound.sheltered sound.sheltered.whole sound.mounted plain sound.root_busy removable
    (fun _ _ _ _ _ => ensures_pure same) fun _ _ _ _ _ _ _ _ _ _ => ensures_pure same

theorem accounts_writepipe {data : Memory} {size : Int} (sound : Sound layout session disk vis)
    (safe : Safe session disk vis (.writepipe data size name)) :
    Accounts session disk vis (.writepipe data size name) := by
  unfold Accounts Call.perform
  apply ensures_bind
  obtain ⟨path, short, small, enough⟩ := safe
  refine ensures_Writepipe sound.sheltered sound.sheltered.reach sound.mounted path short small
    enough (fun _ => rfl) ?_ ?_
  · intro fs' disk' _ _ _
    refine ensures_pure fun s => ?_
    show _ = vis s + session.openOn s + ((0 : Nat) : Int)
    omega
  · intro fs' disk' p hs i lookup _ _ _
    refine ensures_pure fun s => ?_
    have nonneg : ¬ ((size.toNat : Nat) : Int) = -1 := by omega
    have opens : Call.opens (.writepipe data size name) (.count size.toNat) = some name := by
      simp only [Call.opens]
      rw [if_neg nonneg]
    rw [counters_update, lookup, lost, opens]
    show _ = vis s + session.openOn s + ((if directoryOf disk name = s then 1 else 0 : Nat) : Int)
    unfold directoryOf
    split <;> omega

theorem accounts_readpipe {buffer : Memory} (sound : Sound layout session disk vis)
    (safe : Safe session disk vis (.readpipe buffer name)) :
    Accounts session disk vis (.readpipe buffer name) := by
  have root : directoryOf disk name = 1 := by
    unfold directoryOf
    rw [splitPath_of_plain safe.1, sound.sheltered.lookup_dot.2]
  have left : ∀ s, Function.update vis 1 (vis 1 + 1) s + session.openOn s =
      vis s + session.openOn s + ((if directoryOf disk name = s then 1 else 0 : Nat) : Int) := by
    intro s
    rw [counters_update, root]
    split <;> omega
  unfold Accounts Call.perform
  apply ensures_bind
  exact ensures_Readpipe sound.sheltered sound.sheltered.whole sound.sheltered.near sound.mounted
    safe.1 sound.root_counted safe.2 (fun _ _ _ => rfl)
    (fun _ _ _ _ _ => ensures_pure left) (fun _ _ _ _ _ _ _ _ _ => ensures_pure left)
    fun _ _ _ _ _ _ _ _ _ _ _ _ _ _ => ensures_pure left

end Calls

theorem accounts_call (sound : Sound layout session disk vis) {call : Call} (kind : call.naming = true)
    (safe : Safe session disk vis call) : Accounts session disk vis call := by
  cases call with
  | create => exact accounts_create sound safe
  | openFile => exact accounts_openFile sound safe
  | close => exact accounts_close sound safe
  | remove => exact accounts_remove sound safe
  | writepipe => exact accounts_writepipe sound safe
  | readpipe => exact accounts_readpipe sound safe
  | read | write | seek => cases kind

/-! ## Runs -/

/-- In every state of a run each counter is the number of handles the kernel and the
caller have on the sector, and of those left behind. -/
theorem Tallied.counted {start system : System} {trace : List (Call × Reply)} {tally : Int → Nat}
    (run : Tallied start trace system tally) (mounting : Mounting start) :
    SoundSystem system ∧ ∀ s, system.counters s = kernelHandles s + system.session.openOn s + tally s := by
  induction run with
  | start =>
    refine ⟨mounting.sound, fun s => ?_⟩
    have none : start.session.openOn s = 0 := by
      unfold Session.openOn
      rw [mounting.none, List.countP_nil]
    rw [mounting.counters s, none]
    simp
  | step before kind safe taken ih =>
    rename_i trace system after tally call reply
    obtain ⟨sound, counters⟩ := ih
    obtain ⟨layout, here⟩ := sound.sound
    have accounts := accounts_call here kind safe
    unfold Accounts at accounts
    obtain ⟨change, -⟩ := ensures_done sound.coherent taken accounts
    refine ⟨sound_step sound safe taken, fun s => ?_⟩
    have changed : after.counters s + system.session.openOn s =
        system.counters s + after.session.openOn s + lost system.disk call reply s := change s
    have old := counters s
    push_cast
    omega

/-- `Remove` is refused exactly if the counter of the entry's sector is not zero. -/
theorem remove_refused {i : Nat} (sound : Sound layout session disk vis)
    (safe : Safe session disk vis (.remove name)) (entry : (tableAt disk 1).entryIndex name = some i) :
    Ensures (Call.perform session (.remove name)) (fun result _ _ =>
      result.1 = .flag false ↔ vis ((tableAt disk 1).sector i) ≠ 0) (· = .assertion) disk vis := by
  obtain ⟨plain, removable⟩ := safe
  unfold Call.perform
  apply ensures_bind
  refine ensures_Remove sound.sheltered sound.sheltered.whole sound.mounted plain sound.root_busy removable ?_ ?_
  · intro fs' disk' _ _ reason
    refine ensures_pure (iff_of_true rfl ?_)
    rcases reason with missing | ⟨j, found, busy⟩
    · rw [entry] at missing
      cases missing
    · obtain rfl := Option.some.inj (entry.symm.trans found)
      exact busy
  · intro fs' disk' e j isDir found sector free _ _
    obtain rfl := Option.some.inj (entry.symm.trans found)
    refine ensures_pure (iff_of_false (by simp) ?_)
    rw [sector]
    exact fun busy => busy free

/-- Every counter is its value after mounting, the open handles, and the handles that
calls of `Open` left behind on the directory; it is right as long as there are none of
the last. `Remove` of an entry other than the root's is refused exactly while there is
one of either. No call uses an index outside `vis_num`: only an `ASSERT` stops one, or
the overflow of a read's end. -/
theorem open_counters_of_runs {start system : System} {trace : List (Call × Reply)} {tally : Int → Nat}
    (mounting : Mounting start) (run : Tallied start trace system tally) :
    (∀ s, system.counters s = start.counters s + system.session.openOn s ↔ tally s = 0) ∧
      (∀ name i reply after, (tableAt system.disk 1).entryIndex name = some i →
        (tableAt system.disk 1).sector i ≠ 1 → SafeCall system (.remove name) reply →
        system.Step (.remove name) reply after →
        (reply = .flag false ↔ 0 < system.session.openOn ((tableAt system.disk 1).sector i) ∨
          0 < tally ((tableAt system.disk 1).sector i))) ∧
      ∀ call reply reason machine, SafeCall system call reply →
        (call.perform system.session).run SynchDisk.handle system.machine = .stopped reason machine →
        call.MayStop system.session reason := by
  obtain ⟨sound, counters⟩ := run.counted mounting
  obtain ⟨layout, here⟩ := sound.sound
  refine ⟨fun s => ?_, ?_, ?_⟩
  · rw [counters s, mounting.counters s]
    omega
  · intro name i reply after entry notRoot safe taken
    obtain ⟨refused, -⟩ := ensures_done sound.coherent taken (remove_refused here safe entry)
    obtain ⟨bound, used, -⟩ := Directory.entryIndex_some entry
    have notMap : (tableAt system.disk 1).sector i ≠ 0 := by
      intro zero
      by_cases low : 2 ≤ i
      · have node := (here.sheltered.child here.sheltered.root low bound used).2
        rw [zero] at node
        unfold Layout.Node at node
        split at node
        · exact here.consistent.mapAlone.1 node
        · exact here.consistent.mapAlone.2 node
      · obtain rfl | rfl : i = 0 ∨ i = 1 := by omega
        · exact notRoot here.consistent.rootSelf.1
        · exact notRoot here.consistent.rootSelf.2.1
    have none : kernelHandles ((tableAt system.disk 1).sector i) = 0 :=
      if_neg fun either => either.elim notMap notRoot
    have value := counters ((tableAt system.disk 1).sector i)
    rw [none] at value
    have nonzero : reply = .flag false ↔ system.counters ((tableAt system.disk 1).sector i) ≠ 0 := refused
    rw [nonzero, value]
    omega
  · intro call reply reason machine safe stopped
    have keeps := keeps_call here safe
    unfold Keeps at keeps
    have ends := ensures_on_machine sound.coherent keeps
    rw [stopped] at ends
    exact ends

/-- A blank machine that has been formatted is just mounted. -/
theorem mounting_format {machine after : SynchDisk} {fs : FileSystem} (blank : System.Blank machine)
    (formatted : FileSystem.format.run SynchDisk.handle machine = .done fs after) :
    Mounting { session := { fs := fs, handles := [] }, machine := after } := by
  have counts : Ensures FileSystem.format (fun _ _ vis' => ∀ s, vis' s = kernelHandles s)
      (fun _ => False) machine.disk machine.visNum :=
    ensures_format fun _ _ _ _ => mountedCounters_blank blank
  obtain ⟨counters, -⟩ := ensures_done (blank_coherent blank) formatted counts
  exact ⟨sound_boot blank formatted, rfl, counters⟩

/-- A call that leaves nothing behind. -/
theorem Tallied.keeps {start system after : System} {trace : List (Call × Reply)} {tally : Int → Nat}
    {call : Call} {reply : Reply} (before : Tallied start trace system tally) (kind : call.naming = true)
    (safe : SafeCall system call reply) (taken : system.Step call reply after)
    (nothing : ∀ s, lost system.disk call reply s = 0) : Tallied start (trace ++ [(call, reply)]) after tally := by
  have same : (fun s => tally s + lost system.disk call reply s) = tally :=
    funext fun s => by rw [nothing, Nat.add_zero]
  have step := before.step kind safe taken
  rwa [same] at step

/-- `Open` of a name leaves a handle on the root. -/
theorem Tallied.opens {start system after : System} {state : ByteFiles.State} {trace : List (Call × Reply)}
    {reply : Reply} (before : Tallied start trace system fun _ => 0) (states : SystemRepresents state system)
    (valid : FileName name) (taken : system.Step (.openFile name) reply after) :
    Tallied start (trace ++ [(.openFile name, reply)]) after fun s => if s = 1 then 1 else 0 := by
  obtain ⟨⟨layout, rep⟩, -⟩ := states
  have root : directoryOf system.disk name = 1 := by
    unfold directoryOf
    rw [splitPath_of_plain valid.plain, rep.sheltered.lookup_dot.2]
  have same : (fun s => 0 + lost system.disk (.openFile name) reply s) = fun s => if s = 1 then 1 else 0 := by
    funext s
    unfold lost Call.opens
    dsimp only
    rw [root, Nat.zero_add]
    exact if_congr eq_comm rfl rfl
  have safe : SafeCall system (.openFile name) reply := rep.sheltered.safe_of_plain valid.plain
  have step := before.step rfl safe taken
  rwa [same] at step

/-- Removing a file is safe. -/
theorem SystemRepresents.safe_remove {system : System} {state : ByteFiles.State} {reply : Reply}
    (states : SystemRepresents state system) (valid : FileName name) : SafeCall system (.remove name) reply := by
  obtain ⟨⟨layout, rep⟩, -⟩ := states
  exact ⟨valid.plain, fun i found _ => rep.removable valid found⟩

theorem SystemRepresents.safe_close {system : System} {state : ByteFiles.State} {content : ByteFiles.File}
    {reply : Reply} {handle pos : Nat} (states : SystemRepresents state system)
    (there : state.At handle name pos content) : SafeCall system (.close handle) reply := by
  obtain ⟨⟨layout, rep⟩, -⟩ := states
  obtain ⟨file, opened, -⟩ := rep.open_handle there
  exact ⟨file, opened⟩

/-- The entry of an open file, which is not the root's. -/
theorem SystemRepresents.busy_entry {system : System} {state : ByteFiles.State} {content : ByteFiles.File}
    (states : SystemRepresents state system) (valid : FileName name) (known : state.files name = some content)
    (busy : state.Busy name) : ∃ i, (tableAt system.disk 1).entryIndex name = some i ∧
      (tableAt system.disk 1).sector i ≠ 1 ∧ 0 < system.session.openOn ((tableAt system.disk 1).sector i) := by
  obtain ⟨⟨layout, rep⟩, -⟩ := states
  obtain ⟨_, ⟨i, entry, rfl⟩, -⟩ := rep.present name content known
  refine ⟨i, entry, fun root => ?_, (rep.busy_iff valid ⟨i, entry, rfl⟩).mpr busy⟩
  have regular := rep.leads_file valid ⟨i, entry, rfl⟩
  rw [root] at regular
  exact rep.sheltered.kinds 1 rep.sheltered.root regular

/-- A file that was created and opened is not removed before it is closed. Then all counters
are right but that of the root, on which `Open` has left a handle. -/
theorem open_counters_after_remove : ∃ start opened system i,
    Tallied start [(.create nameA 200, .flag true), (.openFile nameA, .handle (some 0))] opened
      (fun s => if s = 1 then 1 else 0) ∧
    (tableAt opened.disk 1).entryIndex nameA = some i ∧
    0 < opened.session.openOn ((tableAt opened.disk 1).sector i) ∧
    Tallied start [(.create nameA 200, .flag true), (.openFile nameA, .handle (some 0)),
      (.remove nameA, .flag false), (.close 0, .nothing), (.remove nameA, .flag true)] system
      (fun s => if s = 1 then 1 else 0) ∧
    ∀ s, system.counters s = start.counters s + system.session.openOn s ↔ s ≠ 1 := by
  obtain ⟨fs, booted, system₁, formatted, shape, taken⟩ := zeroMachine_creates
  have mounting := mounting_format zeroMachine_blank formatted
  have valid : FileName nameA := ⟨by decide, by simp [nameA], by decide, by decide, by decide⟩
  have safe : SafeCall ⟨⟨fs, []⟩, booted⟩ (.create nameA 200) (.flag true) := by
    refine ⟨shape.sheltered.safe_of_plain (by decide), ?_⟩
    rw [if_neg (by decide)]
    exact ⟨by decide, by decide, by decide, fun large => absurd large (by decide)⟩
  have regular : RegularCall ⟨⟨fs, []⟩, booted⟩ (.create nameA 200) (.flag true) :=
    ⟨valid, by decide, fun _ => by decide⟩
  have created : Tallied ⟨⟨fs, []⟩, booted⟩ _ system₁ fun _ => 0 := Tallied.start.keeps rfl safe taken fun _ => rfl
  obtain ⟨-, states₁⟩ := (represents_boot zeroMachine_blank formatted).answers regular taken
  obtain ⟨system₂, -, taken₂, states₂⟩ := states₁.openFile valid rfl
    (ByteFiles.State.not_busy fun _ member => absurd member List.not_mem_nil)
  have opened := created.opens states₁ valid taken₂
  obtain ⟨i, entry, child, busy⟩ := states₂.busy_entry valid rfl ⟨0, 0, rfl⟩
  obtain ⟨reply, system₃, taken₃, -, states₃⟩ :=
    states₂.step (.remove nameA) fun _ rep => rep.answered_remove valid
  obtain ⟨-, refused, -⟩ := open_counters_of_runs mounting opened
  obtain rfl := (refused nameA i reply system₃ entry child (states₂.safe_remove valid) taken₃).mpr (.inl busy)
  have kept := opened.keeps rfl (states₂.safe_remove valid) taken₃ fun _ => rfl
  obtain ⟨system₄, -, taken₄, states₄⟩ := @SystemRepresents.close nameA _ (.created 200) _ 0 0 states₃ ⟨rfl, rfl⟩
  have closed := kept.keeps rfl
    (@SystemRepresents.safe_close nameA _ _ (.created 200) _ 0 0 states₃ ⟨rfl, rfl⟩) taken₄ fun _ => rfl
  obtain ⟨system, -, taken₅, -⟩ := states₄.remove valid rfl
    (ByteFiles.State.not_busy fun _ member => List.mem_singleton.mp member)
  have gone := closed.keeps rfl (states₄.safe_remove valid) taken₅ fun _ => rfl
  refine ⟨_, system₂, system, i, opened, entry, busy, gone, fun s => ?_⟩
  rw [(open_counters_of_runs mounting gone).1 s]
  by_cases root : s = 1
  · simp [root]
  · simp [root]

/-- `Open` of a name that is not there returns no handle, and the root is counted as
opened once more. -/
theorem open_leaves_a_handle : ¬ ∀ start trace system tally, Mounting start →
    Tallied start trace system tally →
      ∀ s, system.counters s = start.counters s + system.session.openOn s := by
  intro always
  obtain ⟨fs, booted, formatted, ⟨shape, mounted⟩, coherent⟩ := zeroMachine_blank.formats
  have consistent := shape.consistent
  have plain : nameA.Plain := by decide
  have safe := consistent.sheltered.safe_of_plain plain
  have root : (tableAt booted.disk 1).lookup (FileSystem.splitPath nameA).1 = 1 := by
    rw [splitPath_of_plain plain, consistent.sheltered.lookup_dot.2]
  have opens : Ensures (Call.perform { fs := fs, handles := [] } (.openFile nameA))
      (fun result _ vis' => result.2.handles = [] ∧ vis' 1 = booted.visNum 1 + 1)
      (fun _ => False) booted.disk booted.visNum := by
    unfold Call.perform
    apply ensures_bind
    refine ensures_Open consistent.sheltered consistent.sheltered.reach mounted safe ?_ ?_ ?_
    · intro missing
      rw [splitPath_of_plain plain, consistent.sheltered.lookup_dot.1] at missing
      cases missing
    · rintro fs' disk' p rfl - - - -
      rw [root]
      exact ensures_pure ⟨rfl, Function.update_self ..⟩
    · intro fs' file disk' p i s lookup _ found
      rw [lookup, root, splitPath_of_plain plain, shape.absent (by decide) (by decide)] at found
      cases found
  obtain ⟨⟨reply, session⟩, after, taken, ⟨handles, counted⟩, -⟩ := ensures_returns coherent opens
  have run : Tallied { session := { fs := fs, handles := [] }, machine := booted }
      ([] ++ [(.openFile nameA, reply)]) { session := session, machine := after } _ :=
    .step .start rfl safe taken
  have equal := always _ _ _ _ (mounting_format zeroMachine_blank formatted) run 1
  have closed : session.openOn 1 = 0 := by
    unfold Session.openOn
    rw [handles]
    rfl
  change after.visNum 1 = booted.visNum 1 + session.openOn 1 at equal
  omega

end Nachos
