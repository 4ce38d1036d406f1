import Nachos.Filesys.FreeMapExact
import Nachos.Filesys.Refinement

/-! Rebooting. What a run of Nachos leaves is the disk; handles, open counters
and cached sectors are gone when the next run starts. That run constructs its
`FileSystem` with `FALSE`, which only opens the two files of the kernel. A life
of the disk is a format followed by calls and reboots in any order. -/
namespace Nachos
open Effects FileHeader OpenFile

variable {layout : Layout} {disk : Disk} {vis : Counters} {fault : Fault → Prop}
  {session : Session} {fs : FileSystem} {state : ByteFiles.State} {machine : SynchDisk}
  {system : System}

/-- What happens to a disk between two states. -/
inductive LifeEvent where
  | call (call : Call) (reply : Reply)
  | reboot

namespace System

/-- The kernel is started once more on the disk that `system` left. -/
structure Reboots (system : System) (machine : SynchDisk) : Prop where
  blank : Blank machine
  disk : machine.disk = system.disk

/-- Every disk can be started on. -/
theorem reboots_zero (system : System) : system.Reboots { zeroMachine with disk := system.disk } :=
  ⟨⟨fun _ => rfl, fun _ => rfl⟩, rfl⟩

/-- A kernel that has just constructed its file system: no handle is open. -/
def started (fs : FileSystem) (machine : SynchDisk) : System where
  session := { fs := fs, handles := [] }
  machine := machine

/-- `Lives allowed events system`: formatting a blank machine and then the calls
and reboots of `events`, each call allowed where it was made, lead to `system`. -/
inductive Lives (allowed : System → Call → Reply → Prop) : List LifeEvent → System → Prop where
  | format {machine after : SynchDisk} {fs : FileSystem} (blank : Blank machine)
      (formatted : FileSystem.format.run SynchDisk.handle machine = .done fs after) :
      Lives allowed [] (started fs after)
  | call {events : List LifeEvent} {system after : System} {call : Call} {reply : Reply}
      (before : Lives allowed events system) (permitted : allowed system call reply)
      (taken : system.Step call reply after) : Lives allowed (events ++ [.call call reply]) after
  | reboot {events : List LifeEvent} {system : System} {machine after : SynchDisk} {fs : FileSystem}
      (before : Lives allowed events system) (reboots : system.Reboots machine)
      (mounted : FileSystem.mount.run SynchDisk.handle machine = .done fs after) :
      Lives allowed (events ++ [.reboot]) (started fs after)

end System

namespace ByteFiles

/-- A reboot keeps the files and forgets the handles. -/
def State.reboot (state : State) : State := { state with handles := [] }

/-- Like `Runs`, with reboots. -/
inductive Lives : List LifeEvent → State → Prop where
  | start : Lives [] empty
  | call {events : List LifeEvent} {state : State} {call : Call} {reply : Reply}
      (before : Lives events state) (allowed : Allows state call reply) :
      Lives (events ++ [.call call reply]) (next state call reply)
  | reboot {events : List LifeEvent} {state : State} (before : Lives events state) :
      Lives (events ++ [.reboot]) state.reboot

end ByteFiles

/-! ## Mounting -/

/-- Mounting only counts the two handles it opens. -/
theorem ensures_mount {post : FileSystem → Disk → Counters → Prop} (sheltered : Sheltered layout disk)
    (holds : ∀ fs, Mounted fs disk → post fs disk (mountedCounters vis)) :
    Ensures FileSystem.mount post fault disk vis := by
  unfold FileSystem.mount
  apply ensures_bind
  refine ensures_new_head sheltered (.inl rfl) fun mapFile _ map _ => ?_
  apply ensures_bind
  refine ensures_new_head sheltered (.inr (.inl sheltered.root)) fun rootFile _ root _ => ?_
  apply ensures_pure
  have counters : Function.update vis FreeMapSector (vis FreeMapSector + 1) DirectorySector = vis 1 :=
    Function.update_of_ne (by decide) _ _
  rw [counters]
  exact holds { freeMapFile := mapFile, directoryFile := rootFile } ⟨map, root⟩

/-- The session that follows a mount on a consistent disk is sound, whatever the
sessions before it left open. -/
theorem Consistent.sound_mount (consistent : Consistent layout disk) (mounted : Mounted fs disk)
    (counters : ∀ s, vis s = kernelHandles s) :
    Sound layout { fs := fs, handles := [] } disk vis where
  consistent := consistent
  mounted := mounted
  heads := fun i file opened => by simp [Session.file] at opened
  counted := fun s => by
    rw [counters s]
    unfold Session.openOn
    rw [List.countP_nil, Nat.add_zero]

/-- A reboot forgets the handles of the abstract state, and nothing else. -/
theorem Represents.reboot {vis' : Counters} (rep : Represents layout state session disk vis)
    (mounted : Mounted fs disk) (counters : ∀ s, vis' s = kernelHandles s) :
    Represents layout state.reboot { fs := fs, handles := [] } disk vis' where
  consistent := rep.consistent
  flat := rep.flat
  mounted := mounted
  named := rep.named
  present := rep.present
  absent := rep.absent
  slots := rfl
  opened := fun i file opened => by simp [Session.file] at opened
  handles := fun i name pos there => by
    simp [ByteFiles.State.handle, ByteFiles.State.reboot] at there
  alone := fun i j name pos pos' there => by
    simp [ByteFiles.State.handle, ByteFiles.State.reboot] at there
  counters := fun s notMap notRoot => by
    rw [counters s]
    unfold kernelHandles Session.openOn
    rw [if_neg (fun either => either.elim notMap notRoot), List.countP_nil]
  busy := by
    rw [counters 1]
    decide

/-- Mounting a consistent disk on a blank machine succeeds. -/
theorem System.Reboots.mounts (reboots : system.Reboots machine)
    (consistent : Consistent layout system.disk) :
    ∃ fs after, FileSystem.mount.run SynchDisk.handle machine = .done fs after ∧
      (after.disk = system.disk ∧ Mounted fs system.disk ∧ ∀ s, after.visNum s = kernelHandles s) ∧
      after.cache.Coherent after.disk := by
  have mounts : Ensures FileSystem.mount (fun fs disk' vis' => disk' = system.disk ∧
      Mounted fs system.disk ∧ ∀ s, vis' s = kernelHandles s) (fun _ => False)
      machine.disk machine.visNum := by
    rw [reboots.disk]
    exact ensures_mount consistent.sheltered fun fs mounted =>
      ⟨rfl, mounted, mountedCounters_blank reboots.blank⟩
  exact ensures_returns (blank_coherent reboots.blank) mounts

/-! ## Lives -/

/-- The state after a reboot is sound, and counts only the kernel's handles. -/
theorem SoundSystem.reboot (sound : SoundSystem system) (reboots : system.Reboots machine) :
    ∃ fs after, FileSystem.mount.run SynchDisk.handle machine = .done fs after ∧
      after.disk = system.disk ∧ (∀ s, after.visNum s = kernelHandles s) ∧
      SoundSystem (.started fs after) := by
  obtain ⟨layout, here⟩ := sound.sound
  obtain ⟨fs, after, mounted, ⟨same, current, counters⟩, coherent⟩ := reboots.mounts here.consistent
  refine ⟨fs, after, mounted, same, counters, ⟨layout, ?_⟩, coherent⟩
  change Sound layout { fs := fs, handles := [] } after.disk after.visNum
  rw [same]
  exact here.consistent.sound_mount current counters

theorem sound_of_lives {events : List LifeEvent} (lives : System.Lives SafeCall events system) :
    SoundSystem system := by
  induction lives with
  | format blank formatted => exact sound_boot blank formatted
  | call _ safe taken ih => exact sound_step ih safe taken
  | reboot _ reboots mounted ih =>
    obtain ⟨fs, after, mounted', -, -, sound⟩ := ih.reboot reboots
    rw [mounted'] at mounted
    cases mounted
    exact sound

/-- In every life of safe calls the free map is exact and no open handle is
missing from the counters. The next reboot succeeds, changes no sector, and
leaves counted just the handles of the kernel: whatever `Open` lost is found. -/
theorem free_map_exact_in_lives {events : List LifeEvent} (lives : System.Lives SafeCall events system) :
    Exact system.disk ∧
      (∀ s, ((kernelHandles s + system.session.openOn s : Nat) : Int) ≤ system.counters s) ∧
      ∀ machine, system.Reboots machine → ∃ fs after,
        FileSystem.mount.run SynchDisk.handle machine = .done fs after ∧
          after.disk = system.disk ∧ ∀ s, after.visNum s = kernelHandles s := by
  have sound := sound_of_lives lives
  obtain ⟨layout, here⟩ := sound.sound
  refine ⟨here.consistent.exact, here.counted, fun machine reboots => ?_⟩
  obtain ⟨fs, after, mounted, same, counters, -⟩ := sound.reboot reboots
  exact ⟨fs, after, mounted, same, counters⟩

/-- The new disk with a file on it, after a reboot. -/
theorem free_map_exact_after_reboot : ∃ system,
    System.Lives SafeCall [.call (.create nameA 200) (.flag true), .reboot] system ∧ Exact system.disk := by
  obtain ⟨fs, booted, system, formatted, shape, taken⟩ := zeroMachine_creates
  have permitted : SafeCall (.started fs booted) (.create nameA 200) (.flag true) := by
    refine ⟨shape.sheltered.safe_of_plain (by decide), ?_⟩
    rw [if_neg (by decide)]
    exact ⟨by decide, by decide, by decide, fun large => absurd large (by decide)⟩
  have created : System.Lives SafeCall [.call (.create nameA 200) (.flag true)] system :=
    .call (.format zeroMachine_blank formatted) permitted taken
  obtain ⟨fs', after, mounted, -, -⟩ := (sound_of_lives created).reboot system.reboots_zero
  have lives : System.Lives SafeCall [.call (.create nameA 200) (.flag true), .reboot] (.started fs' after) :=
    .reboot created system.reboots_zero mounted
  exact ⟨_, lives, (free_map_exact_in_lives lives).1⟩

/-- A reboot leads to a system that stands for the same files. -/
theorem SystemRepresents.reboot (rep : SystemRepresents state system)
    (reboots : system.Reboots machine) :
    ∃ fs after, FileSystem.mount.run SynchDisk.handle machine = .done fs after ∧
      SystemRepresents state.reboot (.started fs after) := by
  obtain ⟨layout, here⟩ := rep.states
  obtain ⟨fs, after, mounted, ⟨same, current, counters⟩, coherent⟩ := reboots.mounts here.consistent
  refine ⟨fs, after, mounted, ⟨layout, ?_⟩, coherent⟩
  change Represents layout state.reboot { fs := fs, handles := [] } after.disk after.visNum
  rw [same]
  exact here.reboot current counters

theorem represents_of_lives {events : List LifeEvent} (lives : System.Lives RegularCall events system) :
    ∃ state, ByteFiles.Lives events state ∧ SystemRepresents state system := by
  induction lives with
  | format blank formatted => exact ⟨_, .start, represents_boot blank formatted⟩
  | @call events system after call reply _ regular taken ih =>
    obtain ⟨state, before, ⟨layout, rep⟩, coherent⟩ := ih
    have answers := answers_call rep call
    unfold Answers at answers
    obtain ⟨holds, coherent'⟩ := ensures_done coherent taken answers
    obtain ⟨allowed, states⟩ := holds regular
    exact ⟨_, .call before allowed, states, coherent'⟩
  | reboot _ reboots mounted ih =>
    obtain ⟨state, before, rep⟩ := ih
    obtain ⟨fs, after, mounted', represents⟩ := rep.reboot reboots
    rw [mounted'] at mounted
    cases mounted
    exact ⟨_, .reboot before, represents⟩

/-- Every life of regular calls is one of a map from names to byte strings that
survives reboots, and the next reboot cannot fail. -/
theorem lives_refine_byte_files {events : List LifeEvent}
    (lives : System.Lives RegularCall events system) :
    ∃ state, ByteFiles.Lives events state ∧ SystemRepresents state system ∧
      ∀ machine, system.Reboots machine → ∃ fs after,
        FileSystem.mount.run SynchDisk.handle machine = .done fs after ∧
          SystemRepresents state.reboot (.started fs after) := by
  obtain ⟨state, before, rep⟩ := represents_of_lives lives
  exact ⟨state, before, rep, fun machine reboots => rep.reboot reboots⟩

/-- A file that was created is still there after a reboot. -/
theorem created_file_survives_reboot : ∃ system,
    System.Lives RegularCall [.call (.create nameA 200) (.flag true), .reboot] system ∧
      ∃ state, ByteFiles.Lives [.call (.create nameA 200) (.flag true), .reboot] state ∧
        SystemRepresents state system := by
  obtain ⟨fs, booted, system, formatted, -, taken⟩ := zeroMachine_creates
  have regular : RegularCall (.started fs booted) (.create nameA 200) (.flag true) :=
    ⟨⟨by decide, by simp [nameA], by decide, by decide, by decide⟩, by decide, fun _ => by decide⟩
  have created : System.Lives RegularCall [.call (.create nameA 200) (.flag true)] system :=
    .call (.format zeroMachine_blank formatted) regular taken
  obtain ⟨_, -, -, boots⟩ := lives_refine_byte_files created
  obtain ⟨fs', after, mounted, -⟩ := boots _ system.reboots_zero
  have lives : System.Lives RegularCall [.call (.create nameA 200) (.flag true), .reboot] (.started fs' after) :=
    .reboot created system.reboots_zero mounted
  obtain ⟨state, before, rep, -⟩ := lives_refine_byte_files lives
  exact ⟨_, lives, state, before, rep⟩

end Nachos
