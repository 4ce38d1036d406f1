import Nachos.Filesys.Reboot
import Nachos.Machine.DiskFile

/-! Files on the host's disk file. Between two runs of Nachos nothing is left but
the bytes of the file `DISK`; the next run constructs its `Disk` on it and mounts.
`onSectors` turns such a life into one over an array of sectors, whose files are
known (`represents_of_lives`). -/
namespace Nachos
open Effects DiskTiming

variable {events : List LifeEvent} {allowed : System → Call → Reply → Prop} {state : ByteFiles.State}

/-- What a run of Nachos starts with: a `Disk` on the host's file of that name,
no valid cache line, and open counters that are zero. -/
structure StartsOn (existing : Option HostFile) (machine : HostedMachine) : Prop where
  opened : HostDisk.new existing = .ok machine.device
  cache : ∀ i, (machine.cache i).valid = false
  counters : ∀ s, machine.visNum s = 0

/-- The kernel between two calls, on the host's file. -/
structure HostedSystem where
  session : Session
  machine : HostedMachine

namespace HostedSystem

def onSectors (system : HostedSystem) : System where
  session := system.session
  machine := system.machine.onSectors

/-- The file that `system` would leave if it ended here. -/
def fileno (system : HostedSystem) : HostFile := system.machine.device.fileno

/-- One completed call. -/
def Step (system : HostedSystem) (call : Call) (reply : Reply) (after : HostedSystem) : Prop :=
  (call.perform system.session).run HostedMachine.handle system.machine =
    .done (reply, after.session) after.machine

def started (fs : FileSystem) (machine : HostedMachine) : HostedSystem where
  session := { fs := fs, handles := [] }
  machine := machine

/-- A first run makes the file and formats it; then calls and reboots follow. -/
inductive Lives (allowed : System → Call → Reply → Prop) : List LifeEvent → HostedSystem → Prop where
  | format {machine after : HostedMachine} {fs : FileSystem} (starts : StartsOn none machine)
      (formatted : FileSystem.format.run HostedMachine.handle machine = .done fs after) :
      Lives allowed [] (started fs after)
  | call {events : List LifeEvent} {system after : HostedSystem} {call : Call} {reply : Reply}
      (before : Lives allowed events system) (permitted : allowed system.onSectors call reply)
      (taken : system.Step call reply after) : Lives allowed (events ++ [.call call reply]) after
  | reboot {events : List LifeEvent} {system : HostedSystem} {machine after : HostedMachine}
      {fs : FileSystem} (before : Lives allowed events system)
      (starts : StartsOn (some system.fileno) machine)
      (mounted : FileSystem.mount.run HostedMachine.handle machine = .done fs after) :
      Lives allowed (events ++ [.reboot]) (started fs after)

end HostedSystem

variable {system : HostedSystem} {machine after : HostedMachine}

/-- A program that returns on the host's file returns the same over its sectors. -/
theorem run_onSectors {A : Type} {program : Kernel A} {value : A} (idle : machine.Idle)
    (ended : program.run HostedMachine.handle machine = .done value after) :
    program.run SynchDisk.handle machine.onSectors = .done value after.onSectors ∧ after.Idle := by
  have same := Program.run_simulates hosted_simulates_machine program ⟨idle, rfl⟩
  rw [ended] at same
  cases expected : program.run SynchDisk.handle machine.onSectors with
  | done value' after' =>
    rw [expected] at same
    obtain ⟨rfl, still, rfl⟩ := same
    exact ⟨rfl, still⟩
  | stopped reason after' =>
    rw [expected] at same
    exact same.elim

/-- What returns over the sectors returns on the file that holds them. -/
theorem run_onFile {A : Type} {program : Kernel A} {value : A} {after : SynchDisk} (idle : machine.Idle)
    (ended : program.run SynchDisk.handle machine.onSectors = .done value after) :
    ∃ hosted, program.run HostedMachine.handle machine = .done value hosted ∧
      hosted.onSectors = after := by
  have same := Program.run_simulates hosted_simulates_machine program ⟨idle, rfl⟩
  rw [ended] at same
  cases answer : program.run HostedMachine.handle machine with
  | done value' hosted =>
    rw [answer] at same
    obtain ⟨rfl, -, rfl⟩ := same
    exact ⟨hosted, rfl, rfl⟩
  | stopped reason hosted =>
    rw [answer] at same
    exact same.elim

namespace StartsOn

theorem blank {existing : Option HostFile} (starts : StartsOn existing machine) :
    System.Blank machine.onSectors := ⟨starts.cache, starts.counters⟩

/-- The first run finds a disk. -/
theorem idle_new (starts : StartsOn none machine) : machine.Idle := by
  have made := starts.opened
  refine ⟨⟨fun _ => .of fun _ => 0, ?_⟩, by rw [new_idle made]; rfl⟩
  rw [← (Except.ok.inj made : _ = machine.device)]
  exact holds_created

/-- Every later run finds the sectors that the one before left. -/
theorem idle_again {file : HostFile} {sectors : Int → Sector} (starts : StartsOn (some file) machine)
    (holds : DiskTiming.Holds file sectors) : machine.Idle ∧ machine.device.fileno = file := by
  have made := starts.opened
  rw [holds.new] at made
  have same : (⟨file, .new⟩ : HostDisk) = machine.device := Except.ok.inj made
  refine ⟨⟨⟨sectors, ?_⟩, ?_⟩, ?_⟩
  · rw [← same]
    exact holds
  · rw [← same]
    rfl
  · rw [← same]

theorem reboots {sectors : Int → Sector} (starts : StartsOn (some system.fileno) machine)
    (holds : DiskTiming.Holds system.fileno sectors) : system.onSectors.Reboots machine.onSectors :=
  ⟨starts.blank, congrArg HostedMachine.sectorsOf (starts.idle_again holds).2⟩

end StartsOn

/-- A life on the host's file is one over an array of sectors. -/
theorem HostedSystem.Lives.onSectors (lives : HostedSystem.Lives allowed events system) :
    System.Lives allowed events system.onSectors ∧ system.machine.Idle := by
  induction lives with
  | format starts formatted =>
    obtain ⟨formatted', idle⟩ := run_onSectors starts.idle_new formatted
    exact ⟨.format starts.blank formatted', idle⟩
  | call _ permitted taken ih =>
    obtain ⟨before, idle⟩ := ih
    obtain ⟨taken', idle'⟩ := run_onSectors idle taken
    exact ⟨.call before permitted taken', idle'⟩
  | reboot _ starts mounted ih =>
    obtain ⟨before, ⟨sectors, holds⟩, -⟩ := ih
    obtain ⟨mounted', idle⟩ := run_onSectors (starts.idle_again holds).1 mounted
    exact ⟨.reboot before (starts.reboots holds) mounted', idle⟩

/-- In every life of regular calls and reboots the files are those of a map from
names to byte strings, and the bytes of `DISK` are all it takes to get them back:
whenever a run ends between two calls, the next one can construct its `Disk` on
the file it finds and mount it, and has the same files again. -/
theorem files_survive_on_host_file (lives : HostedSystem.Lives RegularCall events system) :
    ∃ state, ByteFiles.Lives events state ∧ SystemRepresents state system.onSectors ∧
      (∃ device, HostDisk.new (some system.fileno) = .ok device) ∧
      ∀ machine, StartsOn (some system.fileno) machine → ∃ fs after,
        FileSystem.mount.run HostedMachine.handle machine = .done fs after ∧
          SystemRepresents state.reboot (HostedSystem.started fs after).onSectors := by
  obtain ⟨lives', ⟨sectors, holds⟩, -⟩ := lives.onSectors
  obtain ⟨state, before, rep⟩ := represents_of_lives lives'
  refine ⟨state, before, rep, ⟨_, holds.new⟩, fun machine starts => ?_⟩
  obtain ⟨fs, after, mounted, represents⟩ := rep.reboot (starts.reboots holds)
  obtain ⟨hosted, mounted', rfl⟩ := run_onFile (starts.idle_again holds).1 mounted
  exact ⟨fs, hosted, mounted', represents⟩

/-- A machine on the file that a first run makes. -/
def freshMachine : HostedMachine where
  device := { fileno := HostDisk.created, drive := .new }
  cache := zeroMachine.cache
  visNum := zeroMachine.visNum
  supply := zeroMachine.supply
  ticks := zeroMachine.ticks

theorem freshMachine_starts : StartsOn none freshMachine := ⟨rfl, fun _ => rfl, fun _ => rfl⟩

theorem freshMachine_onSectors : freshMachine.onSectors = zeroMachine := by
  have zeros : HostedMachine.sectorsOf HostDisk.created = fun _ _ => 0 := by
    funext s
    unfold HostedMachine.sectorsOf
    split
    · rename_i valid
      exact holds_created.sector s valid
    · rfl
  unfold HostedMachine.onSectors freshMachine
  rw [zeros]
  rfl

/-- A file created in the first run is there in the second. -/
theorem created_file_survives_on_host_file : ∃ system,
    HostedSystem.Lives RegularCall [.call (.create nameA 200) (.flag true), .reboot] system ∧
      ∃ state, ByteFiles.Lives [.call (.create nameA 200) (.flag true), .reboot] state ∧
        SystemRepresents state system.onSectors := by
  obtain ⟨fs, booted, after, formatted, -, taken⟩ := zeroMachine_creates
  rw [← freshMachine_onSectors] at formatted
  obtain ⟨hosted, formatted', rfl⟩ := run_onFile freshMachine_starts.idle_new formatted
  have first : HostedSystem.Lives RegularCall [] (.started fs hosted) :=
    .format freshMachine_starts formatted'
  obtain ⟨hosted', taken', -⟩ := run_onFile first.onSectors.2 taken
  have regular : RegularCall (HostedSystem.started fs hosted).onSectors (.create nameA 200) (.flag true) :=
    ⟨⟨by decide, by simp [nameA], by decide, by decide, by decide⟩, by decide, fun _ => by decide⟩
  have created : HostedSystem.Lives RegularCall [.call (.create nameA 200) (.flag true)]
      { session := after.session, machine := hosted' } := .call first regular taken'
  obtain ⟨_, -, -, ⟨device, opened⟩, mounts⟩ := files_survive_on_host_file created
  obtain ⟨fs', again, mounted, -⟩ := mounts { freshMachine with device := device }
    ⟨opened, fun _ => rfl, fun _ => rfl⟩
  have lives : HostedSystem.Lives RegularCall [.call (.create nameA 200) (.flag true), .reboot]
      (.started fs' again) := .reboot created ⟨opened, fun _ => rfl, fun _ => rfl⟩ mounted
  obtain ⟨state, before, rep, -⟩ := files_survive_on_host_file lives
  exact ⟨_, lives, state, before, rep⟩

end Nachos
