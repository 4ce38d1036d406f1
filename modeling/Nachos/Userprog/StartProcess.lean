import Nachos.Effects.Requests
import Nachos.Userprog.Installation
import Nachos.Userprog.Execution

/-! `StartProcess` (`userprog/progtest.cc`): a file is opened, loaded and closed again, and
the machine runs the program from its first instruction. What the compiler has put at an
address is what the program finds there. -/
namespace Nachos.Loading
open Effects Machine FileHeader OpenFile FileTests
open Paging (AddrSpace Paged keptMemory flatSystem MachineRun seen blankTable)
open Mips (Registers PCReg NextPCReg LoadReg Observation WellScheduled undisturbed observe OneInstruction)

def StackReg : Nat := 29

/-- `AddrSpace::InitRegisters`; the page size is 128. -/
def InitRegisters (space : AddrSpace) : Registers :=
  let zero : Registers := fun _ => 0
  Function.update (Function.update (Function.update zero PCReg 0) NextPCReg 4) StackReg (space.numPages * 128 - 16)

section Handles
variable {hdr : FileHeader} {executable openfile : OpenFile} {into : Memory} {n position number : Int} {fs : FileSystem}

/-- What the program returns, whatever it is answered. -/
def Returns {A : Type} (post : A → Prop) (program : Kernel A) : Prop :=
  program.Issues (fun _ => True) (fun _ => True) post

theorem Returns.done {A : Type} {post : A → Prop} {program : Kernel A} {machine after : SynchDisk} {value : A}
    (returns : Returns post program) (ran : program.run SynchDisk.handle machine = .done value after) : post value :=
  Program.Issues.returns returns ran

end Handles

/-! ## The run -/

/-- What the program finds when it starts: its image, and nothing behind its space. -/
def firstSight (space : AddrSpace) (image : Memory) : Observation where
  registers := (InitRegisters space).settled
  memory a := if a < space.numPages.toNat * PageSize then image a else 0

/-- However memory is filled, whichever frames are taken and whenever interrupts come,
the program runs as on a flat memory that holds `image` at first; with a frame for each
page every page is brought in at most once. -/
def RunsFlat (space : AddrSpace) (disk : Disk) (image : Memory) : Prop :=
  ∀ mainMemory bitmap ticks,
    WellScheduled 0 (firstSight space image) (undisturbed ticks.length (firstSight space image)) →
    ∃ ran, MachineRun ticks { registers := InitRegisters space, memory := loaded mainMemory bitmap space disk } = ran ∧
      ran.trace = undisturbed ran.trace.length (firstSight space image) ∧
      observe keptMemory ran.final = ran.trace.getLast?.getD (firstSight space image) ∧
      (∀ reason, ran.stopped = some reason → ∃ o,
        OneInstruction.run (Mips.handle (flatSystem (space.numPages.toNat * PageSize))) (seen ran.final) =
          .stopped reason o) ∧
      (ran.stopped = none → ran.trace.length + ran.faults = ticks.length) ∧
      (space.numPages.toNat ≤ (loaded mainMemory bitmap space disk).free.card →
        ran.faults + ran.final.memory.missing.card = space.numPages.toNat)

section Runs
variable {space : AddrSpace} {disk : Disk} {image mainMemory : Memory} {bitmap : Machine.Bitmap}

/-- No page is in memory at first. -/
theorem missing_started {m : Paged} (started : m.Started) : m.missing.card = m.space.numPages.toNat := by
  have all : m.missing = Finset.range m.space.numPages.toNat := by
    refine Finset.filter_true_of_mem fun v inside i => ?_
    have few : m.space.numPages.toNat ≤ 64 := started.fits
    have less := Finset.mem_range.mp inside
    have blank : (blankTable i).virtualPage.toNat = 2 ^ 32 - 1 := rfl
    rw [started.table, blank]
    omega
  rw [all, Finset.card_range]

theorem Starts.runs (starts : Starts space disk image) : RunsFlat space disk image := by
  obtain ⟨rfl, started⟩ := starts
  intro mainMemory bitmap ticks scheduled
  have started := started mainMemory bitmap
  have ready : Mips.Ready keptMemory
      { registers := InitRegisters space, memory := loaded mainMemory bitmap space disk } :=
    ⟨rfl, Nat.zero_lt_succ _, started.keeps.contents, started.writable⟩
  have first : observe keptMemory { registers := InitRegisters space, memory := loaded mainMemory bitmap space disk } =
      firstSight space (backingFile disk).bytes := by
    have contents : (loaded mainMemory bitmap space disk).contents =
        (firstSight space (backingFile disk).bytes).memory := by
      funext a
      unfold firstSight
      dsimp only
      split
      · rename_i inside
        exact started.keeps.contents_inside inside
      · rename_i outside
        exact Paging.contents_outside (Nat.le_of_not_lt outside)
    unfold observe
    exact congrArg _ contents
  have goes := Paging.MachineRun_goes ready ticks
  have trace := Paging.MachineRun_undisturbed ready (first ▸ scheduled)
  have last := goes.last
  rw [first] at trace last
  refine ⟨_, rfl, trace, last, goes.stops, goes.all, fun ample => ?_⟩
  have missing : (loaded mainMemory bitmap space disk).missing.card = space.numPages.toNat := missing_started started
  refine (goes.pages ?_).trans missing
  unfold Paged.Ample
  rwa [missing]

end Runs

end Nachos.Loading
