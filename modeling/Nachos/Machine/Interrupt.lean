import Mathlib.Data.List.Basic

/-! Simulated time and the interrupts that are due at some point of it
(`machine/interrupt.cc`), with the sorted list they wait in (`threads/list.cc`).
Time is a natural number: the counters do not overflow. -/
namespace Nachos.Interrupts

/-! ## The sorted list -/

section
variable {α : Type}

/-- `List::SortedInsert`: behind all elements with the same key. -/
def SortedInsert (item : α) (sortKey : Nat) : List (Nat × α) → List (Nat × α)
  | [] => [(sortKey, item)]
  | first :: rest =>
    if sortKey < first.1 then (sortKey, item) :: first :: rest
    else first :: SortedInsert item sortKey rest

/-- `List::SortedRemove`: the first item and its key, and the other elements. -/
def SortedRemove : List (Nat × α) → Option ((Nat × α) × List (Nat × α))
  | [] => none
  | first :: rest => some (first, rest)

theorem SortedInsert_perm (item : α) (sortKey : Nat) (elements : List (Nat × α)) :
    (SortedInsert item sortKey elements).Perm ((sortKey, item) :: elements) := by
  induction elements with
  | nil => exact List.Perm.refl _
  | cons first rest ih =>
    unfold SortedInsert
    split
    · exact List.Perm.refl _
    · exact (ih.cons first).trans (List.Perm.swap _ _ _)

end

/-! ## Interrupts -/

inductive IntType where
  | TimerInt | DiskInt | ConsoleWriteInt | ConsoleReadInt | NetworkSendInt | NetworkRecvInt
deriving DecidableEq, Repr

inductive MachineStatus where
  | IdleMode | SystemMode | UserMode
deriving DecidableEq, Repr

abbrev SystemTick : Nat := 10
abbrev UserTick : Nat := 1

/-- An interrupt that was scheduled; `id` tells it from all others. -/
structure PendingInterrupt (H : Type) where
  id : Nat
  handler : H
  arg : Int
  when : Nat
  type : IntType
deriving DecidableEq

/-- The arguments of a call of `Schedule`. -/
structure Request (H : Type) where
  handler : H
  arg : Int
  fromNow : Nat
  type : IntType
  positive : 0 < fromNow

variable {H W : Type}

/-- The clock, the interrupts, and the rest of the machine. The last two fields only
record the run: what was scheduled, and what was fired at what time. -/
structure State (H W : Type) where
  totalTicks : Nat
  idleTicks : Nat
  systemTicks : Nat
  userTicks : Nat
  pending : List (Nat × PendingInterrupt H)
  yieldOnReturn : Bool
  status : MachineStatus
  world : W
  scheduled : List (PendingInterrupt H)
  fired : List (PendingInterrupt H × Nat)

/-- What handlers do: given the argument, the time and the rest of the machine, they change
the latter, may ask for a context switch, and schedule further interrupts. -/
abbrev Handlers (H W : Type) := H → Int → Nat → W → W × Bool × List (Request H)

namespace State

/-- `Interrupt::Schedule`. -/
def Schedule (k : State H W) (request : Request H) : State H W :=
  let when_ := k.totalTicks + request.fromNow
  let toOccur : PendingInterrupt H :=
    { id := k.scheduled.length, handler := request.handler, arg := request.arg, when := when_
      type := request.type }
  { k with pending := SortedInsert toOccur when_ k.pending, scheduled := k.scheduled ++ [toOccur] }

/-- The handler of an interrupt is called, in system mode. -/
def fire (call : Handlers H W) (k : State H W) (toOccur : PendingInterrupt H) : State H W :=
  let (world, yields, requests) := call toOccur.handler toOccur.arg k.totalTicks k.world
  let called := requests.foldl Schedule
    { k with
      status := .SystemMode
      world := world
      yieldOnReturn := k.yieldOnReturn || yields
      fired := k.fired ++ [(toOccur, k.totalTicks)] }
  { called with status := k.status }

/-- Idle time passes. -/
def advance (k : State H W) (when_ : Nat) : State H W :=
  if k.totalTicks < when_ then
    { k with idleTicks := k.idleTicks + (when_ - k.totalTicks), totalTicks := when_ }
  else k

/-- `Interrupt::CheckIfDue`. -/
def CheckIfDue (call : Handlers H W) (k : State H W) (advanceClock : Bool) : Bool × State H W :=
  match SortedRemove k.pending with
  | none => (false, k)
  | some ((when_, toOccur), rest) =>
    if advanceClock = false ∧ k.totalTicks < when_ then
      (false, { k with pending := SortedInsert toOccur when_ rest })
    else
      let k := { k.advance when_ with pending := rest }
      if k.status = .IdleMode ∧ toOccur.type = .TimerInt ∧ k.pending.isEmpty then
        (false, { k with pending := SortedInsert toOccur when_ k.pending })
      else (true, k.fire call toOccur)

/-- How many interrupts are due. -/
def due (k : State H W) : Nat := k.pending.countP fun element => element.1 ≤ k.totalTicks

/-- What a handler schedules is not due yet. -/
theorem due_Schedules (k : State H W) (requests : List (Request H)) :
    (requests.foldl Schedule k).due = k.due ∧
      (requests.foldl Schedule k).totalTicks = k.totalTicks := by
  induction requests generalizing k with
  | nil => exact ⟨rfl, rfl⟩
  | cons request rest ih =>
    obtain ⟨due, time⟩ := ih (k.Schedule request)
    refine ⟨due.trans ?_, time⟩
    have later : ¬ k.totalTicks + request.fromNow ≤ k.totalTicks := by
      have := request.positive
      omega
    show (SortedInsert _ (k.totalTicks + request.fromNow) k.pending).countP
      (fun element => element.1 ≤ k.totalTicks) = k.pending.countP fun element => element.1 ≤ k.totalTicks
    rw [(SortedInsert_perm _ _ _).countP_eq, List.countP_cons_of_neg (by simpa using later)]

theorem due_fire (call : Handlers H W) (k : State H W) (toOccur : PendingInterrupt H) :
    (k.fire call toOccur).due = k.due ∧ (k.fire call toOccur).totalTicks = k.totalTicks :=
  due_Schedules _ _

/-- Without advancing the clock, an interrupt that is fired was due. -/
theorem due_CheckIfDue {call : Handlers H W} {k : State H W}
    (fired : (k.CheckIfDue call false).1 = true) : (k.CheckIfDue call false).2.due < k.due := by
  unfold CheckIfDue at fired ⊢
  cases shape : k.pending with
  | nil => simp [shape, SortedRemove] at fired
  | cons first rest =>
    obtain ⟨when_, toOccur⟩ := first
    simp only [shape, SortedRemove, true_and] at fired ⊢
    by_cases early : k.totalTicks < when_
    · simp [early] at fired
    · have still : k.advance when_ = k := if_neg early
      rw [if_neg early, still] at fired ⊢
      split at fired
      · cases fired
      · rename_i fires
        rw [if_neg fires, (due_fire call _ toOccur).1]
        show rest.countP _ < k.pending.countP _
        rw [shape, List.countP_cons_of_pos (by simpa using Nat.le_of_not_lt early)]
        exact Nat.lt_succ_self _

/-- The loop `while (CheckIfDue(FALSE))`. -/
def dispatch (call : Handlers H W) (k : State H W) : State H W :=
  if _ : (k.CheckIfDue call false).1 = true then (k.CheckIfDue call false).2.dispatch call
  else (k.CheckIfDue call false).2
termination_by k.due
decreasing_by exact due_CheckIfDue ‹_›

/-- The time that `OneTick` takes. -/
def tick (k : State H W) : State H W :=
  if k.status = .SystemMode then
    { k with totalTicks := k.totalTicks + SystemTick, systemTicks := k.systemTicks + SystemTick }
  else { k with totalTicks := k.totalTicks + UserTick, userTicks := k.userTicks + UserTick }

/-- `Interrupt::OneTick`. A context switch that a handler asked for runs other threads;
whoever returns to user mode sets the status back. -/
def OneTick (call : Handlers H W) (k : State H W) : State H W :=
  let k := k.tick.dispatch call
  if k.yieldOnReturn then { k with yieldOnReturn := false, status := .SystemMode } else k

/-- `Interrupt::Idle`; `none` is `Halt`. -/
def Idle (call : Handlers H W) (k : State H W) : Option (State H W) :=
  match { k with status := .IdleMode }.CheckIfDue call true with
  | (true, k) => some { k.dispatch call with yieldOnReturn := false, status := .SystemMode }
  | (false, _) => none

end State

/-- What happens to the clock and the interrupts: a device schedules one, time passes while
a thread runs or while none can, the machine enters or leaves user mode, and everything
else. -/
inductive Step (call : Handlers H W) : State H W → State H W → Prop where
  | schedules {k : State H W} (request : Request H) : Step call k (k.Schedule request)
  | ticks {k : State H W} : Step call k (k.OneTick call)
  | idles {k k' : State H W} (goes_on : k.Idle call = some k') : Step call k k'
  | enters {k : State H W} (status : MachineStatus) (busy : status ≠ .IdleMode) :
      Step call k { k with status := status }
  | runs {k : State H W} (world : W) : Step call k { k with world := world }

/-- A machine that has just been started. -/
structure Starts (k : State H W) : Prop where
  ticks : k.totalTicks = 0 ∧ k.idleTicks = 0 ∧ k.systemTicks = 0 ∧ k.userTicks = 0
  pending : k.pending = []
  status : k.status = .SystemMode
  record : k.scheduled = [] ∧ k.fired = []

end Nachos.Interrupts
