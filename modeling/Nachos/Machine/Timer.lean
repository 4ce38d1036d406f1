import Mathlib.Data.List.Chain
import Nachos.Machine.InterruptProofs

/-! The timer (`machine/timer.cc`) and the kernel's handler for it
(`TimerInterruptHandler` in `threads/system.cc`), among other devices. One timer
interrupt is always pending, and it fires at a steady pace: never before
`TimerTicks` have passed since the last one, and at most one tick of the system
later. -/
namespace Nachos.Interrupts

abbrev TimerTicks : Nat := 100

/-- Whose handler an interrupt calls. -/
inductive Device (H : Type) where
  | timer
  | other (handler : H)

variable {H W : Type}

def Device.isTimer : Device H → Bool
  | .timer => true
  | .other _ => false

/-- The fields of `Timer`; `this` is the address that its handler is called with. -/
structure Timer where
  this : Int
  randomize : Bool

namespace Timer

/-- `Timer::TimeOfNextInterrupt`, whose first statement returns. -/
def TimeOfNextInterrupt (_ : Timer) : Nat := TimerTicks

/-- The call of `Schedule` in the constructor and in `TimerExpired`. -/
def nextInterrupt (timer : Timer) : Request (Device H) where
  handler := .timer
  arg := timer.this
  fromNow := timer.TimeOfNextInterrupt
  type := .TimerInt
  positive := Nat.zero_lt_succ _

end Timer

/-- `TimerInterruptHandler`: whether it calls `YieldOnReturn`. -/
def TimerInterruptHandler (status : MachineStatus) : Bool := status ≠ .IdleMode

/-- What another device asks for. -/
def Request.other (request : Request H) : Request (Device H) where
  handler := .other request.handler
  arg := request.arg
  fromNow := request.fromNow
  type := request.type
  positive := request.positive

/-- The handlers of all devices. `Timer::TimerExpired` schedules the next interrupt
and calls the kernel's handler; handlers run in system mode. -/
def withTimer (timer : Timer) (call : Handlers H W) : Handlers (Device H) W
  | .timer, _, _, world => (world, TimerInterruptHandler .SystemMode, [timer.nextInterrupt])
  | .other handler, arg, time, world =>
    let (world, yields, requests) := call handler arg time world
    (world, yields, requests.map Request.other)

/-- `Step` with a timer: what is scheduled outside of handlers is another device's. -/
inductive Ticking (timer : Timer) (call : Handlers H W) :
    State (Device H) W → State (Device H) W → Prop where
  | schedules {k : State (Device H) W} (request : Request H) : Ticking timer call k (k.Schedule request.other)
  | ticks {k : State (Device H) W} : Ticking timer call k (k.OneTick (withTimer timer call))
  | idles {k k' : State (Device H) W} (goes_on : k.Idle (withTimer timer call) = some k') :
      Ticking timer call k k'
  | enters {k : State (Device H) W} (status : MachineStatus) (busy : status ≠ .IdleMode) :
      Ticking timer call k { k with status := status }
  | runs {k : State (Device H) W} (world : W) : Ticking timer call k { k with world := world }

theorem Ticking.step {timer : Timer} {call : Handlers H W} {k k' : State (Device H) W}
    (ticking : Ticking timer call k k') : Step (withTimer timer call) k k' := by
  cases ticking with
  | schedules request => exact .schedules _
  | ticks => exact .ticks
  | idles goes_on => exact .idles goes_on
  | enters status busy => exact .enters status busy
  | runs world => exact .runs world

/-! ## What is recorded of the timer -/

namespace State

/-- When the timer's interrupts fired. -/
def timerTimes (k : State (Device H) W) : List Nat :=
  (k.fired.filter fun shot => shot.1.handler.isTimer).map Prod.snd

/-- The timer's interrupts that are pending. -/
def waiting (k : State (Device H) W) : List (Nat × PendingInterrupt (Device H)) :=
  k.pending.filter fun element => element.2.handler.isTimer

/-- When the timer last fired, or was made. -/
def lastBeat (boot : Nat) (k : State (Device H) W) : Nat := k.timerTimes.getLast?.getD boot

/-- Nothing pending is late by more than `slack`. -/
def Prompt (slack : Nat) (k : State H W) : Prop := ∀ element ∈ k.pending, k.totalTicks ≤ element.1 + slack

/-- The timer's only interrupt is for the time `TimerTicks` after `last`. -/
def Awaits (last : Nat) (k : State (Device H) W) : Prop :=
  ∃ toOccur, k.waiting = [(last + TimerTicks, toOccur)] ∧ toOccur.type = .TimerInt

end State
open State

/-- The time from one timer interrupt to the next. -/
def Beat (time next : Nat) : Prop := time + TimerTicks ≤ next ∧ next ≤ time + TimerTicks + SystemTick

/-- The timer has kept its pace since it was made at `boot`. -/
structure Beating (boot slack : Nat) (k : State (Device H) W) : Prop where
  kept : Kept k
  prompt : k.Prompt slack
  beats : (boot :: k.timerTimes).IsChain Beat
  next : k.Awaits (k.lastBeat boot)

section
variable {k : State (Device H) W} {item : PendingInterrupt (Device H)} {sortKey : Nat}
  {elements : List (Nat × PendingInterrupt (Device H))}

/-- What is inserted for another device does not change what the timer waits for. -/
theorem filter_SortedInsert (other : item.handler.isTimer = false)
    {waiting : Nat × PendingInterrupt (Device H)}
    (only : elements.filter (fun element => element.2.handler.isTimer) = [waiting]) :
    (SortedInsert item sortKey elements).filter (fun element => element.2.handler.isTimer) = [waiting] := by
  have same := (SortedInsert_perm item sortKey elements).filter fun element => element.2.handler.isTimer
  rw [List.filter_cons_of_neg (by simp [other]), only] at same
  exact List.perm_singleton.mp same

theorem filter_SortedInsert_timer (timer : item.handler.isTimer = true)
    (none : elements.filter (fun element => element.2.handler.isTimer) = []) :
    (SortedInsert item sortKey elements).filter (fun element => element.2.handler.isTimer) =
      [(sortKey, item)] := by
  have same := (SortedInsert_perm item sortKey elements).filter fun element => element.2.handler.isTimer
  rw [List.filter_cons_of_pos (by simp [timer]), none] at same
  exact List.perm_singleton.mp same

end

section
variable {k : State H W} {requests : List (Request H)}

/-- Scheduling changes the list and its record, and nothing else. -/
theorem Schedules_frame (k : State H W) (requests : List (Request H)) :
    (requests.foldl Schedule k).fired = k.fired ∧
      (requests.foldl Schedule k).totalTicks = k.totalTicks ∧
      (requests.foldl Schedule k).yieldOnReturn = k.yieldOnReturn := by
  induction requests generalizing k with
  | nil => exact ⟨rfl, rfl, rfl⟩
  | cons request rest ih => exact ih (k.Schedule request)

/-- What is scheduled is for later. -/
theorem mem_Schedules {element : Nat × PendingInterrupt H}
    (inside : element ∈ (requests.foldl Schedule k).pending) :
    element ∈ k.pending ∨ k.totalTicks < element.1 := by
  induction requests generalizing k with
  | nil => exact .inl inside
  | cons request rest ih =>
    obtain before | later := ih (k := k.Schedule request) inside
    · obtain rfl | old := mem_SortedInsert.mp before
      · exact .inr (Nat.lt_add_of_pos_right request.positive)
      · exact .inl old
    · exact .inr later

end

/-- What firing an interrupt records. -/
theorem fire_frame (call : Handlers H W) (k : State H W) (toOccur : PendingInterrupt H) :
    (k.fire call toOccur).fired = k.fired ++ [(toOccur, k.totalTicks)] ∧
      (k.fire call toOccur).totalTicks = k.totalTicks ∧
      (k.fire call toOccur).yieldOnReturn =
        (k.yieldOnReturn || (call toOccur.handler toOccur.arg k.totalTicks k.world).2.1) :=
  Schedules_frame _ _

theorem timerTimes_fired {k k' : State (Device H) W} {toOccur : PendingInterrupt (Device H)} {time : Nat}
    (fired : k'.fired = k.fired ++ [(toOccur, time)]) :
    k'.timerTimes = k.timerTimes ++ if toOccur.handler.isTimer then [time] else [] := by
  unfold timerTimes
  rw [fired, List.filter_append, List.map_append]
  cases whose : toOccur.handler.isTimer with
  | true => simp [whose]
  | false => simp [whose]

section
variable {k : State (Device H) W} {last boot slack : Nat} {timer : Timer} {call : Handlers H W}

theorem State.Awaits.Schedules (awaits : k.Awaits last) (requests : List (Request H)) :
    ((requests.map Request.other).foldl Schedule k).Awaits last := by
  induction requests generalizing k with
  | nil => exact awaits
  | cons request rest ih =>
    obtain ⟨toOccur, only, type⟩ := awaits
    exact ih ⟨toOccur, filter_SortedInsert rfl only, type⟩

/-- Another device's handler does not touch the timer's interrupt. -/
theorem State.Awaits.fires {toOccur : PendingInterrupt (Device H)} {handler : H}
    (whose : toOccur.handler = .other handler) (awaits : k.Awaits last) :
    (k.fire (withTimer timer call) toOccur).Awaits last := by
  unfold Awaits waiting fire
  rw [whose]
  dsimp only [withTimer]
  exact State.Awaits.Schedules (k := { k with
    status := .SystemMode
    world := (call handler toOccur.arg k.totalTicks k.world).1
    yieldOnReturn := k.yieldOnReturn || (call handler toOccur.arg k.totalTicks k.world).2.1
    fired := k.fired ++ [(toOccur, k.totalTicks)] }) awaits _

theorem State.Prompt.Schedules {k : State H W} (prompt : k.Prompt slack) (requests : List (Request H)) :
    (requests.foldl Schedule k).Prompt slack := by
  intro element inside
  have time := (Schedules_frame k requests).2.1
  obtain old | later := mem_Schedules inside
  · rw [time]
    exact prompt element old
  · rw [time]
    exact later.le.trans (Nat.le_add_right _ _)

theorem State.Prompt.fire {k : State H W} (prompt : k.Prompt slack) (call : Handlers H W)
    (toOccur : PendingInterrupt H) : (k.fire call toOccur).Prompt slack := by
  intro element inside
  rw [(fire_frame call k toOccur).2.1]
  obtain old | later := mem_Schedules inside
  · exact prompt element old
  · exact later.le.trans (Nat.le_add_right _ _)

namespace Beating

/-- Only the clock, the mode and the rest of the machine change. -/
theorem passes {k' : State (Device H) W} (beating : Beating boot slack k) (kept : Kept k')
    (pending : k'.pending = k.pending) (fired : k'.fired = k.fired) {slack' : Nat}
    (late : k'.totalTicks + slack ≤ k.totalTicks + slack') : Beating boot slack' k' := by
  have times : k'.timerTimes = k.timerTimes := by
    unfold timerTimes
    rw [fired]
  refine ⟨kept, fun element inside => ?_, ?_, ?_⟩
  · rw [pending] at inside
    have bound := beating.prompt element inside
    omega
  · rw [times]
    exact beating.beats
  · unfold Awaits lastBeat waiting
    rw [times, pending]
    exact beating.next

theorem sets (beating : Beating boot slack k) (status : MachineStatus) (yieldOnReturn : Bool) (world : W) :
    Beating boot slack { k with status := status, yieldOnReturn := yieldOnReturn, world := world } := by
  have kept : Kept { k with status := status, yieldOnReturn := yieldOnReturn, world := world } :=
    beating.kept.passes rfl rfl rfl le_rfl beating.kept.ticks
  exact beating.passes kept rfl rfl le_rfl

theorem Schedule (beating : Beating boot slack k) (request : Request H) :
    Beating boot slack (k.Schedule request.other) where
  kept := beating.kept.Schedule request.other
  prompt := State.Prompt.Schedules beating.prompt [request.other]
  beats := beating.beats
  next := State.Awaits.Schedules beating.next [request]

/-- The first interrupt is taken off the list, found to be early, and put back. -/
theorem reinserts (beating : Beating boot slack k) {when_ : Nat} {toOccur : PendingInterrupt (Device H)}
    {rest : List (Nat × PendingInterrupt (Device H))} (shape : k.pending = (when_, toOccur) :: rest) :
    Beating boot slack { k with pending := SortedInsert toOccur when_ rest } := by
  have same := SortedInsert_perm toOccur when_ rest
  rw [← shape] at same
  obtain ⟨awaited, only, type⟩ := beating.next
  refine ⟨beating.kept.reinserts shape, fun element inside => ?_, beating.beats, awaited, ?_, type⟩
  · exact beating.prompt element (same.mem_iff.mp inside)
  · have filtered := same.filter fun element => element.2.handler.isTimer
    exact List.perm_singleton.mp (filtered.trans (List.Perm.of_eq only))

/-- An interrupt that is due fires. If it is the timer's, this is the next beat. -/
theorem fires (beating : Beating boot slack k) (small : slack ≤ SystemTick) {when_ : Nat}
    {toOccur : PendingInterrupt (Device H)} {rest : List (Nat × PendingInterrupt (Device H))}
    (shape : k.pending = (when_, toOccur) :: rest) (due : when_ ≤ k.totalTicks) :
    Beating boot slack ({ k with pending := rest }.fire (withTimer timer call) toOccur) := by
  have kept := beating.kept.fires (withTimer timer call) shape due
  have late := beating.prompt (when_, toOccur) (by simp [shape])
  have old : ({ k with pending := rest } : State (Device H) W).Prompt slack := fun element inside =>
    beating.prompt element (by rw [shape]; exact List.mem_cons_of_mem _ inside)
  have prompt := State.Prompt.fire old (withTimer timer call) toOccur
  have times := timerTimes_fired (fire_frame (withTimer timer call) { k with pending := rest } toOccur).1
  change _ = k.timerTimes ++ _ at times
  obtain ⟨awaited, only, type⟩ := beating.next
  unfold waiting at only
  rw [shape] at only
  cases whose : toOccur.handler with
  | timer =>
    have isTimer : toOccur.handler.isTimer = true := by rw [whose]; rfl
    rw [isTimer, if_pos rfl] at times
    rw [List.filter_cons, if_pos isTimer] at only
    obtain ⟨first, others⟩ := List.cons.inj only
    obtain ⟨time, -⟩ := Prod.mk.inj first
    have beat : Beat (k.lastBeat boot) k.totalTicks := by
      unfold Beat
      dsimp only at late
      omega
    refine ⟨kept, prompt, ?_, ?_⟩
    · rw [times, ← List.cons_append]
      refine List.isChain_append.mpr ⟨beating.beats, List.isChain_singleton _, fun last here next there => ?_⟩
      have newest : next = k.totalTicks := by simpa using there.symm
      have latest : last = k.lastBeat boot := by
        rw [List.getLast?_cons] at here
        exact (Option.some.inj here).symm
      rw [newest, latest]
      exact beat
    · unfold lastBeat
      rw [times, List.getLast?_concat]
      unfold fire
      rw [whose]
      exact ⟨_, filter_SortedInsert_timer rfl others, rfl⟩
  | other handler =>
    have isOther : toOccur.handler.isTimer = false := by rw [whose]; rfl
    rw [isOther, if_neg (by decide), List.append_nil] at times
    rw [List.filter_cons_of_neg (by simp [isOther])] at only
    refine ⟨kept, prompt, ?_, ?_⟩
    · rw [times]
      exact beating.beats
    · unfold lastBeat
      rw [times]
      have awaits : ({ k with pending := rest } : State (Device H) W).Awaits (k.lastBeat boot) :=
        ⟨awaited, only, type⟩
      exact awaits.fires whose

/-- Without advancing the clock, whatever is due is late by no more than before. -/
theorem CheckIfDue (beating : Beating boot slack k) (small : slack ≤ SystemTick) :
    Beating boot slack (k.CheckIfDue (withTimer timer call) false).2 := by
  obtain ⟨-, same⟩ | ⟨when_, toOccur, rest, shape, early | lonely | fires⟩ :=
    k.CheckIfDue_cases (withTimer timer call) false
  · rw [same]
    exact beating
  · rw [early.2.2]
    exact beating.reinserts shape
  · have still : k.advance when_ = k := if_neg fun later => lonely.1 ⟨rfl, later⟩
    rw [lonely.2.2, still]
    exact beating.reinserts shape
  · have due : ¬ k.totalTicks < when_ := fun later => fires.1 ⟨rfl, later⟩
    have still : k.advance when_ = k := if_neg due
    rw [fires.2.2, still]
    exact beating.fires small shape (Nat.le_of_not_lt due)

theorem dispatch (beating : Beating boot slack k) (small : slack ≤ SystemTick) :
    Beating boot slack (k.dispatch (withTimer timer call)) := by
  fun_induction State.dispatch (withTimer timer call) k with
  | case1 k fired ih => exact ih (beating.CheckIfDue small)
  | case2 k fired => exact beating.CheckIfDue small

/-- A tick makes interrupts late by at most its own length, and they fire then. -/
theorem OneTick (beating : Beating boot 0 k) (busy : k.status ≠ .IdleMode) :
    Beating boot 0 (k.OneTick (withTimer timer call)) := by
  have ticked : Beating boot SystemTick k.tick := by
    refine beating.passes beating.kept.tick.1 ?_ ?_ ?_
    · unfold State.tick
      split <;> rfl
    · unfold State.tick
      split <;> rfl
    · unfold State.tick
      split
      · exact le_rfl
      · show k.totalTicks + 1 + 0 ≤ k.totalTicks + 10
        omega
  have after : Beating boot SystemTick (k.tick.dispatch (withTimer timer call)) := ticked.dispatch le_rfl
  obtain ⟨kept, -, -, later⟩ := beating.kept.OneTick (withTimer timer call) busy
  have pending : (k.OneTick (withTimer timer call)).pending =
      (k.tick.dispatch (withTimer timer call)).pending ∧ (k.OneTick (withTimer timer call)).fired =
      (k.tick.dispatch (withTimer timer call)).fired := by
    unfold State.OneTick
    dsimp only
    split <;> exact ⟨rfl, rfl⟩
  have settled : Beating boot ((k.OneTick (withTimer timer call)).totalTicks + SystemTick)
      (k.OneTick (withTimer timer call)) :=
    after.passes kept pending.1 pending.2 (by omega)
  exact ⟨kept, fun element inside => (later element inside).le, settled.beats, settled.next⟩

/-- An idle machine skips the time up to its first interrupt, and none is late. -/
theorem skips (beating : Beating boot 0 k) {when_ : Nat} {toOccur : PendingInterrupt (Device H)}
    {rest : List (Nat × PendingInterrupt (Device H))} (shape : k.pending = (when_, toOccur) :: rest) :
    Beating boot 0 (k.advance when_) := by
  have reaches : (k.advance when_).totalTicks = when_ := by
    have soon := beating.prompt (when_, toOccur) (by simp [shape])
    unfold State.advance
    split
    · rfl
    · dsimp only at soon
      omega
  have fired : (k.advance when_).fired = k.fired := by
    unfold State.advance
    split <;> rfl
  have moved : Beating boot when_ (k.advance when_) :=
    beating.passes (beating.kept.advances when_) (k.advance_pending when_) fired (by omega)
  refine ⟨moved.kept, fun element inside => ?_, moved.beats, moved.next⟩
  have sorted := moved.kept.sorted
  rw [k.advance_pending, shape] at inside sorted
  rw [reaches]
  obtain rfl | later := List.mem_cons.mp inside
  · exact le_rfl
  · exact (List.pairwise_cons.mp sorted).1 element later

theorem Idle {k' : State (Device H) W} (beating : Beating boot 0 k)
    (goes_on : k.Idle (withTimer timer call) = some k') : Beating boot 0 k' := by
  have idle : Beating boot 0 { k with status := .IdleMode } := beating.sets _ _ _
  have checked : Beating boot 0 (State.CheckIfDue (withTimer timer call) { k with status := .IdleMode } true).2 := by
    obtain ⟨-, same⟩ | ⟨when_, toOccur, rest, shape, early | lonely | fires⟩ :=
      State.CheckIfDue_cases (withTimer timer call) { k with status := .IdleMode } true
    · rw [same]
      exact idle
    · cases early.1
    · rw [lonely.2.2]
      exact (idle.skips shape).reinserts (by rw [State.advance_pending, shape])
    · rw [fires.2.2]
      exact (idle.skips shape).fires (by decide) (by rw [State.advance_pending, shape])
        (State.le_advance _ when_).2
  unfold State.Idle at goes_on
  split at goes_on
  · rename_i fired same
    rw [same] at checked
    cases goes_on
    exact Beating.sets (dispatch checked (by decide)) _ _ _
  · cases goes_on

theorem step {k' : State (Device H) W} (beating : Beating boot 0 k) (busy : k.status ≠ .IdleMode)
    (step : Ticking timer call k k') : Beating boot 0 k' := by
  cases step with
  | schedules request => exact beating.Schedule request
  | ticks => exact beating.OneTick busy
  | idles goes_on => exact beating.Idle goes_on
  | enters status active => exact beating.sets _ _ _
  | runs world => exact beating.sets _ _ _

end Beating

/-! ## Context switches -/

/-- Interrupts that fire never take back a request to switch, and the timer's makes one. -/
theorem timer_yields (k : State (Device H) W) :
    (k.yieldOnReturn = true → (k.dispatch (withTimer timer call)).yieldOnReturn = true) ∧
      ((k.dispatch (withTimer timer call)).timerTimes ≠ k.timerTimes →
        (k.dispatch (withTimer timer call)).yieldOnReturn = true) := by
  fun_induction State.dispatch (withTimer timer call) k with
  | case1 k fired ih =>
    obtain ⟨keeps, asks⟩ := ih
    obtain ⟨-, same⟩ | ⟨when_, toOccur, rest, shape, early | lonely | fires⟩ :=
      k.CheckIfDue_cases (withTimer timer call) false
    · rw [same] at fired
      cases fired
    · rw [early.2.2] at fired
      cases fired
    · rw [lonely.2.2] at fired
      cases fired
    · have still : k.advance when_ = k := if_neg fun later => fires.1 ⟨rfl, later⟩
      rw [fires.2.2, still] at keeps asks ⊢
      obtain ⟨shots, -, yields⟩ := fire_frame (withTimer timer call) { k with pending := rest } toOccur
      have times := timerTimes_fired shots
      refine ⟨fun asked => keeps ?_, fun grown => ?_⟩
      · rw [yields]
        exact Bool.or_eq_true_iff.mpr (.inl asked)
      · cases whose : toOccur.handler with
        | timer =>
          refine keeps (yields.trans ?_)
          rw [whose]
          exact Bool.or_true _
        | other handler =>
          refine asks fun same => grown (same.trans (times.trans ?_))
          rw [whose]
          exact List.append_nil _
  | case2 k fired =>
    have shots : (k.CheckIfDue (withTimer timer call) false).2.fired = k.fired ∧
        (k.CheckIfDue (withTimer timer call) false).2.yieldOnReturn = k.yieldOnReturn := by
      obtain ⟨-, same⟩ | ⟨when_, toOccur, rest, shape, early | lonely | fires⟩ :=
        k.CheckIfDue_cases (withTimer timer call) false
      · rw [same]
        exact ⟨rfl, rfl⟩
      · rw [early.2.2]
        exact ⟨rfl, rfl⟩
      · have still : k.advance when_ = k := if_neg fun later => lonely.1 ⟨rfl, later⟩
        rw [lonely.2.2, still]
        exact ⟨rfl, rfl⟩
      · rw [fires.2.2] at fired
        exact absurd rfl fired
    refine ⟨fun asked => shots.2.trans asked, fun grown => absurd ?_ grown⟩
    unfold timerTimes
    rw [shots.1]

/-! ## Runs -/

/-- A machine whose timer has just been made. -/
def State.timed (timer : Timer) (k : State (Device H) W) : State (Device H) W := k.Schedule timer.nextInterrupt

theorem Starts.beating {start : State (Device H) W} (starts : Starts start) (timer : Timer) :
    Beating 0 0 (start.timed timer) ∧ (start.timed timer).status ≠ .IdleMode := by
  have kept := starts.kept.Schedule timer.nextInterrupt
  obtain ⟨⟨total, -, -, -⟩, pending, status, -, fired⟩ := starts
  have times : (start.timed timer).timerTimes = [] := by
    unfold timerTimes timed State.Schedule
    rw [fired]
    rfl
  refine ⟨⟨kept, fun element inside => ?_, ?_, ?_⟩, ?_⟩
  · show start.totalTicks ≤ _
    rw [total]
    exact Nat.zero_le _
  · rw [times]
    exact List.isChain_singleton _
  · unfold lastBeat Awaits waiting timed State.Schedule
    rw [pending, total]
    unfold timerTimes
    dsimp only
    rw [fired]
    exact ⟨_, rfl, rfl⟩
  · show start.status ≠ _
    rw [status]
    exact MachineStatus.noConfusion

theorem Starts.beating_run {start : State (Device H) W} (starts : Starts start)
    (run : Relation.ReflTransGen (Ticking timer call) (start.timed timer) k) :
    Beating 0 0 k ∧ k.status ≠ .IdleMode := by
  induction run with
  | refl => exact starts.beating timer
  | tail _ step ih =>
    obtain ⟨beating, busy⟩ := ih
    exact ⟨beating.step busy step, (beating.kept.step busy step.step).2.1⟩

/-- In every run from the making of the timer, whatever other devices do: its
interrupts are at least `TimerTicks` and at most one tick of the system more apart;
just one is pending, for `TimerTicks` after the last, and its time has not passed;
a tick in which one fires ends in a context switch; and an idle machine halts just
when nothing else is pending. -/
theorem timer_keeps_its_pace {start : State (Device H) W} (starts : Starts start)
    (run : Relation.ReflTransGen (Ticking timer call) (start.timed timer) k) :
    (0 :: k.timerTimes).IsChain (fun time next => time + TimerTicks ≤ next ∧
        next ≤ time + TimerTicks + SystemTick) ∧
      (∃ toOccur, k.waiting = [(k.lastBeat 0 + TimerTicks, toOccur)]) ∧
      k.totalTicks ≤ k.lastBeat 0 + TimerTicks ∧
      ((k.OneTick (withTimer timer call)).timerTimes ≠ k.timerTimes →
        (k.tick.dispatch (withTimer timer call)).yieldOnReturn = true) ∧
      (k.Idle (withTimer timer call) = none ↔ k.pending = k.waiting) := by
  obtain ⟨beating, busy⟩ := starts.beating_run run
  obtain ⟨awaited, only, type⟩ := beating.next
  refine ⟨beating.beats, ⟨awaited, only⟩, ?_, fun fired => ?_, ?_⟩
  · have waits : (k.lastBeat 0 + TimerTicks, awaited) ∈ k.waiting := by
      rw [only]
      exact List.mem_singleton_self _
    exact beating.prompt _ (List.mem_of_mem_filter waits)
  · have times : (k.OneTick (withTimer timer call)).timerTimes =
        (k.tick.dispatch (withTimer timer call)).timerTimes := by
      unfold State.OneTick
      dsimp only
      split <;> rfl
    have before : k.tick.timerTimes = k.timerTimes := by
      unfold State.tick
      split <;> rfl
    exact (timer_yields k.tick).2 fun same => fired (times.trans (same.trans before))
  · unfold State.Idle
    obtain ⟨empty, -⟩ | ⟨when_, toOccur, rest, shape, early | ⟨-, lonely, checked⟩ | ⟨-, company, checked⟩⟩ :=
      State.CheckIfDue_cases (withTimer timer call) { k with status := .IdleMode } true
    · unfold waiting at only
      rw [show k.pending = [] from empty] at only
      cases only
    · cases early.1
    · rw [checked]
      change k.pending = _ at shape
      rw [List.isEmpty_iff.mp lonely.2.2] at shape
      refine iff_of_true rfl ?_
      unfold waiting at only ⊢
      rw [shape, List.filter_cons] at only ⊢
      split at only
      · rename_i mine
        rw [if_pos mine]
        rfl
      · cases only
    · rw [checked]
      refine iff_of_false (by simp) fun all => company ?_
      change k.pending = _ at shape
      rw [shape, only] at all
      obtain ⟨first, alone⟩ := List.cons.inj all
      obtain ⟨-, same⟩ := Prod.mk.inj first
      exact ⟨rfl, same ▸ type, List.isEmpty_iff.mpr alone⟩

/-! A timer and a device whose interrupt is for tick 105, on an idle machine. -/

def quietHandler : Handlers Unit Unit := fun _ _ _ _ => ((), false, [])

def timedMachine : State (Device Unit) Unit where
  totalTicks := 0
  idleTicks := 0
  systemTicks := 0
  userTicks := 0
  pending := []
  yieldOnReturn := false
  status := .SystemMode
  world := ()
  scheduled := []
  fired := []

def laterRequest : Request Unit where
  handler := ()
  arg := 0
  fromNow := 105
  type := .DiskInt
  positive := by decide

theorem timer_keeps_its_pace_idle : ∃ k, Relation.ReflTransGen (Ticking ⟨0, false⟩ quietHandler)
    (timedMachine.timed ⟨0, false⟩) k ∧ k.timerTimes = [100] ∧ k.totalTicks ≤ k.lastBeat 0 + TimerTicks := by
  have starts : Starts timedMachine := ⟨⟨rfl, rfl, rfl, rfl⟩, rfl, rfl, rfl, rfl⟩
  have asked : Relation.ReflTransGen (Ticking ⟨0, false⟩ quietHandler) (timedMachine.timed ⟨0, false⟩)
      ((timedMachine.timed ⟨0, false⟩).Schedule laterRequest.other) := .single (.schedules laterRequest)
  obtain ⟨k, goes_on, fired⟩ : ∃ k, State.Idle (withTimer ⟨0, false⟩ quietHandler)
      ((timedMachine.timed ⟨0, false⟩).Schedule laterRequest.other) = some k ∧ k.timerTimes = [100] := by
    unfold State.Idle
    split
    · rename_i after same
      cases same
      rw [State.dispatch, dif_neg (by decide)]
      exact ⟨_, rfl, rfl⟩
    · rename_i same
      cases same
  exact ⟨k, asked.tail (.idles goes_on), fired, (timer_keeps_its_pace starts (asked.tail (.idles goes_on))).2.2.1⟩

end

end Nachos.Interrupts
