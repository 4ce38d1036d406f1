import Nachos.Threads.SynchProofs

/-! Locks and conditions under every interleaving: a lock has at most one
holder and `owner` names it, and every `Wait` ends by exactly one wake-up that
came after it had given the lock up. Threads are only assumed to release, and to
wait with, a lock they hold. -/
namespace Nachos.Threads
open Effects

variable {T S L C U W : Type}

/-! ## Holding a lock -/

/-- `t` is between the return of `Acquire` or `Wait` and its next `Release` or
`Wait`. -/
def Holds (trace : List (Event T S L C)) (l : L) (t : T) : Prop :=
  ∃ before after, trace = before ++ .acquires l t :: after ∧ .releases l t ∉ after

/-- Locks are released, by `Release` or by `Wait`, only by a thread that holds
them. -/
def Disciplined (trace : List (Event T S L C)) : Prop :=
  ∀ before after l t, trace = before ++ .releases l t :: after → Holds before l t

theorem Disciplined.left {trace events : List (Event T S L C)}
    (disciplined : Disciplined (trace ++ events)) : Disciplined trace := by
  intro before after l t split
  exact disciplined before (after ++ events) l t (by simp [split])

theorem not_holds_nil (l : L) (t : T) : ¬ Holds ([] : List (Event T S L C)) l t := by
  rintro ⟨before, after, split, -⟩
  simp at split

theorem holds_snoc {trace : List (Event T S L C)} {event : Event T S L C} {l : L} {t : T} :
    Holds (trace ++ [event]) l t ↔
      event = .acquires l t ∨ Holds trace l t ∧ event ≠ .releases l t := by
  constructor
  · rintro ⟨before, after, split, still⟩
    cases after using List.reverseRecOn with
    | nil =>
      obtain ⟨-, last⟩ := List.append_inj' split rfl
      exact .inl (List.cons.inj last).1
    | append_singleton after last _ =>
      have shape : trace ++ [event] = (before ++ .acquires l t :: after) ++ [last] := by
        rw [split]
        simp
      obtain ⟨front, back⟩ := List.append_inj' shape rfl
      simp only [List.mem_append, List.mem_singleton, not_or] at still
      refine .inr ⟨⟨before, after, front, still.1⟩, ?_⟩
      rw [(List.cons.inj back).1]
      exact fun same => still.2 same.symm
  · rintro (rfl | ⟨⟨before, after, rfl, still⟩, kept⟩)
    · exact ⟨trace, [], rfl, by simp⟩
    · exact ⟨before, after ++ [event], by simp, by simp [still, Ne.symm kept]⟩

/-- Events that are about no acquisition or release of the lock change nothing. -/
theorem holds_append {trace events : List (Event T S L C)} {l : L} {t : T}
    (noAcquire : .acquires l t ∉ events) (noRelease : .releases l t ∉ events) :
    Holds (trace ++ events) l t ↔ Holds trace l t := by
  induction events using List.reverseRecOn with
  | nil => simp
  | append_singleton events event ih =>
    simp only [List.mem_append, List.mem_singleton, not_or] at noAcquire noRelease
    rw [← List.append_assoc, holds_snoc, ih noAcquire.1 noRelease.1]
    simp [Ne.symm noAcquire.2, Ne.symm noRelease.2]

/-- `owner` names the holder, and the lock's semaphore is up exactly when there
is none. -/
structure Owned (trace : List (Event T S L C)) (k : State T S L C U W) : Prop where
  owner (l : L) (t : T) : k.owner l = some t ↔ Holds trace l t
  value (l : L) : (k.sem (.ofLock l)).value = if (k.owner l).isSome then 0 else 1

namespace Owned

variable {trace events : List (Event T S L C)} {k k' : State T S L C U W}

theorem congr (owned : Owned trace k) (owners : k'.owner = k.owner)
    (values : ∀ l, (k'.sem (.ofLock l)).value = (k.sem (.ofLock l)).value)
    (silent : ∀ l t, .acquires l t ∉ events ∧ .releases l t ∉ events) :
    Owned (trace ++ events) k' where
  owner l t := by rw [owners, owned.owner, holds_append (silent l t).1 (silent l t).2]
  value l := by rw [values, owners, owned.value]

/-- A disciplined trace releases what is held. -/
private theorem released {t : T} {l : L} {woken : Option T} {rest : List (Event T S L C)}
    (disciplined : Disciplined (trace ++ (.v (.ofLock l) woken :: .releases l t :: rest))) :
    Holds trace l t := by
  have holds := disciplined (trace ++ [.v (.ofLock l) woken]) rest l t (by simp)
  rwa [holds_append (by simp) (by simp)] at holds

variable [DecidableEq T] [DecidableEq S] [DecidableEq L]

/-- A thread that takes the lock's semaphore finds no owner and becomes it. -/
theorem acquire (owned : Owned trace k) {t : T} {l : L} {inWait : Option C} {next : U}
    (nonzero : (k.sem (.ofLock l)).value ≠ 0) :
    Owned (trace ++ (k.P t (.ofLock l) inWait next).2) (k.P t (.ofLock l) inWait next).1 := by
  have free : k.owner l = none := by
    have value := owned.value l
    cases shape : k.owner l with
    | none => rfl
    | some t' => simp [shape, nonzero] at value
  have nobody : ∀ t', ¬ Holds trace l t' := by
    intro t' holds
    simp [(owned.owner l t').mpr holds] at free
  rw [State.P_takes_lock nonzero]
  refine ⟨fun l' t' => ?_, fun l' => ?_⟩
  · have split : trace ++ ([.p (.ofLock l) t, .acquires l t] ++
        (inWait.map fun c => .returns c l t).toList) =
        ((trace ++ [.p (.ofLock l) t]) ++ [.acquires l t]) ++
          (inWait.map fun c => Event.returns c l t).toList := by simp
    rw [split, holds_append (by cases inWait <;> simp) (by cases inWait <;> simp), holds_snoc,
      holds_append (by simp) (by simp)]
    by_cases same : l' = l
    · subst same
      simp [nobody t']
    · simp [same, Ne.symm same, owned.owner]
  · by_cases same : l' = l
    · subst same
      simp [owned.value, free]
    · simp [same, owned.value]

theorem P (owned : Owned trace k) (t : T) (id : SemId S L) (inWait : Option C) (next : U) :
    Owned (trace ++ (k.P t id inWait next).2) (k.P t id inWait next).1 := by
  by_cases zero : (k.sem id).value = 0
  · rw [State.P_sleeps zero]
    refine owned.congr rfl (fun l => ?_) (by simp)
    by_cases same : SemId.ofLock l = id
    · subst same
      simp
    · simp [same]
  · cases id with
    | plain s =>
      rw [State.P_takes_plain zero]
      exact owned.congr rfl (by simp) (by simp)
    | ofLock l => exact owned.acquire zero

/-- The holder gives the lock up. -/
theorem Release (owned : Owned trace k) {t : T} {l : L} (holds : Holds trace l t) :
    Owned (trace ++ (k.Release t l).2) (k.Release t l).1 := by
  have held := (owned.owner l t).mpr holds
  have alone : ∀ t', Holds trace l t' → t' = t := by
    intro t' other
    have same := (owned.owner l t').mpr other
    rw [held] at same
    exact (Option.some.inj same).symm
  obtain ⟨woken, events⟩ := k.V_events (.ofLock l)
  refine ⟨fun l' t' => ?_, fun l' => ?_⟩
  · have split : (k.Release t l).2 = [.v (.ofLock l) woken] ++ [.releases l t] := by
      simp [State.Release, events]
    rw [split, ← List.append_assoc, holds_snoc, holds_append (by simp) (by simp)]
    by_cases same : l' = l
    · subst same
      have gone : Holds trace l' t' → t = t' := fun other => (alone t' other).symm
      simpa [State.Release] using gone
    · simp [State.Release, same, Ne.symm same, owned.owner]
  · by_cases same : l' = l
    · subst same
      simp [State.Release, owned.value, held]
    · simp [State.Release, same, owned.value]

variable [DecidableEq C]

theorem move (owned : Owned trace k) (disciplined : Disciplined (trace ++ events))
    (move : Move k events k') : Owned (trace ++ events) k' := by
  cases move with
  | memory memory => exact owned.congr rfl (fun _ => rfl) (by simp)
  | goes next stands => exact owned.congr rfl (fun _ => rfl) (by simp)
  | forks stands => exact owned.congr rfl (fun _ => rfl) (by simp)
  | finishes stands => exact owned.congr rfl (fun _ => rfl) (by simp)
  | tests stands => exact owned.P _ _ _ _
  | raises s =>
    obtain ⟨woken, shape⟩ := k.V_events (.plain s)
    rw [shape]
    exact owned.congr State.V_owner (by simp) (by simp)
  | releases l stands =>
    obtain ⟨woken, shape⟩ := k.V_events (.ofLock l)
    simp only [State.Release, shape] at disciplined
    exact owned.Release (released disciplined)
  | waits c l next stands =>
    rename_i t u
    obtain ⟨woken, shape⟩ := k.V_events (.ofLock l)
    simp only [State.Wait, State.Release, shape] at disciplined
    have after : Owned (trace ++ (k.Release t l).2 ++ [.waits c l t]) (k.Wait t c l next).1 :=
      (owned.Release (released disciplined)).congr rfl (fun _ => rfl) (by simp)
    simpa [State.Wait] using after
  | wakes first => exact owned.congr rfl (fun _ => rfl) (by simp)

end Owned

/-! ## Waiting for a condition -/

section
variable [DecidableEq C]

/-- The threads that started to wait on `c`, in that order. -/
def arrivals (c : C) (trace : List (Event T S L C)) : List T :=
  trace.filterMap fun
    | .waits c' _ t => if c' = c then some t else none
    | _ => none

/-- The threads that `Signal` and `Broadcast` on `c` took from the queue, in
that order. -/
def departures (c : C) (trace : List (Event T S L C)) : List T :=
  trace.filterMap fun
    | .wakes c' t => if c' = c then some t else none
    | _ => none

/-- The queue of a condition is first in, first out. -/
def InOrder (c : C) (trace : List (Event T S L C)) (k : State T S L C U W) : Prop :=
  arrivals c trace = departures c trace ++ k.queue c

theorem InOrder.congr {c : C} {trace events : List (Event T S L C)} {k k' : State T S L C U W}
    (order : InOrder c trace k) (queues : k'.queue c = k.queue c)
    (none : arrivals c events = [] ∧ departures c events = []) :
    InOrder c (trace ++ events) k' := by
  have before : arrivals c trace = departures c trace ++ k.queue c := order
  unfold InOrder arrivals departures at *
  simp [none.1, none.2, before, queues]

variable [DecidableEq T] [DecidableEq S] [DecidableEq L]

private theorem P_silent (c : C) {k : State T S L C U W} {t : T} {id : SemId S L}
    {inWait : Option C} {next : U} : arrivals c (k.P t id inWait next).2 = [] ∧
      departures c (k.P t id inWait next).2 = [] := by
  by_cases zero : (k.sem id).value = 0
  · simp [State.P_sleeps zero, arrivals, departures]
  · cases id with
    | plain s => simp [State.P_takes_plain zero, arrivals, departures]
    | ofLock l => cases inWait <;> simp [State.P_takes_lock zero, arrivals, departures]

theorem InOrder.move {c : C} {trace events : List (Event T S L C)} {k k' : State T S L C U W}
    (order : InOrder c trace k) (move : Move k events k') : InOrder c (trace ++ events) k' := by
  cases move with
  | memory memory => exact order.congr rfl (by simp [arrivals, departures])
  | goes next stands => exact order.congr rfl (by simp [arrivals, departures])
  | forks stands => exact order.congr rfl (by simp [arrivals, departures])
  | finishes stands => exact order.congr rfl (by simp [arrivals, departures])
  | tests stands => exact order.congr (by rw [State.P_queue]) (P_silent c)
  | raises s =>
    obtain ⟨woken, shape⟩ := k.V_events (.plain s)
    exact order.congr (by simp) (by simp [shape, arrivals, departures])
  | releases l stands =>
    obtain ⟨woken, shape⟩ := k.V_events (.ofLock l)
    exact order.congr (by simp [State.Release]) (by simp [State.Release, shape, arrivals, departures])
  | waits c' l next stands =>
    obtain ⟨woken, shape⟩ := k.V_events (.ofLock l)
    have before : arrivals c trace = departures c trace ++ k.queue c := order
    by_cases same : c' = c
    · subst same
      unfold InOrder arrivals departures at *
      simp [State.Wait, State.Release, shape, before]
    · exact order.congr (by simp [State.Wait, State.Release, Ne.symm same])
        (by simp [State.Wait, State.Release, shape, arrivals, departures, same])
  | wakes first =>
    rename_i c' t rest
    have before : arrivals c trace = departures c trace ++ k.queue c := order
    by_cases same : c' = c
    · subst same
      unfold InOrder arrivals departures at *
      simp [before, first]
    · exact order.congr (by simp [Ne.symm same]) (by simp [arrivals, departures, same])

end

/-! ## The waits of one thread -/

section
variable [DecidableEq T]

/-- The start, the wake-up and the return of a `Wait` by `t`. -/
def Event.ofWait (t : T) : Event T S L C → Bool
  | .waits _ _ t' | .wakes _ t' | .returns _ _ t' => t' = t
  | _ => false

/-- Waits that are over: each was started, was ended by one wake-up, and returned. -/
inductive Waited (t : T) : List (Event T S L C) → Prop where
  | none : Waited t []
  | more {history : List (Event T S L C)} {c : C} {l : L} (before : Waited t history) :
      Waited t (history ++ [.waits c l t, .wakes c t, .returns c l t])

/-- The part of a `Wait` that a thread in this phase has behind it. -/
def Phase.waited (t : T) : Phase S L C U → List (Event T S L C)
  | .waiting c l _ => [.waits c l t]
  | .signalled c l _ | .queued (.ofLock l) (some c) _ | .woken (.ofLock l) (some c) _ =>
    [.waits c l t, .wakes c t]
  | _ => []

/-- The history of a thread's waits: those that are over, then the open one. -/
def WaitsInTurn (t : T) (trace : List (Event T S L C)) (k : State T S L C U W) : Prop :=
  ∃ history, Waited t history ∧ trace.filter (Event.ofWait t) = history ++ (k.phase t).waited t

namespace WaitsInTurn

variable {t : T} {trace events : List (Event T S L C)} {k k' : State T S L C U W}

theorem congr (turn : WaitsInTurn t trace k)
    (phases : (k'.phase t).waited t = (k.phase t).waited t)
    (silent : events.filter (Event.ofWait t) = []) : WaitsInTurn t (trace ++ events) k' := by
  obtain ⟨history, ended, shape⟩ := turn
  exact ⟨history, ended, by simp [silent, shape, phases]⟩

/-- Another thread's phase is set. -/
private theorem setPhase {t' : T} {phase : Phase S L C U} (turn : WaitsInTurn t trace k)
    (same : t = t' → phase.waited t = (k.phase t).waited t)
    (silent : events.filter (Event.ofWait t) = []) :
    WaitsInTurn t (trace ++ events) (k.setPhase t' phase) := by
  refine turn.congr ?_ silent
  by_cases at_t : t = t'
  · subst at_t
    simp [same rfl]
  · simp [at_t]

variable [DecidableEq S] [DecidableEq L]

private theorem P (turn : WaitsInTurn t trace k) {t' : T} {id : SemId S L} {inWait : Option C}
    {next : U} (tests : (k.phase t').Tests id inWait next) :
    WaitsInTurn t (trace ++ (k.P t' id inWait next).2) (k.P t' id inWait next).1 := by
  have open_wait : ∀ phase : Phase S L C U, phase.Tests id inWait next →
      phase.waited t = (Phase.queued (U := U) id inWait next).waited t := by
    intro phase tests
    cases tests with
    | first => cases id <;> rfl
    | again => cases id <;> cases inWait <;> rfl
    | inWait => rfl
  by_cases zero : (k.sem id).value = 0
  · rw [State.P_sleeps zero]
    exact turn.setPhase (fun same => by subst same; exact (open_wait _ tests).symm) rfl
  · cases id with
    | plain s =>
      rw [State.P_takes_plain zero]
      exact turn.setPhase (fun same => by subst same; rw [open_wait _ tests]; rfl)
        rfl
    | ofLock l =>
      rw [State.P_takes_lock zero]
      by_cases same : t = t'
      · subst same
        cases inWait with
        | none =>
          exact turn.setPhase (fun _ => by rw [open_wait _ tests]; rfl) rfl
        | some c =>
          -- the open wait is closed by its return
          obtain ⟨history, ended, shape⟩ := turn
          rw [open_wait _ tests] at shape
          refine ⟨history ++ [.waits c l t, .wakes c t, .returns c l t], ended.more, ?_⟩
          simp [shape, Event.ofWait, Phase.waited]
      · refine turn.congr (by simp [same]) ?_
        cases inWait <;> simp [Event.ofWait, Ne.symm same]

private theorem V (turn : WaitsInTurn t trace k) (valid : k.Queued) (id : SemId S L) :
    WaitsInTurn t (trace ++ (k.V id).2) (k.V id).1 := by
  cases shape : (k.sem id).queue with
  | nil =>
    rw [State.V_alone shape]
    exact turn.congr rfl rfl
  | cons t' rest =>
    have asleep : (k.phase t').place = some (.sem id) :=
      (valid.member (.sem id) t').mp (by simp [State.line, shape])
    rw [State.V_wakes shape]
    refine turn.setPhase (fun same => ?_) rfl
    subst same
    rw [State.setSem_phase]
    cases at_t : k.phase t <;> simp [at_t, Phase.place] at asleep
    rename_i inWait _
    cases id <;> cases inWait <;> simp [asleep, Phase.readied, Phase.waited]

private theorem Release (turn : WaitsInTurn t trace k) (valid : k.Queued) (t' : T) (l : L) :
    WaitsInTurn t (trace ++ (k.Release t' l).2) (k.Release t' l).1 := by
  have released : WaitsInTurn t (trace ++ (k.V (.ofLock l)).2 ++ [.releases l t'])
      (k.Release t' l).1 := (turn.V valid (.ofLock l)).congr rfl rfl
  simpa [State.Release] using released

variable [DecidableEq C]

theorem move (turn : WaitsInTurn t trace k) (valid : k.Queued) (move : Move k events k') :
    WaitsInTurn t (trace ++ events) k' := by
  cases move with
  | memory memory => exact turn.congr rfl rfl
  | goes next stands => exact turn.setPhase (fun same => by subst same; rw [stands]; rfl) rfl
  | forks stands => exact turn.setPhase (fun same => by subst same; rw [stands]; rfl) rfl
  | finishes stands => exact turn.setPhase (fun same => by subst same; rw [stands]; rfl) rfl
  | tests stands => exact turn.P stands
  | raises s => exact turn.V valid _
  | releases l stands => exact turn.Release valid _ l
  | waits c l next stands =>
    rename_i t' u
    obtain ⟨history, ended, shape⟩ := turn.Release valid t' l
    have still : (k.Release t' l).1.phase t' = .running u := by
      rw [← stands]
      exact valid.V_phase (.ofLock l) (by rw [stands]; rfl)
    by_cases same : t = t'
    · subst same
      refine ⟨history, ended, ?_⟩
      rw [still] at shape
      have events : (k.Wait t c l next).2 = (k.Release t l).2 ++ [.waits c l t] := rfl
      rw [events, ← List.append_assoc, List.filter_append, shape]
      simp [State.Wait, Event.ofWait, Phase.waited]
    · have before : WaitsInTurn t (trace ++ (k.Release t' l).2) (k.Release t' l).1 :=
        ⟨history, ended, shape⟩
      have kept : WaitsInTurn t (trace ++ (k.Release t' l).2 ++ [.waits c l t'])
          (k.Wait t' c l next).1 :=
        before.congr (by simp [State.Wait, same]) (by simp [Event.ofWait, Ne.symm same])
      simpa [State.Wait] using kept
  | wakes first =>
    rename_i c t' rest
    have asleep : (k.phase t').place = some (.cond c) :=
      (valid.member (.cond c) t').mp (by simp [State.line, first])
    by_cases same : t = t'
    · subst same
      obtain ⟨history, ended, shape⟩ := turn
      refine ⟨history, ended, ?_⟩
      cases at_t : k.phase t <;> simp [at_t, Phase.place] at asleep
      simp [shape, at_t, asleep, Event.ofWait, Phase.readied, Phase.waited]
    · exact turn.congr (by simp [same]) (by simp [Event.ofWait, Ne.symm same])

end WaitsInTurn

end

/-! ## What a wait begins and ends with -/

/-- The event that comes right before this one: a thread gives up its lock as it
starts to wait, and has it again as its wait returns. -/
def Event.follows : Event T S L C → Option (Event T S L C)
  | .waits _ l t => some (.releases l t)
  | .returns _ l t => some (.acquires l t)
  | _ => none

/-- Every wait of the trace begins and ends as it should. -/
def Bracketed (trace : List (Event T S L C)) : Prop :=
  ∀ before after event previous, trace = before ++ event :: after →
    event.follows = some previous → ∃ front, before = front ++ [previous]

theorem Bracketed.append {trace events : List (Event T S L C)} (first : Bracketed trace)
    (second : Bracketed events) : Bracketed (trace ++ events) := by
  intro before after event previous split follows
  obtain ⟨front, rfl, tail⟩ | ⟨middle, rfl, tail⟩ := List.append_eq_append_iff.mp split
  · obtain ⟨start, rfl⟩ := second front after event previous tail follows
    exact ⟨trace ++ start, by simp⟩
  · cases middle with
    | nil =>
      obtain ⟨start, empty⟩ := second [] after event previous (by simpa using tail.symm) follows
      simp at empty
    | cons first_event middle =>
      obtain ⟨rfl, -⟩ := List.cons.inj tail
      exact first before middle event previous rfl follows

private theorem bracketed_of_silent {events : List (Event T S L C)}
    (silent : ∀ event ∈ events, event.follows = none) : Bracketed events := by
  rintro before after event previous rfl follows
  simp [silent event (by simp)] at follows

/-- An event right behind the one it follows. -/
private theorem Bracketed.snoc {events : List (Event T S L C)} {previous event : Event T S L C}
    (before : Bracketed (events ++ [previous])) (follows : event.follows = some previous) :
    Bracketed (events ++ [previous] ++ [event]) := by
  intro front after event' previous' split follows'
  cases after using List.reverseRecOn with
  | nil =>
    obtain ⟨rfl, last⟩ := List.append_inj' split rfl
    obtain ⟨rfl, -⟩ := List.cons.inj last
    rw [follows] at follows'
    exact ⟨events, by rw [Option.some.inj follows']⟩
  | append_singleton after last _ =>
    have shape : events ++ [previous] ++ [event] = (front ++ event' :: after) ++ [last] := by
      rw [split]
      simp
    obtain ⟨same, -⟩ := List.append_inj' shape rfl
    exact before front after event' previous' same follows'

section
variable [DecidableEq T] [DecidableEq S] [DecidableEq L] [DecidableEq C]

theorem Bracketed.move {events : List (Event T S L C)} {k k' : State T S L C U W}
    (move : Move k events k') : Bracketed events := by
  cases move with
  | memory memory => exact bracketed_of_silent (by simp)
  | goes next stands => exact bracketed_of_silent (by simp)
  | forks stands => exact bracketed_of_silent (by simp [Event.follows])
  | finishes stands => exact bracketed_of_silent (by simp [Event.follows])
  | tests stands =>
    rename_i t id inWait next
    by_cases zero : (k.sem id).value = 0
    · rw [State.P_sleeps zero]
      exact bracketed_of_silent (by simp)
    · cases id with
      | plain s =>
        rw [State.P_takes_plain zero]
        exact bracketed_of_silent (by simp [Event.follows])
      | ofLock l =>
        have taken : Bracketed [.p (.ofLock l) t, (.acquires l t : Event T S L C)] :=
          bracketed_of_silent (by simp [Event.follows])
        rw [State.P_takes_lock zero]
        cases inWait with
        | none => exact taken
        | some c => exact @Bracketed.snoc _ _ _ _ [.p (.ofLock l) t] _ _ taken rfl
  | raises s =>
    obtain ⟨woken, shape⟩ := k.V_events (.plain s)
    rw [shape]
    exact bracketed_of_silent (by simp [Event.follows])
  | releases l stands =>
    obtain ⟨woken, shape⟩ := k.V_events (.ofLock l)
    simp only [State.Release, shape]
    exact bracketed_of_silent (by simp [Event.follows])
  | waits c l next stands =>
    rename_i t u
    obtain ⟨woken, shape⟩ := k.V_events (.ofLock l)
    have released : Bracketed [.v (.ofLock l) woken, (.releases l t : Event T S L C)] :=
      bracketed_of_silent (by simp [Event.follows])
    simp only [State.Wait, State.Release, shape]
    exact @Bracketed.snoc _ _ _ _ [.v (.ofLock l) woken] _ _ released rfl
  | wakes first => exact bracketed_of_silent (by simp [Event.follows])

end

/-! ## Signal and Broadcast -/

section
variable [DecidableEq T] [DecidableEq C]

/-- What `Broadcast` leaves behind. -/
structure Emptied (c : C) (k k' : State T S L C U W) : Prop where
  sem : k'.sem = k.sem
  owner : k'.owner = k.owner
  queue : k'.queue = Function.update k.queue c []
  woken (t : T) : t ∈ k.queue c → k'.phase t = (k.phase t).readied
  others (t : T) : t ∉ k.queue c → k'.phase t = k.phase t

/-- `Broadcast` wakes the whole queue, in its order. -/
theorem State.Broadcast_spec (k : State T S L C U W) (c : C) (distinct : (k.queue c).Nodup) :
    (k.Broadcast c).2 = (k.queue c).map (.wakes c) ∧ Emptied c k (k.Broadcast c).1 := by
  fun_induction State.Broadcast k c with
  | case1 k empty =>
    have none : k.queue c = [] := List.isEmpty_iff.mp empty
    refine ⟨by simp [none], rfl, rfl, ?_, by simp [none], fun _ _ => rfl⟩
    rw [← none, Function.update_eq_self]
  | case2 k nonempty rest ih =>
    cases shape : k.queue c with
    | nil => simp [shape] at nonempty
    | cons t waiting =>
      rw [shape, List.nodup_cons] at distinct
      have signalled := State.Signal_wakes shape
      have left : (k.Signal c).1.queue c = waiting := by simp [signalled]
      obtain ⟨events, emptied⟩ := ih (by rw [left]; exact distinct.2)
      rw [left] at events
      refine ⟨?_, emptied.sem.trans (by simp [signalled]), emptied.owner.trans (by simp [signalled]),
        emptied.queue.trans ?_, fun t' inside => ?_, fun t' out => ?_⟩
      · show (k.Signal c).2 ++ ((k.Signal c).1.Broadcast c).2 = _
        rw [events]
        simp [signalled]
      · simp [signalled, setQueue]
      · rw [shape] at inside
        rcases List.mem_cons.mp inside with rfl | later
        · have phase := emptied.others t' (by rw [left]; exact distinct.1)
          exact phase.trans (by simp [signalled])
        · have other : t' ≠ t := by
            rintro rfl
            exact distinct.1 later
          have phase := emptied.woken t' (by rw [left]; exact later)
          exact phase.trans (by simp [signalled, other])
      · simp only [shape, List.mem_cons, not_or] at out
        have phase := emptied.others t' (by rw [left]; exact out.2)
        exact phase.trans (by simp [signalled, out.1])

end

section
variable [DecidableEq T] [DecidableEq S] [DecidableEq L] [DecidableEq C]

/-- A `Signal` takes the thread at the front of the queue, a `Broadcast` all of
them in the queue's order; each makes exactly those ready. -/
def WakesInOrder (k : State T S L C U W) : Prop :=
  ∀ (t : T) (u next : U) (memory : W) (c : C) (l : L), k.phase t = .running u →
    let signal := { k with memory := memory }.perform t (.signal c l) next
    let broadcast := { k with memory := memory }.perform t (.broadcast c l) next
    (k.queue c = [] → signal.2 = [] ∧ ∀ t', t' ≠ t → signal.1.phase t' = k.phase t') ∧
    (∀ first rest, k.queue c = first :: rest → signal.2 = [.wakes c first] ∧
      signal.1.queue c = rest ∧ signal.1.phase first = (k.phase first).readied ∧
      ∀ t', t' ≠ first → t' ≠ t → signal.1.phase t' = k.phase t') ∧
    broadcast.2 = (k.queue c).map (.wakes c) ∧ broadcast.1.queue c = [] ∧
    (∀ t' ∈ k.queue c, broadcast.1.phase t' = (k.phase t').readied) ∧
    ∀ t' ∉ k.queue c, t' ≠ t → broadcast.1.phase t' = k.phase t'

theorem State.Queued.wakesInOrder {k : State T S L C U W} (valid : k.Queued) : WakesInOrder k := by
  intro t u next memory c l stands signal broadcast
  have awake : ∀ t' ∈ k.queue c, t' ≠ t := by
    rintro t' inside rfl
    have asleep := (valid.member (.cond c) t').mp inside
    simp [stands, Phase.place] at asleep
  obtain ⟨events, emptied⟩ := State.Broadcast_spec
    ({ k with memory := memory }.setPhase t (.running next)) c (valid.nodup (.cond c))
  refine ⟨fun empty => ?_, fun first rest shape => ?_, events, ?_, fun t' inside => ?_,
    fun t' out other => ?_⟩
  · have quiet : signal = ({ k with memory := memory }.setPhase t (.running next), []) :=
      State.Signal_none empty
    rw [quiet]
    exact ⟨rfl, fun t' other => State.setPhase_other _ other⟩
  · have woken : signal = (({ k with memory := memory }.setPhase t (.running next)).setQueue c
        rest |>.ready first, [.wakes c first]) := State.Signal_wakes shape
    have other := awake first (by simp [shape])
    rw [woken]
    refine ⟨rfl, by simp, by simp [other], fun t' apart running => ?_⟩
    simp [apart, running]
  · have queues := congrFun emptied.queue c
    rwa [Function.update_self] at queues
  · have phase := emptied.woken t' inside
    rwa [State.setPhase_other _ (awake t' inside)] at phase
  · have phase := emptied.others t' out
    rwa [State.setPhase_other _ other] at phase

/-- Under every interleaving of threads that release only locks they hold: the
owner of a lock is its one holder; conditions wake in the order of arrival,
`Signal` one thread and `Broadcast` all; each wait starts by giving the lock up,
is ended by exactly one wake-up, and returns holding the lock. -/
theorem monitors_exclude_and_wake_in_order (code : Code T S L C U W) {start k : State T S L C U W}
    {trace : List (Event T S L C)} (starts : Starts start)
    (run : Runs (Step code) start trace k) (disciplined : Disciplined trace) :
    (∀ l t, k.owner l = some t ↔ Holds trace l t) ∧
    (∀ l t t', Holds trace l t → Holds trace l t' → t = t') ∧
    (∀ c, arrivals c trace = departures c trace ++ k.queue c) ∧ WakesInOrder k ∧
    (∀ t, WaitsInTurn t trace k) ∧
    (∀ before after c l t, trace = before ++ .waits c l t :: after →
      ∃ front, before = front ++ [.releases l t]) ∧
    ∀ before after c l t, trace = before ++ .returns c l t :: after → Holds before l t := by
  have moves : Runs Move start trace k := run.expand fun step => step.moves
  have valid := starts.queued_run moves
  have owned : Owned trace k := by
    refine moves.invariant (P := fun trace k => Disciplined trace → Owned trace k) ?_ ?_ disciplined
    · intro _
      refine ⟨fun l t => ?_, fun l => ?_⟩
      · simp [(starts.free l).2, not_holds_nil]
      · simp [(starts.free l).1, (starts.free l).2]
    · intro trace k events k' _ owned move disciplined
      exact (owned disciplined.left).move disciplined move
  have turns : ∀ t, WaitsInTurn t trace k := by
    intro t
    refine (moves.invariant (P := fun trace k => k.Queued ∧ WaitsInTurn t trace k) ?_ ?_).2
    · refine ⟨starts.queued, [], .none, ?_⟩
      obtain ⟨u, fresh | running⟩ := starts.phase t
      · simp [fresh, Phase.waited]
      · simp [running, Phase.waited]
    · rintro trace k events k' - ⟨valid, turn⟩ move
      exact ⟨valid.move move, turn.move valid move⟩
  have bracketed : Bracketed trace := by
    refine moves.invariant (P := fun trace _ => Bracketed trace)
      (bracketed_of_silent (by simp)) ?_
    intro trace k events k' _ bracketed move
    exact bracketed.append (Bracketed.move move)
  refine ⟨owned.owner, fun l t t' first second => ?_, fun c => ?_, valid.wakesInOrder, turns,
    fun before after c l t split => bracketed before after _ _ split rfl,
    fun before after c l t split => ?_⟩
  · have same := (owned.owner l t).mpr first
    rw [(owned.owner l t').mpr second] at same
    exact (Option.some.inj same).symm
  · refine moves.invariant (P := fun trace k => InOrder c trace k) ?_ ?_
    · simp [InOrder, arrivals, departures, starts.conditions c]
    · intro trace k events k' _ order move
      exact order.move move
  · obtain ⟨front, rfl⟩ := bracketed before after _ _ split rfl
    exact holds_snoc.mpr (.inl rfl)

end

/-! A thread waits, a second one signals it, and it returns with the lock. -/

inductive Meets : Bool → Nat → Unit → Op Bool Empty Unit Unit → Unit → Nat → Prop where
  | acquires {t} : Meets t 0 () (.acquire ()) () 1
  | waits : Meets false 1 () (.wait () ()) () 2
  | signals : Meets true 1 () (.signal () ()) () 2
  | releases {t} : Meets t 2 () (.release ()) () 3

def meeting : Code Bool Empty Unit Unit Nat Unit where
  segment := Meets
  handler _ _ _ := False

def meetingStart : State Bool Empty Unit Unit Nat Unit where
  sem _ := { value := 1, queue := [] }
  owner _ := none
  queue _ := []
  phase _ := .running 0
  memory := ()

theorem meeting_starts : Starts meetingStart where
  value _ := Int.one_nonneg
  asleep _ := rfl
  free _ := ⟨rfl, rfl⟩
  conditions _ := rfl
  phase _ := ⟨0, .inr rfl⟩

/-- One more event keeps a trace disciplined unless it releases what is not held. -/
theorem Disciplined.snoc {trace : List (Event T S L C)} {event : Event T S L C}
    (disciplined : Disciplined trace) (held : ∀ l t, event = .releases l t → Holds trace l t) :
    Disciplined (trace ++ [event]) := by
  intro before after l t split
  cases after using List.reverseRecOn with
  | nil =>
    obtain ⟨rfl, last⟩ := List.append_inj' split rfl
    exact held l t (List.cons.inj last).1
  | append_singleton after last _ =>
    have shape : trace ++ [event] = (before ++ .releases l t :: after) ++ [last] := by
      rw [split]
      simp
    exact disciplined before after l t (List.append_inj' shape rfl).1

def meetingTrace : List (Event Bool Empty Unit Unit) :=
  [] ++ [.p (.ofLock ()) false] ++ [.acquires () false] ++ [.v (.ofLock ()) none] ++
    [.releases () false] ++ [.waits () () false] ++ [.p (.ofLock ()) true] ++ [.acquires () true] ++
    [.wakes () false] ++ [.v (.ofLock ()) none] ++ [.releases () true] ++ [.p (.ofLock ()) false] ++
    [.acquires () false] ++ [.returns () () false]

theorem meeting_disciplined : Disciplined meetingTrace := by
  repeat' refine Disciplined.snoc ?_ ?_
  · intro before after l t split
    simp at split
  all_goals
    intro l t same
    cases same
  · exact ⟨[.p (.ofLock ()) false], [.v (.ofLock ()) none], rfl, by simp⟩
  · exact ⟨[.p (.ofLock ()) false, .acquires () false, .v (.ofLock ()) none, .releases () false,
      .waits () () false, .p (.ofLock ()) true], [.wakes () false, .v (.ofLock ()) none], rfl, by simp⟩

theorem monitors_exclude_and_wake_in_order_met :
    ∃ k, Runs (Step meeting) meetingStart meetingTrace k ∧ Disciplined meetingTrace ∧
      (k.owner () = some false ↔ Holds meetingTrace () false) := by
  have enters : Runs (Step meeting) meetingStart _ _ :=
    .next .start (.segment (t := false) rfl .acquires (by simp))
  have waits := enters.next (.segment (t := false) rfl .waits (by simp))
  have follows := waits.next (.segment (t := true) rfl .acquires (by simp))
  have signals := follows.next (.segment (t := true) rfl .signals (by simp))
  have leaves := signals.next (.segment (t := true) rfl .releases (by simp))
  have returns := leaves.next (.reacquire (t := false) rfl)
  have run : Runs (Step meeting) meetingStart meetingTrace _ := returns
  exact ⟨_, run, meeting_disciplined,
    (monitors_exclude_and_wake_in_order meeting meeting_starts run meeting_disciplined).1 () false⟩

end Nachos.Threads
