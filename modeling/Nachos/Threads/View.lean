import Nachos.Threads.SynchProofs

/-! A coarser view of the threads: how far each has come and the values of the
semaphores, without the queues. Every step of the threads is a step of the view,
in which a sleeping thread may find the semaphore free at any moment. Safety
properties of a piece of kernel code are proved in the view. -/
namespace Nachos.Threads

variable {T S L C U W : Type}

/-- How far a thread has come. Whether it is asleep there, or was made ready and
has yet to run, is left open. -/
inductive Stage (S L C U : Type) where
  | fresh (next : U)
  | at (next : U)
  | inP (id : SemId S L) (next : U)
  | inWait (c : C) (l : L) (next : U)
  | finished
deriving DecidableEq

def Phase.stage : Phase S L C U → Stage S L C U
  | .fresh next => .fresh next
  | .running next => .at next
  | .queued id _ next | .woken id _ next => .inP id next
  | .waiting c l next | .signalled c l next => .inWait c l next
  | .finished => .finished

@[simp] theorem Phase.stage_readied (phase : Phase S L C U) : phase.readied.stage = phase.stage := by
  cases phase <;> rfl

structure View (T S L C U W : Type) where
  stage : T → Stage S L C U
  value : SemId S L → Int
  memory : W

def State.view (k : State T S L C U W) : View T S L C U W where
  stage t := (k.phase t).stage
  value id := (k.sem id).value
  memory := k.memory

/-- The semaphore an operation takes a unit of. -/
def Op.takes : Op T S L C → Option (SemId S L)
  | .p s => some (.plain s)
  | .acquire l => some (.ofLock l)
  | _ => none

/-- The semaphore an operation adds a unit to. -/
def Op.raises : Op T S L C → Option (SemId S L)
  | .v s => some (.plain s)
  | .release l => some (.ofLock l)
  | _ => none

/-- An operation that touches no semaphore and leaves the thread running. -/
def Op.quiet : Op T S L C → Bool
  | .tick | .yield | .signal _ _ | .broadcast _ _ => true
  | _ => false

namespace View

section
variable [DecidableEq T]

def setStage (v : View T S L C U W) (t : T) (stage : Stage S L C U) : View T S L C U W :=
  { v with stage := Function.update v.stage t stage }

/-- A stage that is set to what it is. -/
theorem setStage_self {v : View T S L C U W} {t : T} {stage : Stage S L C U}
    (same : v.stage t = stage) : v.setStage t stage = v := by
  simp [setStage, ← same]

variable [DecidableEq S] [DecidableEq L]

def add (v : View T S L C U W) (id : SemId S L) (amount : Int) : View T S L C U W :=
  { v with value := Function.update v.value id (v.value id + amount) }

/-- One step, as far as the view shows it. -/
inductive Step (code : Code T S L C U W) : View T S L C U W → View T S L C U W → Prop where
  | still {v : View T S L C U W} : Step code v v
  | goes {v : View T S L C U W} {t : T} {u next : U} {op : Op T S L C} {memory : W}
      (stands : v.stage t = .at u) (does : code.segment t u v.memory op memory next)
      (quiet : op.quiet = true) :
      Step code v ({ v with memory := memory }.setStage t (.at next))
  | takes {v : View T S L C U W} {t : T} {u next : U} {op : Op T S L C} {memory : W}
      {id : SemId S L} (stands : v.stage t = .at u)
      (does : code.segment t u v.memory op memory next) (takes : op.takes = some id)
      (nonzero : v.value id ≠ 0) :
      Step code v (({ v with memory := memory }.add id (-1)).setStage t (.at next))
  | sleeps {v : View T S L C U W} {t : T} {u next : U} {op : Op T S L C} {memory : W}
      {id : SemId S L} (stands : v.stage t = .at u)
      (does : code.segment t u v.memory op memory next) (takes : op.takes = some id)
      (zero : v.value id = 0) :
      Step code v ({ v with memory := memory }.setStage t (.inP id next))
  | retakes {v : View T S L C U W} {t : T} {next : U} {id : SemId S L}
      (stands : v.stage t = .inP id next) (nonzero : v.value id ≠ 0) :
      Step code v ((v.add id (-1)).setStage t (.at next))
  | raises {v : View T S L C U W} {t : T} {u next : U} {op : Op T S L C} {memory : W}
      {id : SemId S L} (stands : v.stage t = .at u)
      (does : code.segment t u v.memory op memory next) (raises : op.raises = some id) :
      Step code v (({ v with memory := memory }.add id 1).setStage t (.at next))
  | waits {v : View T S L C U W} {t : T} {u next : U} {c : C} {l : L} {memory : W}
      (stands : v.stage t = .at u) (does : code.segment t u v.memory (.wait c l) memory next) :
      Step code v (({ v with memory := memory }.add (.ofLock l) 1).setStage t (.inWait c l next))
  | returns {v : View T S L C U W} {t : T} {c : C} {l : L} {next : U}
      (stands : v.stage t = .inWait c l next) (nonzero : v.value (.ofLock l) ≠ 0) :
      Step code v ((v.add (.ofLock l) (-1)).setStage t (.at next))
  | reacquires {v : View T S L C U W} {t : T} {c : C} {l : L} {next : U}
      (stands : v.stage t = .inWait c l next) (zero : v.value (.ofLock l) = 0) :
      Step code v (v.setStage t (.inP (.ofLock l) next))
  | forks {v : View T S L C U W} {t child : T} {u next entry : U} {memory : W}
      (stands : v.stage t = .at u) (does : code.segment t u v.memory (.fork child) memory next)
      (fresh : v.stage child = .fresh entry) :
      Step code v (({ v with memory := memory }.setStage t (.at next)).setStage child (.at entry))
  | finishes {v : View T S L C U W} {t : T} {u next : U} {memory : W}
      (stands : v.stage t = .at u) (does : code.segment t u v.memory .finish memory next) :
      Step code v ({ v with memory := memory }.setStage t .finished)
  | interrupt {v : View T S L C U W} {memory : W} (fires : code.handler v.memory none memory) :
      Step code v { v with memory := memory }
  | interrupts {v : View T S L C U W} {s : S} {memory : W}
      (fires : code.handler v.memory (some s) memory) :
      Step code v ({ v with memory := memory }.add (.plain s) 1)

/-- No semaphore goes below zero. -/
theorem Step.nonneg {code : Code T S L C U W}
    {v v' : View T S L C U W} (step : Step code v v')
    (nonneg : ∀ id, 0 ≤ v.value id) : ∀ id, 0 ≤ v'.value id := by
  have raised : ∀ id' : SemId S L, ∀ id, 0 ≤ Function.update v.value id' (v.value id' + 1) id := by
    intro id' id
    by_cases same : id = id'
    · subst same
      have before := nonneg id
      rw [Function.update_self]
      omega
    · rw [Function.update_of_ne same]
      exact nonneg id
  have lowered : ∀ id' : SemId S L, v.value id' ≠ 0 →
      ∀ id, 0 ≤ Function.update v.value id' (v.value id' + -1) id := by
    intro id' nonzero id
    by_cases same : id = id'
    · subst same
      have before := nonneg id
      rw [Function.update_self]
      omega
    · rw [Function.update_of_ne same]
      exact nonneg id
  cases step with
  | still => exact nonneg
  | goes stands does quiet => exact nonneg
  | takes stands does takes nonzero => exact lowered _ nonzero
  | sleeps stands does takes zero => exact nonneg
  | retakes stands nonzero => exact lowered _ nonzero
  | raises stands does raises => exact raised _
  | waits stands does => exact raised _
  | returns stands nonzero => exact lowered _ nonzero
  | reacquires stands zero => exact nonneg
  | forks stands does fresh => exact nonneg
  | finishes stands does => exact nonneg
  | interrupt fires => exact nonneg
  | interrupts fires => exact raised _

end

end View

namespace State

variable {k k' : State T S L C U W} {t : T}

theorem view_ext (stages : ∀ t, (k.phase t).stage = (k'.phase t).stage)
    (values : ∀ id, (k.sem id).value = (k'.sem id).value) (memory : k.memory = k'.memory) :
    k.view = k'.view := by
  simp only [view, View.mk.injEq]
  exact ⟨funext stages, funext values, memory⟩

section
variable [DecidableEq S] [DecidableEq L]

theorem view_setSem {id : SemId S L} {sem : Semaphore T} {amount : Int}
    (value : sem.value = (k.sem id).value + amount) :
    (k.setSem id sem).view = k.view.add id amount := by
  simp only [view, View.add, View.mk.injEq]
  refine ⟨rfl, funext fun id' => ?_, rfl⟩
  by_cases same : id' = id
  · subst same
    simp [value]
  · simp [same]

end

section
variable [DecidableEq T]

theorem view_setPhase (phase : Phase S L C U) :
    (k.setPhase t phase).view = k.view.setStage t phase.stage := by
  simp only [view, View.setStage, View.mk.injEq]
  refine ⟨funext fun t' => ?_, rfl, rfl⟩
  by_cases same : t' = t
  · simp [same]
  · simp [same]

theorem view_ready (k : State T S L C U W) (t : T) : (k.ready t).view = k.view := by
  refine view_ext (fun t' => ?_) (fun _ => rfl) rfl
  by_cases same : t' = t
  · simp [same]
  · simp [same]

variable [DecidableEq S] [DecidableEq L]

theorem view_V (k : State T S L C U W) (id : SemId S L) : (k.V id).1.view = k.view.add id 1 := by
  cases shape : (k.sem id).queue with
  | nil =>
    rw [V_alone shape]
    exact view_setSem rfl
  | cons t rest =>
    rw [V_wakes shape, view_ready]
    exact view_setSem rfl

theorem view_P_takes {id : SemId S L} {inWait : Option C} {next : U}
    (nonzero : (k.sem id).value ≠ 0) :
    (k.P t id inWait next).1.view = (k.view.add id (-1)).setStage t (.at next) := by
  cases id with
  | plain s =>
    rw [P_takes_plain nonzero, view_setPhase]
    have lowered : (k.setSem (.plain s) { (k.sem (.plain s)) with
        value := (k.sem (.plain s)).value - 1 }).view = k.view.add (.plain s) (-1) := view_setSem rfl
    rw [lowered]
    rfl
  | ofLock l =>
    rw [P_takes_lock nonzero]
    show (State.setPhase _ t (.running next)).view = _
    have lowered : (k.setSem (.ofLock l) { (k.sem (.ofLock l)) with
        value := (k.sem (.ofLock l)).value - 1 }).view = k.view.add (.ofLock l) (-1) := view_setSem rfl
    rw [view_setPhase, lowered]
    rfl

theorem view_P_sleeps {id : SemId S L} {inWait : Option C} {next : U}
    (zero : (k.sem id).value = 0) :
    (k.P t id inWait next).1.view = k.view.setStage t (.inP id next) := by
  rw [P_sleeps zero, view_setPhase]
  have same : (k.setSem id { (k.sem id) with queue := (k.sem id).queue ++ [t] }).view = k.view := by
    refine view_ext (fun _ => rfl) (fun id' => ?_) rfl
    by_cases same : id' = id
    · subst same
      simp
    · simp [same]
  rw [same]
  rfl

end

section
variable [DecidableEq T] [DecidableEq C]

theorem view_Signal (k : State T S L C U W) (c : C) : (k.Signal c).1.view = k.view := by
  cases shape : k.queue c with
  | nil => rw [Signal_none shape]
  | cons t rest =>
    rw [Signal_wakes shape, view_ready]
    rfl

theorem view_Broadcast (k : State T S L C U W) (c : C) : (k.Broadcast c).1.view = k.view := by
  fun_induction State.Broadcast k c with
  | case1 => rfl
  | case2 k nonempty rest ih => exact ih.trans (view_Signal k c)

end

end State

section
variable [DecidableEq T] [DecidableEq S] [DecidableEq L] [DecidableEq C]
variable {code : Code T S L C U W} {k k' : State T S L C U W} {events : List (Event T S L C)}

private theorem perform_view {t : T} {u next : U} {op : Op T S L C} {memory : W}
    (stands : k.phase t = .running u) (does : code.segment t u k.memory op memory next)
    (once : ∀ child, op = .fork child → ∃ u, k.phase child = .fresh u) :
    View.Step code k.view ({ k with memory := memory }.perform t op next).1.view := by
  have stage : k.view.stage t = .at u := by simp [State.view, stands, Phase.stage]
  have tests : ∀ id, op.takes = some id →
      View.Step code k.view ({ k with memory := memory }.P t id none next).1.view := by
    intro id takes
    by_cases zero : (k.sem id).value = 0
    · have changed : State.view ({ k with memory := memory }.P t id none next).1 = _ :=
        State.view_P_sleeps zero
      rw [changed]
      exact .sleeps stage does takes zero
    · have changed : State.view ({ k with memory := memory }.P t id none next).1 = _ :=
        State.view_P_takes zero
      rw [changed]
      exact .takes stage does takes zero
  have went : State.view ({ k with memory := memory }.setPhase t (.running next)) =
      { k.view with memory := memory }.setStage t (.at next) := State.view_setPhase _
  cases op with
  | tick =>
    show View.Step code k.view (State.view (State.setPhase _ t (.running next)))
    rw [went]
    exact .goes stage does rfl
  | yield =>
    show View.Step code k.view (State.view (State.setPhase _ t (.running next)))
    rw [went]
    exact .goes stage does rfl
  | p s => exact tests (.plain s) rfl
  | acquire l => exact tests (.ofLock l) rfl
  | v s =>
    show View.Step code k.view (State.view (State.V _ (.plain s)).1)
    rw [State.view_V, went]
    exact .raises stage does rfl
  | release l =>
    have changed : State.view (({ k with memory := memory }.setPhase t (.running next)).Release
        t l).1 = _ := State.view_V _ (.ofLock l)
    show View.Step code k.view (State.view (State.Release _ t l).1)
    rw [changed, went]
    exact .raises stage does rfl
  | wait c l =>
    have changed : State.view ({ k with memory := memory }.Wait t c l next).1 =
        (State.view ({ k with memory := memory }.V (.ofLock l)).1).setStage t
          (.inWait c l next) := State.view_setPhase _
    show View.Step code k.view (State.view (State.Wait _ t c l next).1)
    rw [changed, State.view_V]
    exact .waits stage does
  | signal c l =>
    show View.Step code k.view (State.view (State.Signal _ c).1)
    rw [State.view_Signal, went]
    exact .goes stage does rfl
  | broadcast c l =>
    show View.Step code k.view (State.view (State.Broadcast _ c).1)
    rw [State.view_Broadcast, went]
    exact .goes stage does rfl
  | fork child =>
    obtain ⟨entry, fresh⟩ := once child rfl
    have other : child ≠ t := by
      rintro rfl
      simp [stands] at fresh
    have still : ({ k with memory := memory }.setPhase t (.running next)).phase child =
        .fresh entry := by
      simp [other, fresh]
    have forked : ({ k with memory := memory }.perform t (.fork child) next).1 =
        ({ k with memory := memory }.setPhase t (.running next)).setPhase child
          (.running entry) := by
      simp [State.perform, State.Fork, still]
    rw [forked, State.view_setPhase, went]
    exact .forks stage does (by simp [State.view, fresh, Phase.stage])
  | finish =>
    show View.Step code k.view (State.view (State.setPhase _ t .finished))
    rw [State.view_setPhase]
    exact .finishes stage does

/-- Every step is a step of the view. -/
theorem Step.view (step : Step code k events k') : View.Step code k.view k'.view := by
  cases step with
  | segment stands does once => exact perform_view stands does once
  | retest stands =>
    rename_i t id inWait next
    have stage : k.view.stage t = .inP id next := by simp [State.view, stands, Phase.stage]
    by_cases zero : (k.sem id).value = 0
    · rw [State.view_P_sleeps zero, View.setStage_self stage]
      exact .still
    · rw [State.view_P_takes zero]
      exact .retakes stage zero
  | reacquire stands =>
    rename_i t c l next
    have stage : k.view.stage t = .inWait c l next := by simp [State.view, stands, Phase.stage]
    by_cases zero : (k.sem (.ofLock l)).value = 0
    · rw [State.view_P_sleeps zero]
      exact .reacquires stage zero
    · rw [State.view_P_takes zero]
      exact .returns stage zero
  | interrupt fires =>
    rename_i raised memory
    cases raised with
    | none => exact .interrupt fires
    | some s =>
      show View.Step code k.view (State.view (State.V _ (.plain s)).1)
      rw [State.view_V]
      exact .interrupts fires

end

end Nachos.Threads
