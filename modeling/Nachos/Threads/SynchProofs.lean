import Nachos.Threads.Synch

/-! What every interleaving of threads and interrupt handlers keeps true of the
queues and of the values of semaphores.

A step is cut into moves, each the change one call makes to the shared state,
and an invariant is proved move by move. -/
namespace Nachos.Threads
open Effects

variable {T S L C U W : Type}

/-! ## Queues of sleeping threads -/

/-- A queue a thread can sleep in. -/
inductive Queue (S L C : Type) where
  | sem (id : SemId S L)
  | cond (c : C)
deriving DecidableEq

/-- The queue a thread in this phase sleeps in. -/
def Phase.place : Phase S L C U → Option (Queue S L C)
  | .queued id _ _ => some (.sem id)
  | .waiting c _ _ => some (.cond c)
  | _ => none

@[simp] theorem Phase.place_readied (phase : Phase S L C U) : phase.readied.place = none := by
  cases phase <;> rfl

/-- The threads in a queue. -/
def State.line (k : State T S L C U W) : Queue S L C → List T
  | .sem id => (k.sem id).queue
  | .cond c => k.queue c

/-- The queues hold exactly the threads that sleep in them, each once. -/
structure Sleepers (line : Queue S L C → List T) (place : T → Option (Queue S L C)) : Prop where
  member (q : Queue S L C) (t : T) : t ∈ line q ↔ place t = some q
  nodup (q : Queue S L C) : (line q).Nodup

namespace Sleepers

variable {line line' : Queue S L C → List T} {place place' : T → Option (Queue S L C)}

theorem congr (valid : Sleepers line place) (lines : ∀ q, line' q = line q)
    (places : ∀ t, place' t = place t) : Sleepers line' place' where
  member q t := by rw [lines, places, valid.member]
  nodup q := by rw [lines]; exact valid.nodup q

theorem enqueue (valid : Sleepers line place) {q : Queue S L C} {t : T} (awake : place t = none)
    (here : line' q = line q ++ [t]) (elsewhere : ∀ q', q' ≠ q → line' q' = line q')
    (placed : place' t = some q) (others : ∀ t', t' ≠ t → place' t' = place t') :
    Sleepers line' place' := by
  have absent : ∀ q, t ∉ line q := fun q inside => by
    simpa [awake] using (valid.member q t).mp inside
  refine ⟨fun q' t' => ?_, fun q' => ?_⟩
  · by_cases same : t' = t
    · subst same
      by_cases at_q : q' = q
      · simp [at_q, here, placed]
      · simp [elsewhere q' at_q, placed, absent q', Ne.symm at_q]
    · rw [others t' same, ← valid.member]
      by_cases at_q : q' = q
      · simp [at_q, here, same]
      · rw [elsewhere q' at_q]
  · by_cases at_q : q' = q
    · subst at_q
      rw [here]
      exact List.Nodup.append (valid.nodup q') (by simp) (by simpa using absent q')
    · rw [elsewhere q' at_q]
      exact valid.nodup q'

theorem dequeue (valid : Sleepers line place) {q : Queue S L C} {t : T} {rest : List T}
    (first : line q = t :: rest) (here : line' q = rest)
    (elsewhere : ∀ q', q' ≠ q → line' q' = line q') (placed : place' t = none)
    (others : ∀ t', t' ≠ t → place' t' = place t') : Sleepers line' place' := by
  have split : t ∉ rest ∧ rest.Nodup := by
    simpa [first] using valid.nodup q
  have was : place t = some q := (valid.member q t).mp (by simp [first])
  refine ⟨fun q' t' => ?_, fun q' => ?_⟩
  · by_cases same : t' = t
    · subst same
      by_cases at_q : q' = q
      · simp [at_q, here, placed, split.1]
      · have gone : t' ∉ line q' := fun inside => by
          have placed := (valid.member q' t').mp inside
          rw [was] at placed
          exact at_q (Option.some.inj placed).symm
        simp [elsewhere q' at_q, placed, gone]
    · rw [others t' same, ← valid.member]
      by_cases at_q : q' = q
      · simp [at_q, here, first, same]
      · rw [elsewhere q' at_q]
  · by_cases at_q : q' = q
    · subst at_q
      rw [here]
      exact split.2
    · rw [elsewhere q' at_q]
      exact valid.nodup q'

end Sleepers

/-! ## Moves -/

/-- A thread in this phase is about to test the value in the loop of `P`. -/
inductive Phase.Tests : Phase S L C U → SemId S L → Option C → U → Prop where
  | first {u next : U} {id : SemId S L} : Tests (.running u) id none next
  | again {id : SemId S L} {inWait : Option C} {next : U} : Tests (.woken id inWait next) id inWait next
  | inWait {c : C} {l : L} {next : U} : Tests (.signalled c l next) (.ofLock l) (some c) next

theorem Phase.Tests.place {phase : Phase S L C U} {id : SemId S L} {inWait : Option C} {next : U}
    (tests : phase.Tests id inWait next) : phase.place = none := by
  cases tests <;> rfl

namespace State

variable {k : State T S L C U W} {t : T} {id : SemId S L} {inWait : Option C} {next : U}

section
variable [DecidableEq T]

@[simp] theorem setPhase_same (phase : Phase S L C U) : (k.setPhase t phase).phase t = phase := by
  simp [setPhase]

@[simp] theorem setPhase_other (phase : Phase S L C U) {t' : T} (other : t' ≠ t) :
    (k.setPhase t phase).phase t' = k.phase t' := by
  simp [setPhase, other]

@[simp] theorem setPhase_sem (phase : Phase S L C U) : (k.setPhase t phase).sem = k.sem := rfl

@[simp] theorem setPhase_owner (phase : Phase S L C U) : (k.setPhase t phase).owner = k.owner := rfl

@[simp] theorem setPhase_queue (phase : Phase S L C U) : (k.setPhase t phase).queue = k.queue := rfl

@[simp] theorem setPhase_memory (phase : Phase S L C U) :
    (k.setPhase t phase).memory = k.memory := rfl

@[simp] theorem ready_same : (k.ready t).phase t = (k.phase t).readied := by
  simp [ready]

@[simp] theorem ready_other {t' : T} (other : t' ≠ t) : (k.ready t).phase t' = k.phase t' := by
  simp [ready, other]

@[simp] theorem ready_sem : (k.ready t).sem = k.sem := rfl

@[simp] theorem ready_owner : (k.ready t).owner = k.owner := rfl

@[simp] theorem ready_queue : (k.ready t).queue = k.queue := rfl

@[simp] theorem ready_memory : (k.ready t).memory = k.memory := rfl

end

section
variable [DecidableEq S] [DecidableEq L]

@[simp] theorem setSem_same (sem : Semaphore T) : (k.setSem id sem).sem id = sem := by
  simp [setSem]

@[simp] theorem setSem_other (sem : Semaphore T) {id' : SemId S L} (other : id' ≠ id) :
    (k.setSem id sem).sem id' = k.sem id' := by
  simp [setSem, other]

@[simp] theorem setSem_phase (sem : Semaphore T) : (k.setSem id sem).phase = k.phase := rfl

@[simp] theorem setSem_owner (sem : Semaphore T) : (k.setSem id sem).owner = k.owner := rfl

@[simp] theorem setSem_queue (sem : Semaphore T) : (k.setSem id sem).queue = k.queue := rfl

@[simp] theorem setSem_memory (sem : Semaphore T) : (k.setSem id sem).memory = k.memory := rfl

end

section
variable [DecidableEq C]

@[simp] theorem setQueue_same (c : C) (queue : List T) : (k.setQueue c queue).queue c = queue := by
  simp [setQueue]

@[simp] theorem setQueue_other {c c' : C} (queue : List T) (other : c' ≠ c) :
    (k.setQueue c queue).queue c' = k.queue c' := by
  simp [setQueue, other]

@[simp] theorem setQueue_phase (c : C) (queue : List T) :
    (k.setQueue c queue).phase = k.phase := rfl

@[simp] theorem setQueue_sem (c : C) (queue : List T) : (k.setQueue c queue).sem = k.sem := rfl

@[simp] theorem setQueue_owner (c : C) (queue : List T) :
    (k.setQueue c queue).owner = k.owner := rfl

@[simp] theorem setQueue_memory (c : C) (queue : List T) :
    (k.setQueue c queue).memory = k.memory := rfl

end

section
variable [DecidableEq L]

@[simp] theorem setOwner_same (l : L) (owner : Option T) :
    (k.setOwner l owner).owner l = owner := by
  simp [setOwner]

@[simp] theorem setOwner_other {l l' : L} (owner : Option T) (other : l' ≠ l) :
    (k.setOwner l owner).owner l' = k.owner l' := by
  simp [setOwner, other]

@[simp] theorem setOwner_phase (l : L) (owner : Option T) :
    (k.setOwner l owner).phase = k.phase := rfl

@[simp] theorem setOwner_sem (l : L) (owner : Option T) : (k.setOwner l owner).sem = k.sem := rfl

@[simp] theorem setOwner_queue (l : L) (owner : Option T) :
    (k.setOwner l owner).queue = k.queue := rfl

@[simp] theorem setOwner_memory (l : L) (owner : Option T) :
    (k.setOwner l owner).memory = k.memory := rfl

end

section
variable [DecidableEq T] [DecidableEq S] [DecidableEq L]

theorem P_sleeps (zero : (k.sem id).value = 0) : k.P t id inWait next =
    ((k.setSem id { (k.sem id) with queue := (k.sem id).queue ++ [t] }).setPhase t
      (.queued id inWait next), []) := by
  simp [P, Semaphore.P, zero]

theorem P_takes_plain {s : S} (nonzero : (k.sem (.plain s)).value ≠ 0) :
    k.P t (.plain s) inWait next =
    ((k.setSem (.plain s) { (k.sem (.plain s)) with value := (k.sem (.plain s)).value - 1 }).setPhase
      t (.running next), [.p (.plain s) t]) := by
  simp [P, Semaphore.P, nonzero]

theorem P_takes_lock {l : L} (nonzero : (k.sem (.ofLock l)).value ≠ 0) :
    k.P t (.ofLock l) inWait next =
    (((k.setSem (.ofLock l)
        { (k.sem (.ofLock l)) with value := (k.sem (.ofLock l)).value - 1 }).setPhase
      t (.running next)).setOwner l (some t),
      [.p (.ofLock l) t, .acquires l t] ++ (inWait.map fun c => .returns c l t).toList) := by
  simp [P, Semaphore.P, nonzero]

@[simp] theorem P_queue : (k.P t id inWait next).1.queue = k.queue := by
  by_cases zero : (k.sem id).value = 0
  · rw [P_sleeps zero]; rfl
  · cases id with
    | plain s => rw [P_takes_plain zero]; rfl
    | ofLock l => rw [P_takes_lock zero]; rfl

@[simp] theorem P_memory : (k.P t id inWait next).1.memory = k.memory := by
  by_cases zero : (k.sem id).value = 0
  · rw [P_sleeps zero]; rfl
  · cases id with
    | plain s => rw [P_takes_plain zero]; rfl
    | ofLock l => rw [P_takes_lock zero]; rfl

/-- `P` moves the thread that calls it and nobody else. -/
theorem P_phase_other {t' : T} (other : t' ≠ t) :
    (k.P t id inWait next).1.phase t' = k.phase t' := by
  by_cases zero : (k.sem id).value = 0
  · rw [P_sleeps zero]; simp [other]
  · cases id with
    | plain s => rw [P_takes_plain zero]; simp [other]
    | ofLock l => rw [P_takes_lock zero]; simp [other]

theorem P_phase_cases (k : State T S L C U W) (t : T) (id : SemId S L) (inWait : Option C)
    (next : U) : (k.P t id inWait next).1.phase t = .queued id inWait next ∨
      (k.P t id inWait next).1.phase t = .running next := by
  by_cases zero : (k.sem id).value = 0
  · exact .inl (by rw [P_sleeps zero]; simp)
  · cases id with
    | plain s => exact .inr (by rw [P_takes_plain zero]; simp)
    | ofLock l => exact .inr (by rw [P_takes_lock zero]; simp)

theorem V_alone (empty : (k.sem id).queue = []) : k.V id =
    (k.setSem id { value := (k.sem id).value + 1, queue := [] }, [.v id none]) := by
  simp [V, Semaphore.V, empty]

theorem V_wakes {rest : List T} (first : (k.sem id).queue = t :: rest) : k.V id =
    ((k.setSem id { value := (k.sem id).value + 1, queue := rest }).ready t, [.v id (some t)]) := by
  simp [V, Semaphore.V, first]

/-- `V` does not look at the memory. -/
theorem V_withMemory (k : State T S L C U W) (id : SemId S L) (memory : W) :
    { k with memory := memory }.V id = ({ (k.V id).1 with memory := memory }, (k.V id).2) := by
  cases shape : (k.sem id).queue with
  | nil =>
    have same : ({ k with memory := memory }.sem id).queue = [] := shape
    rw [V_alone shape, V_alone same]
    rfl
  | cons t rest =>
    have same : ({ k with memory := memory }.sem id).queue = t :: rest := shape
    rw [V_wakes shape, V_wakes same]
    rfl

theorem V_events (k : State T S L C U W) (id : SemId S L) : ∃ woken, (k.V id).2 = [.v id woken] := by
  cases shape : (k.sem id).queue with
  | nil => exact ⟨none, by rw [V_alone shape]⟩
  | cons t rest => exact ⟨some t, by rw [V_wakes shape]⟩

@[simp] theorem V_owner : (k.V id).1.owner = k.owner := by
  cases shape : (k.sem id).queue with
  | nil => rw [V_alone shape]; rfl
  | cons t rest => rw [V_wakes shape]; rfl

@[simp] theorem V_queue : (k.V id).1.queue = k.queue := by
  cases shape : (k.sem id).queue with
  | nil => rw [V_alone shape]; rfl
  | cons t rest => rw [V_wakes shape]; rfl

@[simp] theorem V_memory : (k.V id).1.memory = k.memory := by
  cases shape : (k.sem id).queue with
  | nil => rw [V_alone shape]; rfl
  | cons t rest => rw [V_wakes shape]; rfl

@[simp] theorem V_value : ((k.V id).1.sem id).value = (k.sem id).value + 1 := by
  cases shape : (k.sem id).queue with
  | nil => simp [V_alone shape]
  | cons t rest => simp [V_wakes shape]

@[simp] theorem V_sem_other {id' : SemId S L} (other : id' ≠ id) :
    (k.V id).1.sem id' = k.sem id' := by
  cases shape : (k.sem id).queue with
  | nil => simp [V_alone shape, other]
  | cons t rest => simp [V_wakes shape, other]

/-- `V` makes a thread ready or leaves it alone. -/
theorem V_phase_cases (k : State T S L C U W) (id : SemId S L) (t : T) :
    (k.V id).1.phase t = k.phase t ∨ (k.V id).1.phase t = (k.phase t).readied := by
  cases shape : (k.sem id).queue with
  | nil =>
    rw [V_alone shape]
    exact .inl rfl
  | cons t' rest =>
    rw [V_wakes shape]
    by_cases same : t = t'
    · subst same
      exact .inr (by simp)
    · exact .inl (by simp [same])

end

section
variable [DecidableEq T] [DecidableEq C]

theorem Signal_none {c : C} (empty : k.queue c = []) : k.Signal c = (k, []) := by
  simp [Signal, empty]

theorem Broadcast_none {c : C} (empty : k.queue c = []) : k.Broadcast c = (k, []) := by
  rw [Broadcast]
  simp [empty]

theorem Signal_wakes {c : C} {rest : List T} (first : k.queue c = t :: rest) : k.Signal c =
    ((k.setQueue c rest).ready t, [.wakes c t]) := by
  simp [Signal, first]

end

end State

section
variable [DecidableEq T] [DecidableEq S] [DecidableEq L] [DecidableEq C]

/-- The change one call makes to the shared state. -/
inductive Move : State T S L C U W → List (Event T S L C) → State T S L C U W → Prop where
  | memory {k : State T S L C U W} (memory : W) : Move k [] { k with memory := memory }
  | goes {k : State T S L C U W} {t : T} {u : U} (next : U) (stands : k.phase t = .running u) :
      Move k [] (k.setPhase t (.running next))
  | forks {k : State T S L C U W} {t : T} {next : U} (stands : k.phase t = .fresh next) :
      Move k [.forks t] (k.setPhase t (.running next))
  | finishes {k : State T S L C U W} {t : T} {u : U} (stands : k.phase t = .running u) :
      Move k [.finishes t] (k.setPhase t .finished)
  | tests {k : State T S L C U W} {t : T} {id : SemId S L} {inWait : Option C} {next : U}
      (stands : (k.phase t).Tests id inWait next) :
      Move k (k.P t id inWait next).2 (k.P t id inWait next).1
  | raises {k : State T S L C U W} (s : S) : Move k (k.V (.plain s)).2 (k.V (.plain s)).1
  | releases {k : State T S L C U W} {t : T} {u : U} (l : L) (stands : k.phase t = .running u) :
      Move k (k.Release t l).2 (k.Release t l).1
  | waits {k : State T S L C U W} {t : T} {u : U} (c : C) (l : L) (next : U)
      (stands : k.phase t = .running u) : Move k (k.Wait t c l next).2 (k.Wait t c l next).1
  | wakes {k : State T S L C U W} {c : C} {t : T} {rest : List T} (first : k.queue c = t :: rest) :
      Move k [.wakes c t] ((k.setQueue c rest).ready t)

private theorem signal_moves (k : State T S L C U W) (c : C) :
    Runs Move k (k.Signal c).2 (k.Signal c).1 := by
  cases shape : k.queue c with
  | nil =>
    rw [State.Signal_none shape]
    exact .start
  | cons t rest =>
    rw [State.Signal_wakes shape]
    exact .single (.wakes shape)

private theorem broadcast_moves (k : State T S L C U W) (c : C) :
    Runs Move k (k.Broadcast c).2 (k.Broadcast c).1 := by
  fun_induction State.Broadcast k c with
  | case1 => exact .start
  | case2 k nonempty rest ih => exact (signal_moves k c).append ih

private theorem perform_moves {k : State T S L C U W} {t : T} {u : U} (op : Op T S L C) (next : U)
    (stands : k.phase t = .running u)
    (once : ∀ child, op = .fork child → ∃ u, k.phase child = .fresh u) :
    Runs Move k (k.perform t op next).2 (k.perform t op next).1 := by
  have gone : Runs Move k [] (k.setPhase t (.running next)) := .single (.goes next stands)
  cases op with
  | tick => exact gone
  | yield => exact gone
  | p s => exact .single (.tests (stands ▸ .first))
  | v s => exact gone.append (.single (.raises s))
  | acquire l => exact .single (.tests (stands ▸ .first))
  | release l => exact gone.append (.single (.releases l (State.setPhase_same _)))
  | wait c l => exact .single (.waits c l next stands)
  | signal c l => exact gone.append (signal_moves _ c)
  | broadcast c l => exact gone.append (broadcast_moves _ c)
  | fork child =>
    obtain ⟨entry, fresh⟩ := once child rfl
    have other : child ≠ t := by
      rintro rfl
      simp [stands] at fresh
    have still : (k.setPhase t (.running next)).phase child = .fresh entry := by
      simp [other, fresh]
    have forked : Runs Move (k.setPhase t (.running next)) [.forks child]
        ((k.setPhase t (.running next)).setPhase child (.running entry)) := .single (.forks still)
    simpa [State.perform, State.Fork, still] using gone.append forked
  | finish => exact .single (.finishes stands)

/-- A step is a sequence of moves. -/
theorem Step.moves {code : Code T S L C U W} {k k' : State T S L C U W}
    {events : List (Event T S L C)} (step : Step code k events k') : Runs Move k events k' := by
  cases step with
  | segment stands does once =>
    rename_i memory
    have changed : Runs Move k [] { k with memory := memory } := .single (.memory memory)
    exact changed.append (perform_moves _ _ stands once)
  | retest stands => exact .single (.tests (stands ▸ .again))
  | reacquire stands => exact .single (.tests (stands ▸ .inWait))
  | interrupt fires =>
    rename_i raised memory
    have changed : Runs Move k [] { k with memory := memory } := .single (.memory memory)
    cases raised with
    | none => exact changed
    | some s => exact changed.append (.single (.raises s))

end

/-! ## Every queue holds its sleepers -/

/-- The queues of a state are right. -/
def State.Queued (k : State T S L C U W) : Prop :=
  Sleepers k.line fun t => (k.phase t).place

theorem Starts.queued {k : State T S L C U W} (starts : Starts k) : k.Queued := by
  refine ⟨fun q t => ?_, fun q => ?_⟩
  · have empty : k.line q = [] := by
      cases q with
      | sem id => exact starts.asleep id
      | cond c => exact starts.conditions c
    obtain ⟨u, fresh | running⟩ := starts.phase t
    · simp [empty, fresh, Phase.place]
    · simp [empty, running, Phase.place]
  · cases q with
    | sem id => simp [State.line, starts.asleep id]
    | cond c => simp [State.line, starts.conditions c]

namespace State.Queued

variable {k k' : State T S L C U W}

section
variable [DecidableEq T]

theorem setPhase (valid : k.Queued) {t : T} {phase : Phase S L C U}
    (same : phase.place = (k.phase t).place) : (k.setPhase t phase).Queued := by
  refine valid.congr (fun q => by cases q <;> rfl) fun t' => ?_
  by_cases at_t : t' = t
  · simp [at_t, same]
  · simp [at_t]

variable [DecidableEq S] [DecidableEq L]

theorem P (valid : k.Queued) {t : T} (id : SemId S L) (inWait : Option C) (next : U)
    (awake : (k.phase t).place = none) : (k.P t id inWait next).1.Queued := by
  by_cases zero : (k.sem id).value = 0
  · rw [State.P_sleeps zero]
    refine valid.enqueue (q := .sem id) awake (by simp [line]) ?_ ?_ ?_
    · intro q other
      cases q with
      | sem id' =>
        have apart : id' ≠ id := fun same => other (congrArg Queue.sem same)
        simp [line, apart]
      | cond c => rfl
    · simp [Phase.place]
    · intro t' other
      simp [other]
  · have kept : ((k.setSem id { (k.sem id) with value := (k.sem id).value - 1 }).setPhase t
        (.running next)).Queued := by
      have lowered : (k.setSem id { (k.sem id) with value := (k.sem id).value - 1 }).Queued := by
        refine valid.congr (fun q => ?_) fun _ => rfl
        cases q with
        | sem id' => by_cases same : id' = id <;> simp [line, same]
        | cond c => rfl
      exact lowered.setPhase (by simpa [Phase.place] using awake.symm)
    cases id with
    | plain s =>
      rw [State.P_takes_plain zero]
      exact kept
    | ofLock l =>
      rw [State.P_takes_lock zero]
      exact kept.congr (fun q => by cases q <;> rfl) fun _ => rfl

theorem V (valid : k.Queued) (id : SemId S L) : (k.V id).1.Queued := by
  cases shape : (k.sem id).queue with
  | nil =>
    rw [State.V_alone shape]
    refine valid.congr ?_ fun _ => rfl
    intro q
    cases q with
    | sem id' => by_cases same : id' = id <;> simp [line, same, shape]
    | cond c => rfl
  | cons t rest =>
    rw [State.V_wakes shape]
    have first : k.line (.sem id) = t :: rest := shape
    refine valid.dequeue first ?_ ?_ ?_ ?_
    · simp [line]
    · intro q other
      cases q with
      | sem id' =>
        have apart : id' ≠ id := fun same => other (congrArg Queue.sem same)
        simp [line, apart]
      | cond c => rfl
    · simp
    · intro t' other
      simp [other]

theorem Release (valid : k.Queued) (t : T) (l : L) : (k.Release t l).1.Queued :=
  (valid.V (.ofLock l)).congr (fun q => by cases q <;> rfl) fun _ => rfl

/-- `Release` leaves the phase of a thread that is not asleep alone. -/
theorem V_phase (valid : k.Queued) {t : T} (id : SemId S L) (awake : (k.phase t).place = none) :
    (k.V id).1.phase t = k.phase t := by
  cases shape : (k.sem id).queue with
  | nil =>
    rw [State.V_alone shape]
    rfl
  | cons t' rest =>
    have asleep := (valid.member (.sem id) t').mp (by simp [line, shape])
    have other : t ≠ t' := by
      rintro rfl
      simp [awake] at asleep
    rw [State.V_wakes shape]
    simp [other]

end

section
variable [DecidableEq T] [DecidableEq C]

theorem wakes (valid : k.Queued) {c : C} {t : T} {rest : List T} (first : k.queue c = t :: rest) :
    ((k.setQueue c rest).ready t).Queued := by
  have front : k.line (.cond c) = t :: rest := first
  refine valid.dequeue front ?_ ?_ ?_ ?_
  · simp [line]
  · intro q other
    cases q with
    | sem id => rfl
    | cond c' =>
      have apart : c' ≠ c := fun same => other (congrArg Queue.cond same)
      simp [line, apart]
  · simp
  · intro t' other
    simp [other]

variable [DecidableEq S] [DecidableEq L]

theorem Wait (valid : k.Queued) {t : T} (c : C) (l : L) (next : U)
    (awake : (k.phase t).place = none) : (k.Wait t c l next).1.Queued := by
  have still : ((k.Release t l).1.phase t).place = none := by
    have same : (k.Release t l).1.phase t = k.phase t := valid.V_phase (.ofLock l) awake
    rw [same, awake]
  refine (valid.Release t l).enqueue still (q := .cond c) ?_ ?_ ?_ ?_
  · simp [line, State.Wait]
  · intro q other
    cases q with
    | sem id => rfl
    | cond c' =>
      have apart : c' ≠ c := fun same => other (congrArg Queue.cond same)
      simp [line, State.Wait, apart]
  · simp [State.Wait, Phase.place]
  · intro t' other
    simp [State.Wait, other]

theorem move {events : List (Event T S L C)} (valid : k.Queued) (move : Move k events k') :
    k'.Queued := by
  cases move with
  | memory memory => exact valid.congr (fun q => by cases q <;> rfl) fun _ => rfl
  | goes next stands => exact valid.setPhase (by rw [stands]; rfl)
  | forks stands => exact valid.setPhase (by rw [stands]; rfl)
  | finishes stands => exact valid.setPhase (by rw [stands]; rfl)
  | tests stands => exact valid.P _ _ _ stands.place
  | raises s => exact valid.V _
  | releases l stands => exact valid.Release _ l
  | waits c l next stands => exact valid.Wait c l next (by rw [stands]; rfl)
  | wakes first => exact valid.wakes first

end

end State.Queued

section
variable [DecidableEq T] [DecidableEq S] [DecidableEq L] [DecidableEq C]

theorem Step.queued {code : Code T S L C U W} {k k' : State T S L C U W} {events : List (Event T S L C)}
    (step : Step code k events k') (valid : k.Queued) : k'.Queued :=
  step.moves.invariant_state valid fun valid move => valid.move move

/-- In every state of a run the queues hold exactly the threads asleep in them. -/
theorem Starts.queued_run {start k : State T S L C U W} {trace : List (Event T S L C)}
    (starts : Starts start) (run : Runs Move start trace k) : k.Queued :=
  run.invariant_state starts.queued fun valid move => valid.move move

end

/-! ## The value of a semaphore -/

section
variable [DecidableEq S] [DecidableEq L]

/-- Made ready by `V` on this semaphore, and yet to test its value again. -/
def Phase.wokenOn (id : SemId S L) : Phase S L C U → Bool
  | .woken id' _ _ => id' = id
  | _ => false

theorem Phase.Tests.wokenOn_other {phase : Phase S L C U} {id id' : SemId S L} {inWait : Option C}
    {next : U} (tests : phase.Tests id' inWait next) (other : id ≠ id') :
    phase.wokenOn id = false := by
  cases tests <;> simp [Phase.wokenOn, Ne.symm other]

def Event.completesP (id : SemId S L) : Event T S L C → Bool
  | .p id' _ => id' = id
  | _ => false

def Event.completesV (id : SemId S L) : Event T S L C → Bool
  | .v id' _ => id' = id
  | _ => false

variable [Fintype T]

/-- What a semaphore keeps: its value counts the completed calls, and no wake-up
is lost. -/
structure Counted (n : Int) (id : SemId S L) (trace : List (Event T S L C))
    (k : State T S L C U W) : Prop where
  value : (k.sem id).value =
    n + trace.countP (Event.completesV id) - trace.countP (Event.completesP id)
  nonneg : 0 ≤ (k.sem id).value
  wakeups : (k.sem id).queue ≠ [] →
    (k.sem id).value ≤ population fun t => (k.phase t).wokenOn id

namespace Counted

variable {n : Int} {id : SemId S L} {trace events : List (Event T S L C)}
  {k k' : State T S L C U W}

theorem congr (counted : Counted n id trace k) (sem : k'.sem id = k.sem id)
    (phases : ∀ t, (k'.phase t).wokenOn id = (k.phase t).wokenOn id)
    (noP : events.countP (Event.completesP id) = 0)
    (noV : events.countP (Event.completesV id) = 0) : Counted n id (trace ++ events) k' where
  value := by simpa [sem, noP, noV] using counted.value
  nonneg := by rw [sem]; exact counted.nonneg
  wakeups := by rw [sem, population_congr phases]; exact counted.wakeups

variable [DecidableEq T]

private theorem setPhase (counted : Counted n id trace k) {t : T} {phase : Phase S L C U}
    (same : phase.wokenOn id = (k.phase t).wokenOn id)
    (noP : events.countP (Event.completesP id) = 0)
    (noV : events.countP (Event.completesV id) = 0) :
    Counted n id (trace ++ events) (k.setPhase t phase) := by
  refine counted.congr rfl (fun t' => ?_) noP noV
  by_cases at_t : t' = t
  · simp [at_t, same]
  · simp [at_t]

private theorem P_other (counted : Counted n id trace k) {t : T} {id' : SemId S L}
    {inWait : Option C} {next : U} (tests : (k.phase t).Tests id' inWait next)
    (other : id ≠ id') :
    Counted n id (trace ++ (k.P t id' inWait next).2) (k.P t id' inWait next).1 := by
  have out := tests.wokenOn_other other
  have phases : ∀ (phase : Phase S L C U) (t' : T), phase.wokenOn id = false →
      ((k.setPhase t phase).phase t').wokenOn id = (k.phase t').wokenOn id := by
    intro phase t' still
    by_cases at_t : t' = t
    · simp [at_t, still, out]
    · simp [at_t]
  by_cases zero : (k.sem id').value = 0
  · rw [State.P_sleeps zero]
    exact counted.congr (by simp [other]) (fun t' => phases _ t' rfl) rfl rfl
  · cases id' with
    | plain s =>
      rw [State.P_takes_plain zero]
      refine counted.congr (by simp [other]) (fun t' => phases _ t' rfl) ?_ ?_
      · simp [Event.completesP, Ne.symm other]
      · simp [Event.completesV]
    | ofLock l =>
      rw [State.P_takes_lock zero]
      refine counted.congr (by simp [other]) (fun t' => phases _ t' rfl) ?_ ?_
      · cases inWait <;> simp [Event.completesP, Ne.symm other]
      · cases inWait <;> simp [Event.completesV]

/-- A thread that finds the value taken goes to sleep at value zero; one that
takes a unit leaves the woken threads if it was one of them. -/
private theorem P_same (counted : Counted n id trace k) {t : T}
    {inWait : Option C} {next : U} (tests : (k.phase t).Tests id inWait next) :
    Counted n id (trace ++ (k.P t id inWait next).2) (k.P t id inWait next).1 := by
  by_cases zero : (k.sem id).value = 0
  · rw [State.P_sleeps zero]
    exact ⟨by simpa using counted.value, by simp [zero], by simp [zero]⟩
  · have positive : 0 < (k.sem id).value := lt_of_le_of_ne counted.nonneg (Ne.symm zero)
    have taken : ∀ events : List (Event T S L C), ∀ k' : State T S L C U W,
        k'.sem id = { (k.sem id) with value := (k.sem id).value - 1 } →
        (k'.phase t).wokenOn id = false → (∀ t', t' ≠ t → k'.phase t' = k.phase t') →
        events.countP (Event.completesP id) = 1 → events.countP (Event.completesV id) = 0 →
        Counted n id (trace ++ events) k' := by
      intro events k' sem out others oneP noV
      refine ⟨?_, ?_, fun waiting => ?_⟩
      · have before := counted.value
        simp only [sem, List.countP_append, oneP, noV]
        omega
      · rw [sem]
        show 0 ≤ (k.sem id).value - 1
        omega
      · have bound := counted.wakeups (by simpa [sem] using waiting)
        rw [sem]
        show (k.sem id).value - 1 ≤ _
        cases wasWoken : (k.phase t).wokenOn id with
        | true =>
          have fewer := population_leaves (p := fun t => (k.phase t).wokenOn id)
            (q := fun t => (k'.phase t).wokenOn id) t wasWoken out
            fun t' other => by rw [others t' other]
          omega
        | false =>
          have same := population_congr (p := fun t => (k.phase t).wokenOn id)
            (q := fun t => (k'.phase t).wokenOn id) fun t' => by
              by_cases at_t : t' = t
              · rw [at_t, wasWoken, out]
              · rw [others t' at_t]
          omega
    cases id with
    | plain s =>
      rw [State.P_takes_plain zero]
      refine taken _ _ (by simp) (by simp [Phase.wokenOn]) ?_ (by simp [Event.completesP])
        (by simp [Event.completesV])
      intro t' other
      simp [other]
    | ofLock l =>
      rw [State.P_takes_lock zero]
      refine taken _ _ (by simp) (by simp [Phase.wokenOn]) ?_ ?_ ?_
      · intro t' other
        simp [other]
      · cases inWait <;> simp [Event.completesP]
      · cases inWait <;> simp [Event.completesV]

private theorem P (counted : Counted n id trace k) {t : T} {id' : SemId S L}
    {inWait : Option C} {next : U} (tests : (k.phase t).Tests id' inWait next) :
    Counted n id (trace ++ (k.P t id' inWait next).2) (k.P t id' inWait next).1 := by
  by_cases same : id = id'
  · subst same
    exact counted.P_same tests
  · exact counted.P_other tests same

/-- `V` raises the value, and if a thread was asleep there is one more that has
to test it again. -/
private theorem V (counted : Counted n id trace k) (valid : k.Queued) (id' : SemId S L) :
    Counted n id (trace ++ (k.V id').2) (k.V id').1 := by
  cases shape : (k.sem id').queue with
  | nil =>
    rw [State.V_alone shape]
    by_cases same : id = id'
    · subst same
      have before := counted.value
      have nonneg := counted.nonneg
      refine ⟨?_, ?_, by simp⟩
      · simp only [State.setSem_same, List.countP_append]
        simp [Event.completesV, Event.completesP, before]
        omega
      · rw [State.setSem_same]
        show 0 ≤ (k.sem id).value + 1
        omega
    · refine counted.congr (by simp [same]) (fun t' => rfl) ?_ ?_
      · simp [Event.completesP]
      · simp [Event.completesV, Ne.symm same]
  | cons t rest =>
    have asleep : (k.phase t).place = some (.sem id') :=
      (valid.member (.sem id') t).mp (by simp [State.line, shape])
    obtain ⟨inWait, next, stands⟩ : ∃ inWait next, k.phase t = .queued id' inWait next := by
      cases at_t : k.phase t <;> simp [at_t, Phase.place] at asleep
      exact ⟨_, _, by rw [asleep]⟩
    rw [State.V_wakes shape]
    by_cases same : id = id'
    · subst same
      have before := counted.value
      have nonneg := counted.nonneg
      have bound := counted.wakeups (by simp [shape])
      have more := population_joins (p := fun t => (k.phase t).wokenOn id)
        (q := fun t' => (((k.setSem id { value := (k.sem id).value + 1, queue := rest }).ready
          t).phase t').wokenOn id) t
        (by simp [stands, Phase.wokenOn]) (by simp [stands, Phase.readied, Phase.wokenOn])
        fun t' other => by simp [other]
      refine ⟨?_, ?_, fun _ => ?_⟩
      · simp only [State.ready_sem, State.setSem_same, List.countP_append]
        simp [Event.completesV, Event.completesP, before]
        omega
      · rw [State.ready_sem, State.setSem_same]
        show 0 ≤ (k.sem id).value + 1
        omega
      · rw [more, State.ready_sem, State.setSem_same]
        show (k.sem id).value + 1 ≤ _
        push_cast
        omega
    · refine counted.congr (by simp [same]) (fun t' => ?_) ?_ ?_
      · by_cases at_t : t' = t
        · simp [at_t, stands, Phase.readied, Phase.wokenOn, Ne.symm same]
        · simp [at_t]
      · simp [Event.completesP]
      · simp [Event.completesV, Ne.symm same]

private theorem Release (counted : Counted n id trace k) (valid : k.Queued) (t : T) (l : L) :
    Counted n id (trace ++ (k.Release t l).2) (k.Release t l).1 := by
  have raised := counted.V valid (.ofLock l)
  have released : Counted n id (trace ++ (k.V (.ofLock l)).2 ++ [.releases l t]) (k.Release t l).1 :=
    raised.congr rfl (fun _ => rfl) rfl rfl
  simpa [State.Release] using released

variable [DecidableEq C]

theorem move (counted : Counted n id trace k) (valid : k.Queued) (move : Move k events k') :
    Counted n id (trace ++ events) k' := by
  cases move with
  | memory memory => exact counted.congr rfl (fun _ => rfl) rfl rfl
  | goes next stands => exact counted.setPhase (by rw [stands]; rfl) rfl rfl
  | forks stands => exact counted.setPhase (by rw [stands]; rfl) rfl rfl
  | finishes stands => exact counted.setPhase (by rw [stands]; rfl) rfl rfl
  | tests stands => exact counted.P stands
  | raises s => exact counted.V valid _
  | releases l stands => exact counted.Release valid _ l
  | waits c l next stands =>
    rename_i t u
    have released := counted.Release valid t l
    have still : (k.Release t l).1.phase t = .running u := by
      rw [← stands]
      exact valid.V_phase (.ofLock l) (by rw [stands]; rfl)
    have waited : Counted n id (trace ++ (k.Release t l).2 ++ [.waits c l t])
        ((k.Release t l).1.setPhase t (.waiting c l next)) :=
      released.setPhase (by rw [still]; rfl) rfl rfl
    have queued : Counted n id (trace ++ (k.Release t l).2 ++ [.waits c l t] ++ [])
        (k.Wait t c l next).1 := waited.congr rfl (fun _ => rfl) rfl rfl
    simpa [State.Wait] using queued
  | wakes first =>
    rename_i c t rest
    refine counted.congr rfl (fun t' => ?_) rfl rfl
    have asleep : (k.phase t).place = some (.cond c) :=
      (valid.member (.cond c) t).mp (by simp [State.line, first])
    by_cases at_t : t' = t
    · subst at_t
      rw [State.ready_same, State.setQueue_phase]
      cases at_t : k.phase t' <;> simp [at_t, Phase.place] at asleep
      rfl
    · simp [at_t]

end Counted

end

section
variable [DecidableEq T] [DecidableEq S] [DecidableEq L] [DecidableEq C] [Fintype T]

theorem Starts.counted_run {start k : State T S L C U W} {trace : List (Event T S L C)}
    (starts : Starts start) (run : Runs Move start trace k) (id : SemId S L) :
    Counted (start.sem id).value id trace k := by
  refine (run.invariant
    (P := fun trace k => k.Queued ∧ Counted (start.sem id).value id trace k) ⟨starts.queued, ?_⟩ ?_).2
  · exact ⟨by simp, starts.value id, by simp [starts.asleep id]⟩
  · rintro trace k events k' - ⟨valid, counted⟩ move
    exact ⟨valid.move move, counted.move valid move⟩

/-- The value of a semaphore is its initial value plus the completed `V`s minus
the completed `P`s and never negative, no thread is twice in the queue, and while
a thread is asleep the value is covered by threads that are about to test it. -/
theorem semaphore_counts (code : Code T S L C U W) {start k : State T S L C U W}
    {trace : List (Event T S L C)} (starts : Starts start)
    (run : Runs (Step code) start trace k) (id : SemId S L) :
    (k.sem id).value = (start.sem id).value + trace.countP (Event.completesV id) -
        trace.countP (Event.completesP id) ∧
      0 ≤ (k.sem id).value ∧ (k.sem id).queue.Nodup ∧
      ((k.sem id).queue ≠ [] →
        (k.sem id).value ≤ population fun t => (k.phase t).wokenOn id) := by
  have moves : Runs Move start trace k := run.expand fun step => step.moves
  obtain ⟨value, nonneg, wakeups⟩ := starts.counted_run moves id
  exact ⟨value, nonneg, (starts.queued_run moves).nodup (.sem id), wakeups⟩

end

/-! One thread finds the semaphore down and sleeps, the other one raises it. -/

inductive HandsOver : Bool → Unit → Unit → Op Bool Unit Empty Empty → Unit → Unit → Prop where
  | sleeps : HandsOver false () () (.p ()) () ()
  | wakes : HandsOver true () () (.v ()) () ()

def handOver : Code Bool Unit Empty Empty Unit Unit where
  segment := HandsOver
  handler _ _ _ := False

def handOverStart : State Bool Unit Empty Empty Unit Unit where
  sem _ := { value := 0, queue := [] }
  owner := Empty.elim
  queue := Empty.elim
  phase _ := .running ()
  memory := ()

theorem handOver_starts : Starts handOverStart where
  value _ := Int.le_refl 0
  asleep _ := rfl
  free := Empty.rec
  conditions := Empty.rec
  phase _ := ⟨(), .inr rfl⟩

theorem semaphore_counts_handed_over :
    ∃ trace k, Runs (Step handOver) handOverStart trace k ∧
      .v (.plain ()) (some false) ∈ trace ∧ (k.sem (.plain ())).value = 0 + 1 - 0 := by
  have sleeps : Runs (Step handOver) handOverStart _ _ :=
    .next .start (.segment rfl .sleeps (by simp))
  have wakes := sleeps.next (.segment rfl .wakes (by simp))
  exact ⟨_, _, wakes, by decide, (semaphore_counts handOver handOver_starts wakes (.plain ())).1⟩

end Nachos.Threads
