import Nachos.Threads.View

/-! Code whose points say which locks are held at them. If every segment agrees
with its annotation, then in every state of every run the owner of a lock is the
one thread whose place in the code says it holds the lock. -/
namespace Nachos.Threads
open Effects

variable {T S L C U W : Type}

/-- Whether a thread in this phase holds the lock, when `holding` says which
locks the points of the code hold. -/
def Phase.holds (holding : U → L → Prop) (l : L) : Phase S L C U → Prop
  | .running next => holding next l
  | .queued id _ next | .woken id _ next => holding next l ∧ id ≠ .ofLock l
  | .waiting _ l' next | .signalled _ l' next => holding next l ∧ l' ≠ l
  | .fresh _ | .finished => False

@[simp] theorem Phase.holds_running (holding : U → L → Prop) (l : L) (next : U) :
    (Phase.running next : Phase S L C U).holds holding l ↔ holding next l := Iff.rfl

/-- The lock a sleeping thread is after is one it goes on with, and a thread
starts without locks. -/
def Phase.sound (holding : U → L → Prop) : Phase S L C U → Prop
  | .queued (.ofLock l) _ next | .woken (.ofLock l) _ next => holding next l
  | .waiting _ l next | .signalled _ l next => holding next l
  | .fresh next => ∀ l, ¬ holding next l
  | _ => True

/-- The operation turns the locks held before it into those held after it. -/
def Op.Respects (holding : U → L → Prop) (u next : U) : Op T S L C → Prop
  | .acquire l => ¬ holding u l ∧ ∀ l', holding next l' ↔ l' = l ∨ holding u l'
  | .release l => holding u l ∧ ∀ l', holding next l' ↔ l' ≠ l ∧ holding u l'
  | .wait _ l => holding u l ∧ ∀ l', holding next l' ↔ holding u l'
  | .finish => ∀ l, ¬ holding u l
  | _ => ∀ l, holding next l ↔ holding u l

def Code.Annotated (code : Code T S L C U W) (holding : U → L → Prop) : Prop :=
  ∀ {t u memory op memory' next}, code.segment t u memory op memory' next →
    op.Respects holding u next

/-- The locks are held as the threads' places in the code say. -/
structure HeldBy (holding : U → L → Prop) (k : State T S L C U W) : Prop where
  owner (l : L) (t : T) : k.owner l = some t ↔ (k.phase t).holds holding l
  value (l : L) : (k.sem (.ofLock l)).value = if (k.owner l).isSome then 0 else 1
  sound (t : T) : (k.phase t).sound holding

/-- Whether a thread this far holds the lock. -/
def Stage.holds (holding : U → L → Prop) (l : L) : Stage S L C U → Prop
  | .at next => holding next l
  | .inP id next => holding next l ∧ id ≠ .ofLock l
  | .inWait _ l' next => holding next l ∧ l' ≠ l
  | .fresh _ | .finished => False

theorem Phase.holds_stage (holding : U → L → Prop) (l : L) (phase : Phase S L C U) :
    phase.stage.holds holding l ↔ phase.holds holding l := by
  cases phase <;> rfl

/-- No two threads hold one lock. -/
def View.Exclusive (holding : U → L → Prop) (v : View T S L C U W) : Prop :=
  ∀ {l : L} {t t' : T}, (v.stage t).holds holding l → (v.stage t').holds holding l → t = t'

namespace HeldBy

variable {holding : U → L → Prop} {k k' : State T S L C U W}

theorem unique (held : HeldBy holding k) {l : L} {t t' : T} (first : (k.phase t).holds holding l)
    (second : (k.phase t').holds holding l) : t = t' := by
  have same := (held.owner l t).mpr first
  rw [(held.owner l t').mpr second] at same
  exact (Option.some.inj same).symm

theorem exclusive (held : HeldBy holding k) : k.view.Exclusive holding := by
  intro l t t' first second
  rw [State.view, Phase.holds_stage] at first second
  exact held.unique first second

/-- At the start no thread holds a lock. -/
theorem start (starts : Starts k)
    (nothing : ∀ t u, k.phase t = .fresh u ∨ k.phase t = .running u → ∀ l, ¬ holding u l) :
    HeldBy holding k := by
  refine ⟨fun l t => ?_, fun l => ?_, fun t => ?_⟩
  · obtain ⟨u, fresh | running⟩ := starts.phase t
    · simp [(starts.free l).2, fresh, Phase.holds]
    · simpa [(starts.free l).2, running, Phase.holds] using nothing t u (.inr running) l
  · simp [(starts.free l).1, (starts.free l).2]
  · obtain ⟨u, fresh | running⟩ := starts.phase t
    · rw [fresh]
      exact nothing t u (.inl fresh)
    · rw [running]
      trivial

theorem congr (held : HeldBy holding k) (owners : k'.owner = k.owner)
    (values : ∀ l, (k'.sem (.ofLock l)).value = (k.sem (.ofLock l)).value)
    (phases : ∀ t, (∀ l, (k'.phase t).holds holding l ↔ (k.phase t).holds holding l) ∧
      (k'.phase t).sound holding) : HeldBy holding k' where
  owner l t := by rw [owners, held.owner, (phases t).1 l]
  value l := by rw [values, owners, held.value]
  sound t := (phases t).2

theorem holds_readied (phase : Phase S L C U) (l : L) :
    phase.readied.holds holding l ↔ phase.holds holding l := by
  cases phase <;> rfl

theorem sound_readied {phase : Phase S L C U} (sound : phase.sound holding) :
    phase.readied.sound holding := by
  cases phase with
  | queued id inWait next => cases id <;> exact sound
  | fresh next => exact sound
  | waiting c l next => exact sound
  | running next => exact sound
  | woken id inWait next => exact sound
  | signalled c l next => exact sound
  | finished => exact sound

theorem memory (held : HeldBy holding k) (memory : W) :
    HeldBy holding { k with memory := memory } :=
  held.congr rfl (fun _ => rfl) fun t => ⟨fun _ => Iff.rfl, held.sound t⟩

section
variable [DecidableEq T] [DecidableEq L]

/-- The holder releases the lock and goes on without it. -/
theorem release (held : HeldBy holding k) {t : T} {l : L} (holds : (k.phase t).holds holding l)
    (owners : k'.owner = Function.update k.owner l none)
    (values : ∀ l', (k'.sem (.ofLock l')).value =
      if l' = l then (k.sem (.ofLock l)).value + 1 else (k.sem (.ofLock l')).value)
    (after : ∀ l', (k'.phase t).holds holding l' ↔ l' ≠ l ∧ (k.phase t).holds holding l')
    (sound : ∀ t', (k'.phase t').sound holding)
    (others : ∀ t', t' ≠ t → ∀ l', (k'.phase t').holds holding l' ↔ (k.phase t').holds holding l') :
    HeldBy holding k' := by
  have owned := (held.owner l t).mpr holds
  refine ⟨fun l' t' => ?_, fun l' => ?_, sound⟩
  · by_cases at_t : t' = t
    · subst at_t
      by_cases same : l' = l
      · subst same
        simp [owners, after]
      · simp [owners, same, held.owner, after]
    · by_cases same : l' = l
      · subst same
        have other : ¬ (k.phase t').holds holding l' := fun too => at_t (held.unique too holds)
        simp [owners, others t' at_t, other]
      · simp [owners, same, held.owner, others t' at_t]
  · by_cases same : l' = l
    · subst same
      simp [owners, values, held.value, owned]
    · simp [owners, values, same, held.value]

end

section
variable [DecidableEq S] [DecidableEq L]

theorem setSem (held : HeldBy holding k) {id : SemId S L} {sem : Semaphore T}
    (same : ∀ l, id = .ofLock l → sem.value = (k.sem id).value) :
    HeldBy holding (k.setSem id sem) := by
  refine held.congr rfl (fun l => ?_) fun t => ⟨fun _ => Iff.rfl, held.sound t⟩
  by_cases at_l : SemId.ofLock l = id
  · subst at_l
    simp [same l rfl]
  · simp [at_l]

end

section
variable [DecidableEq T]

/-- A thread moves to a point that holds the same locks. -/
theorem setPhase (held : HeldBy holding k) {t : T} {phase : Phase S L C U}
    (same : ∀ l, phase.holds holding l ↔ (k.phase t).holds holding l)
    (sound : phase.sound holding) : HeldBy holding (k.setPhase t phase) := by
  refine held.congr rfl (fun _ => rfl) fun t' => ?_
  by_cases at_t : t' = t
  · subst at_t
    simpa using ⟨same, sound⟩
  · simpa [at_t] using held.sound t'

theorem ready (held : HeldBy holding k) (t : T) : HeldBy holding (k.ready t) :=
  held.setPhase (holds_readied _) (sound_readied (held.sound t))

variable [DecidableEq S] [DecidableEq L]

/-- `P`, at a point that goes on with the locks held before and, on a lock's
semaphore, with that lock. -/
theorem P (held : HeldBy holding k) {t : T} {id : SemId S L} {inWait : Option C} {next : U}
    (before : ∀ l, (k.phase t).holds holding l ↔ holding next l ∧ id ≠ .ofLock l)
    (after : ∀ l, id = .ofLock l → holding next l) :
    HeldBy holding (k.P t id inWait next).1 := by
  by_cases zero : (k.sem id).value = 0
  · rw [State.P_sleeps zero]
    have kept : HeldBy holding
        (k.setSem id { (k.sem id) with queue := (k.sem id).queue ++ [t] }) :=
      held.setSem fun _ _ => rfl
    refine kept.setPhase (fun l => (before l).symm) ?_
    cases id with
    | plain s => trivial
    | ofLock l => exact after l rfl
  · cases id with
    | plain s =>
      rw [State.P_takes_plain zero]
      have kept : HeldBy holding (k.setSem (.plain s)
          { (k.sem (.plain s)) with value := (k.sem (.plain s)).value - 1 }) :=
        held.setSem fun l other => by simp at other
      refine kept.setPhase (fun l => ?_) trivial
      have same := before l
      simp only [ne_eq, reduceCtorEq, not_false_eq_true, and_true] at same
      exact same.symm
    | ofLock l =>
      rw [State.P_takes_lock zero]
      have free : k.owner l = none := by
        have value := held.value l
        cases shape : k.owner l with
        | none => rfl
        | some t' => simp [shape, zero] at value
      have nobody : ∀ t', ¬ (k.phase t').holds holding l := by
        intro t' holds
        simp [(held.owner l t').mpr holds] at free
      refine ⟨fun l' t' => ?_, fun l' => ?_, fun t' => ?_⟩
      · by_cases at_t : t' = t
        · subst at_t
          by_cases same : l' = l
          · subst same
            simpa [Phase.holds] using after l' rfl
          · have kept := before l'
            simp only [ne_eq, SemId.ofLock.injEq, Ne.symm same, not_false_eq_true, and_true] at kept
            simpa [same, held.owner] using kept
        · by_cases same : l' = l
          · subst same
            simp [at_t, Ne.symm at_t, nobody t']
          · simp [at_t, same, held.owner]
      · by_cases same : l' = l
        · subst same
          simp [held.value, free]
        · simp [same, held.value]
      · by_cases at_t : t' = t
        · subst at_t
          simp [Phase.sound]
        · simpa [at_t] using held.sound t'

theorem V (held : HeldBy holding k) (s : S) : HeldBy holding (k.V (.plain s)).1 := by
  cases shape : (k.sem (.plain s)).queue with
  | nil =>
    rw [State.V_alone shape]
    exact held.setSem fun l other => by simp at other
  | cons t rest =>
    rw [State.V_wakes shape]
    exact (held.setSem fun l other => by simp at other).ready t

/-- Raising a semaphore changes no thread's locks. -/
theorem V_phase {t : T} (id : SemId S L) (sound : (k.phase t).sound holding) :
    (∀ l, ((k.V id).1.phase t).holds holding l ↔ (k.phase t).holds holding l) ∧
      ((k.V id).1.phase t).sound holding := by
  obtain same | readied := k.V_phase_cases id t
  · rw [same]
    exact ⟨fun _ => Iff.rfl, sound⟩
  · rw [readied]
    exact ⟨holds_readied _, sound_readied sound⟩

end

section
variable [DecidableEq T] [DecidableEq C]

theorem Signal (held : HeldBy holding k) (c : C) : HeldBy holding (k.Signal c).1 := by
  cases shape : k.queue c with
  | nil =>
    rw [State.Signal_none shape]
    exact held
  | cons t rest =>
    rw [State.Signal_wakes shape]
    have kept : HeldBy holding (k.setQueue c rest) :=
      held.congr rfl (fun _ => rfl) fun t => ⟨fun _ => Iff.rfl, held.sound t⟩
    exact kept.ready t

theorem Broadcast (held : HeldBy holding k) (c : C) : HeldBy holding (k.Broadcast c).1 := by
  fun_induction State.Broadcast k c with
  | case1 => exact held
  | case2 k nonempty rest ih => exact ih (held.Signal c)

variable [DecidableEq S] [DecidableEq L]

theorem perform (held : HeldBy holding k) {t : T} {u next : U} (op : Op T S L C)
    (stands : k.phase t = .running u) (respects : op.Respects holding u next) :
    HeldBy holding (k.perform t op next).1 := by
  have gone (same : ∀ l, holding next l ↔ holding u l) :
      HeldBy holding (k.setPhase t (.running next)) := by
    refine held.setPhase (fun l => ?_) trivial
    rw [stands]
    exact same l
  cases op with
  | tick => exact gone respects
  | yield => exact gone respects
  | p s =>
    refine held.P (fun l => ?_) (fun l other => by simp at other)
    have same : holding next l ↔ holding u l := respects l
    simp [stands, Phase.holds, same]
  | v s => exact (gone respects).V s
  | acquire l =>
    obtain ⟨absent, after⟩ := respects
    refine held.P (fun l' => ?_) (fun l' same => ?_)
    · by_cases same : l' = l
      · subst same
        simp [stands, Phase.holds, absent]
      · simp [stands, Phase.holds, after, same, Ne.symm same]
    · cases same
      exact (after l).mpr (.inl rfl)
  | release l =>
    obtain ⟨present, after⟩ := respects
    have runs : ((k.setPhase t (.running next)).V (.ofLock l)).1.phase t = .running next := by
      obtain same | readied := (k.setPhase t (.running next)).V_phase_cases (.ofLock l) t
      · simpa using same
      · simpa [Phase.readied] using readied
    have others : ∀ t', t' ≠ t → (∀ l', ((((k.setPhase t (.running next)).Release t l).1.phase
        t').holds holding l' ↔ (k.phase t').holds holding l')) ∧
        (((k.setPhase t (.running next)).Release t l).1.phase t').sound holding := by
      intro t' other
      have sound : ((k.setPhase t (.running next)).phase t').sound holding := by
        rw [State.setPhase_other _ other]
        exact held.sound t'
      have same := V_phase (.ofLock l) sound
      rwa [State.setPhase_other _ other] at same
    refine held.release (t := t) (l := l) (by rw [stands]; exact present) ?_ ?_ ?_ ?_
      fun t' other => (others t' other).1
    · show Function.update ((k.setPhase t (.running next)).V (.ofLock l)).1.owner l none = _
      rw [State.V_owner]
      rfl
    · intro l'
      by_cases same : l' = l
      · subst same
        simp [State.perform, State.Release]
      · simp [State.perform, State.Release, same]
    · intro l'
      show (((k.setPhase t (.running next)).V (.ofLock l)).1.phase t).holds holding l' ↔ _
      rw [runs, stands]
      exact after l'
    · intro t'
      by_cases at_t : t' = t
      · show (((k.setPhase t (.running next)).V (.ofLock l)).1.phase t').sound holding
        rw [at_t, runs]
        trivial
      · exact (others t' at_t).2
  | wait c l =>
    obtain ⟨present, after⟩ := respects
    have others : ∀ t', t' ≠ t → (k.Wait t c l next).1.phase t' = (k.V (.ofLock l)).1.phase t' := by
      intro t' other
      simp [State.Wait, State.Release, other]
    refine held.release (t := t) (l := l) (by rw [stands]; exact present) ?_ ?_ ?_ ?_ ?_
    · show Function.update (k.V (.ofLock l)).1.owner l none = _
      rw [State.V_owner]
    · intro l'
      by_cases same : l' = l
      · subst same
        simp [State.perform, State.Wait, State.Release]
      · simp [State.perform, State.Wait, State.Release, same]
    · intro l'
      simp [State.perform, State.Wait, stands, Phase.holds, after, and_comm, eq_comm]
    · intro t'
      by_cases at_t : t' = t
      · subst at_t
        simpa [State.perform, State.Wait, Phase.sound, after] using present
      · show ((k.Wait t c l next).1.phase t').sound holding
        rw [others t' at_t]
        exact (V_phase _ (held.sound t')).2
    · intro t' other l'
      show ((k.Wait t c l next).1.phase t').holds holding l' ↔ _
      rw [others t' other]
      exact (V_phase _ (held.sound t')).1 l'
  | signal c l => exact (gone respects).Signal c
  | broadcast c l => exact (gone respects).Broadcast c
  | fork child =>
    have went := gone respects
    show HeldBy holding ((k.setPhase t (.running next)).Fork child).1
    unfold State.Fork
    split
    · rename_i entry fresh
      have sound := went.sound child
      rw [fresh] at sound
      refine went.setPhase (fun l => ?_) trivial
      rw [fresh]
      exact iff_of_false (sound l) (fun none => none)
    · exact went
  | finish =>
    refine held.setPhase (fun l => ?_) trivial
    rw [stands]
    exact iff_of_false (fun none => none) (respects l)

theorem step {code : Code T S L C U W} {events : List (Event T S L C)} (held : HeldBy holding k)
    (annotated : code.Annotated holding) (step : Step code k events k') : HeldBy holding k' := by
  cases step with
  | segment stands does once => exact (held.memory _).perform _ stands (annotated does)
  | retest stands =>
    rename_i t id inWait next
    have sound := held.sound t
    rw [stands] at sound
    refine held.P (fun l => by rw [stands]; rfl) fun l same => ?_
    subst same
    exact sound
  | reacquire stands =>
    rename_i t c l next
    have sound := held.sound t
    rw [stands] at sound
    refine held.P (fun l' => ?_) fun l' same => ?_
    · simp [stands, Phase.holds]
    · cases same
      exact sound
  | interrupt fires =>
    rename_i raised memory
    cases raised with
    | none => exact held.memory memory
    | some s => exact (held.memory memory).V s

end

end HeldBy

end Nachos.Threads
