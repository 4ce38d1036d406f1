import Nachos.Filesys.DiskThreads

/-! The calls of the disk take turns: a request, its completion and the `P` that
waits for it belong to one call, and between two calls the disk is at rest. -/
namespace Nachos.DiskThreads
open Effects Threads

variable {T : Type}

/-- Has made its request and is not past `semaphore->P()`. -/
def waits : Stage → Bool
  | .at (.awaiting _ _ _) | .inP (.plain ()) _ => true
  | _ => false

/-- Past `semaphore->P()`, with the lock. -/
def ends : Stage → Bool
  | .at (.done _ _ _) | .at (.stored _ _ _) => true
  | _ => false

/-- Has the lock and has made no request. -/
def starts : Stage → Bool
  | .at (.looking _) | .at (.storing _ _) => true
  | _ => false

/-- The calls a thread can be asleep in. -/
def Expected : Stage → Prop
  | .inP (.plain ()) (.done _ _ _) | .inP (.plain ()) (.stored _ _ _) => True
  | .inP (.ofLock ()) (.looking _) | .inP (.ofLock ()) (.storing _ _) => True
  | .inP _ _ => False
  | _ => True

/-- The part of the memory that tells whose turn it is. -/
def Shared.sameTurn (m m' : Shared T) : Prop :=
  m'.active = m.active ∧ m'.pending = m.pending ∧ m'.failed = m.failed ∧
    m'.requests = m.requests ∧ m'.completions = m.completions ∧ m'.passed = m.passed

theorem Shared.sameTurn_refl (m : Shared T) : m.sameTurn m := ⟨rfl, rfl, rfl, rfl, rfl, rfl⟩

section
variable [DecidableEq T]

/-- What one step can do to a turn. -/
inductive Act (v : View T) : View T → Prop where
  | rests : Act v v
  /-- A thread that is not in its turn moves on and does not get into one. -/
  | aside {v' : View T} {t : T} {stage : Stage} (outside : waits (v.stage t) = false)
      (notEnding : ends (v.stage t) = false) (stages : v'.stage = Function.update v.stage t stage)
      (out : waits stage = false) (notEnds : ends stage = false)
      (value : v'.value (.plain ()) = v.value (.plain ())) (memory : v.memory.sameTurn v'.memory) :
      Act v v'
  | requests {v' : View T} {t : T} {stage : Stage} (has : starts (v.stage t) = true)
      (stages : v'.stage = Function.update v.stage t stage)
      (memory : (v.memory.request t).sameTurn v'.memory)
      (tried : v.value (.plain ()) = 0 ∧ waits stage = true ∧
          v'.value (.plain ()) = v.value (.plain ()) ∨ v.value (.plain ()) ≠ 0) :
      Act v v'
  | hits {v' : View T} {t : T} {stage : Stage} (has : starts (v.stage t) = true)
      (stages : v'.stage = Function.update v.stage t stage) (now : waits stage = true)
      (value : v'.value (.plain ()) = v.value (.plain ()) + 1)
      (active : v'.memory.active = false) (pending : v'.memory.pending = v.memory.pending)
      (failed : v'.memory.failed = v.memory.failed)
      (requests : v'.memory.requests = v.memory.requests ++ [t])
      (completions : v'.memory.completions = v.memory.completions ++ [t])
      (passed : v'.memory.passed = v.memory.passed) : Act v v'
  | retries {v' : View T} {t : T} {stage : Stage} (was : waits (v.stage t) = true)
      (stages : v'.stage = Function.update v.stage t stage) (still : waits stage = true)
      (value : v'.value (.plain ()) = v.value (.plain ())) (memory : v'.memory = v.memory) :
      Act v v'
  | passes {v' : View T} {t : T} {stage : Stage} (was : waits (v.stage t) = true)
      (stages : v'.stage = Function.update v.stage t stage) (now : ends stage = true)
      (nonzero : v.value (.plain ()) ≠ 0)
      (value : v'.value (.plain ()) = v.value (.plain ()) - 1) (memory : v'.memory = v.memory) :
      Act v v'
  | leaves {v' : View T} {t : T} {stage : Stage} (was : ends (v.stage t) = true)
      (stages : v'.stage = Function.update v.stage t stage) (out : waits stage = false)
      (notEnds : ends stage = false) (value : v'.value (.plain ()) = v.value (.plain ()))
      (memory : Shared.sameTurn { v.memory with passed := v.memory.passed ++ [t] } v'.memory) :
      Act v v'
  | completes {v' : View T} {t : T} {before after : List T}
      (scheduled : v.memory.pending = before ++ t :: after) (stages : v'.stage = v.stage)
      (value : v'.value (.plain ()) = v.value (.plain ()) + 1)
      (memory : v'.memory = v.memory.complete t (before ++ after)) : Act v v'

/-- A step of the view is one of these. -/
theorem act_of_step {v v' : View T} (expected : ∀ t, Expected (v.stage t))
    (step : View.Step (code T) v v') : Act v v' := by
  have same := v.memory.sameTurn_refl
  cases step with
  | still => exact .rests
  | goes stands does quiet =>
    cases does <;> cases quiet <;>
      exact .aside (by rw [stands]; rfl) (by rw [stands]; rfl) rfl rfl rfl rfl same
  | takes stands does takes nonzero =>
    cases does <;> cases takes
    · exact .aside (by rw [stands]; rfl) (by rw [stands]; rfl) rfl rfl rfl rfl same
    · exact .requests (by rw [stands]; rfl) rfl (Shared.sameTurn_refl _) (.inr nonzero)
    · refine .passes (by rw [stands]; rfl) rfl rfl nonzero ?_ rfl
      simp [View.setStage, View.add]
      rfl
    · exact .aside (by rw [stands]; rfl) (by rw [stands]; rfl) rfl rfl rfl rfl same
    · exact .requests (by rw [stands]; rfl) rfl (Shared.sameTurn_refl _) (.inr nonzero)
  | sleeps stands does takes zero =>
    cases does <;> cases takes
    · exact .aside (by rw [stands]; rfl) (by rw [stands]; rfl) rfl rfl rfl rfl same
    · exact .requests (by rw [stands]; rfl) rfl (Shared.sameTurn_refl _) (.inl ⟨zero, rfl, rfl⟩)
    · exact .retries (by rw [stands]; rfl) rfl rfl rfl rfl
    · exact .aside (by rw [stands]; rfl) (by rw [stands]; rfl) rfl rfl rfl rfl same
    · exact .requests (by rw [stands]; rfl) rfl (Shared.sameTurn_refl _) (.inl ⟨zero, rfl, rfl⟩)
  | retakes stands nonzero =>
    rename_i t next id
    have where_ := expected t
    rw [stands] at where_
    cases id with
    | ofLock l =>
      cases next <;> simp only [Expected] at where_ <;>
        exact .aside (by rw [stands]; rfl) (by rw [stands]; rfl) rfl rfl rfl rfl same
    | plain s =>
      have value : ((v.add (.plain s) (-1)).setStage t (.at next)).value (.plain ()) =
          v.value (.plain ()) - 1 := by
        simp [View.setStage, View.add]
        rfl
      cases next <;> simp only [Expected] at where_ <;>
        exact .passes (by rw [stands]; rfl) rfl rfl nonzero value rfl
  | raises stands does raises =>
    cases does <;> cases raises
    · refine .hits (by rw [stands]; rfl) rfl rfl ?_ rfl rfl rfl rfl rfl rfl
      simp [View.setStage, View.add]
    · exact .leaves (by rw [stands]; rfl) rfl rfl rfl rfl (Shared.sameTurn_refl _)
    · exact .leaves (by rw [stands]; rfl) rfl rfl rfl rfl (Shared.sameTurn_refl _)
  | waits stands does => cases does
  | returns stands nonzero => rename_i c _ _; exact c.elim
  | reacquires stands zero => rename_i c _ _; exact c.elim
  | forks stands does fresh => cases does
  | finishes stands does =>
    cases does
    exact .aside (by rw [stands]; rfl) (by rw [stands]; rfl) rfl rfl rfl rfl same
  | interrupt fires => cases fires
  | interrupts fires =>
    cases fires with
    | diskDone scheduled =>
      refine .completes scheduled rfl ?_ rfl
      simp [View.add]

end

/-! ## Whose turn it is -/

/-- The disk at rest: inactive, its semaphore down, no interrupt pending. -/
def Rests (v : View T) : Prop :=
  v.memory.active = false ∧ v.value (.plain ()) = 0 ∧ v.memory.pending = []

/-- The turn of one thread at most: from its request to the interrupt, on to its
`P`, and to the release of the lock. -/
inductive Turn (v : View T) : Prop where
  | nobodys (nobody : ∀ t, waits (v.stage t) = false ∧ ends (v.stage t) = false) (rests : Rests v)
      (completed : v.memory.requests = v.memory.completions)
      (passed : v.memory.completions = v.memory.passed)
  | underway {t : T} (its : waits (v.stage t) = true) (active : v.memory.active = true)
      (down : v.value (.plain ()) = 0) (pending : v.memory.pending = [t])
      (requested : v.memory.requests = v.memory.completions ++ [t])
      (passed : v.memory.completions = v.memory.passed)
  | completed {t : T} (its : waits (v.stage t) = true) (inactive : v.memory.active = false)
      (up : v.value (.plain ()) = 1) (nonePending : v.memory.pending = [])
      (completed : v.memory.requests = v.memory.completions)
      (unused : v.memory.completions = v.memory.passed ++ [t])
  | ending {t : T} (its : ends (v.stage t) = true) (rests : Rests v)
      (completed : v.memory.requests = v.memory.completions)
      (used : v.memory.completions = v.memory.passed ++ [t])

/-- In its turn a thread holds the lock. -/
theorem holds_in_turn {stage : Stage} (fine : Expected stage)
    (its : waits stage = true ∨ ends stage = true ∨ starts stage = true) :
    stage.holds holding () := by
  cases stage with
  | «at» u => cases u <;> simp_all [waits, ends, starts, Threads.Stage.holds, holding]
  | inP id u =>
    cases id with
    | plain s => cases u <;> simp_all [waits, ends, starts, Expected, Threads.Stage.holds, holding]
    | ofLock l => simp [waits, ends, starts] at its
  | fresh u => simp [waits, ends, starts] at its
  | inWait c l u => exact c.elim
  | finished => simp [waits, ends, starts] at its

theorem waits_not_ends {stage : Stage} (its : waits stage = true) : ends stage = false := by
  cases stage with
  | «at» u => cases u <;> simp_all [waits, ends]
  | inP id u => rfl
  | fresh u => rfl
  | inWait c l u => rfl
  | finished => rfl

theorem starts_not_in_turn {stage : Stage} (has : starts stage = true) :
    waits stage = false ∧ ends stage = false := by
  cases stage with
  | «at» u => cases u <;> simp_all [starts, waits, ends]
  | inP id u => simp [starts] at has
  | fresh u => simp [starts] at has
  | inWait c l u => simp [starts] at has
  | finished => simp [starts] at has

variable {v v' : View T}

/-- Who has the lock before making a request finds the disk at rest. -/
theorem Turn.rests (turn : Turn v) (exclusive : v.Exclusive holding)
    (expected : ∀ t, Expected (v.stage t)) {t : T} (has : starts (v.stage t) = true) :
    Rests v ∧ (∀ t, waits (v.stage t) = false ∧ ends (v.stage t) = false) ∧
      v.memory.requests = v.memory.completions ∧ v.memory.completions = v.memory.passed := by
  have alone : ∀ t', waits (v.stage t') = true ∨ ends (v.stage t') = true → False := by
    intro t' its
    have inTurn : waits (v.stage t') = true ∨ ends (v.stage t') = true ∨
        starts (v.stage t') = true := its.imp_right .inl
    have same : t' = t := exclusive (holds_in_turn (expected t') inTurn)
      (holds_in_turn (expected t) (.inr (.inr has)))
    subst same
    simp [starts_not_in_turn has] at its
  cases turn with
  | nobodys nobody rests completed passed => exact ⟨rests, nobody, completed, passed⟩
  | underway its => exact (alone _ (.inl its)).elim
  | completed its => exact (alone _ (.inl its)).elim
  | ending its => exact (alone _ (.inr its)).elim

/-- Two threads in their turn are one. -/
private theorem same_turn (exclusive : v.Exclusive holding) (expected : ∀ t, Expected (v.stage t))
    {t t' : T} (its : waits (v.stage t) = true ∨ ends (v.stage t) = true)
    (its' : waits (v.stage t') = true ∨ ends (v.stage t') = true) : t = t' :=
  exclusive (holds_in_turn (expected t) (its.imp_right .inl))
    (holds_in_turn (expected t') (its'.imp_right .inl))

section
variable [DecidableEq T]

/-- The turn stays with its thread while another one moves aside. -/
private theorem Turn.aside (turn : Turn v) {t : T} {stage : Stage}
    (outside : waits (v.stage t) = false) (notEnding : ends (v.stage t) = false)
    (stages : v'.stage = Function.update v.stage t stage) (out : waits stage = false)
    (notEnds : ends stage = false) (value : v'.value (.plain ()) = v.value (.plain ()))
    (memory : v.memory.sameTurn v'.memory) : Turn v' := by
  obtain ⟨active, pending, failed, requests, completions, passed⟩ := memory
  have stays : ∀ {t'}, waits (v.stage t') = true ∨ ends (v.stage t') = true →
      v'.stage t' = v.stage t' := by
    intro t' its
    have other : t' ≠ t := by
      rintro rfl
      simp [outside, notEnding] at its
    rw [stages, Function.update_of_ne other]
  cases turn with
  | nobodys nobody rests completed passed' =>
    refine .nobodys (fun t' => ?_) ?_ (by rw [requests, completions, completed])
      (by rw [completions, passed, passed'])
    · rw [stages]
      by_cases same : t' = t
      · simp [same, out, notEnds]
      · simpa [same] using nobody t'
    · exact ⟨by rw [active]; exact rests.1, by rw [value]; exact rests.2.1,
        by rw [pending]; exact rests.2.2⟩
  | underway its active' down pending' requested passed' =>
    exact .underway (by rw [stays (.inl its)]; exact its) (by rw [active, active'])
      (by rw [value, down]) (by rw [pending, pending']) (by rw [requests, completions, requested])
      (by rw [completions, passed, passed'])
  | completed its inactive up nonePending completed unused =>
    exact .completed (by rw [stays (.inl its)]; exact its) (by rw [active, inactive])
      (by rw [value, up]) (by rw [pending, nonePending]) (by rw [requests, completions, completed])
      (by rw [completions, passed, unused])
  | ending its rests completed used =>
    refine .ending (by rw [stays (.inr its)]; exact its) ?_ (by rw [requests, completions, completed])
      (by rw [completions, passed, used])
    exact ⟨by rw [active]; exact rests.1, by rw [value]; exact rests.2.1,
      by rw [pending]; exact rests.2.2⟩

theorem Turn.act (turn : Turn v) (exclusive : v.Exclusive holding)
    (expected : ∀ t, Expected (v.stage t)) (act : Act v v') : Turn v' := by
  cases act with
  | rests => exact turn
  | aside outside notEnding stages out notEnds value memory =>
    exact turn.aside outside notEnding stages out notEnds value memory
  | requests has stages memory tried =>
    obtain ⟨⟨inactive, down, nonePending⟩, nobody, completed, passed⟩ :=
      turn.rests exclusive expected has
    obtain ⟨-, now, value⟩ := tried.resolve_right (fun nonzero => nonzero down)
    obtain ⟨active, pending, failed, requests, completions, passed'⟩ := memory
    refine .underway (by rw [stages, Function.update_self]; exact now) active (by rw [value, down])
      ?_ ?_ ?_
    · rw [pending]
      simp [Shared.request, nonePending]
    · rw [requests, completions]
      simp [Shared.request, completed]
    · rw [completions, passed']
      exact passed
  | hits has stages now value active pending failed requests completions passed =>
    obtain ⟨⟨inactive, down, nonePending⟩, nobody, completed, passed'⟩ :=
      turn.rests exclusive expected has
    exact .completed (by rw [stages, Function.update_self]; exact now) active
      (by rw [value, down]; rfl) (by rw [pending, nonePending])
      (by rw [requests, completions, completed]) (by rw [completions, passed, passed'])
  | retries was stages still value memory =>
    rename_i t stage
    cases turn with
    | nobodys nobody => simp [nobody t] at was
    | underway its active down pending requested passed =>
      obtain rfl := same_turn exclusive expected (.inl was) (.inl its)
      exact .underway (by rw [stages, Function.update_self]; exact still) (by rw [memory, active])
        (by rw [value, down]) (by rw [memory, pending]) (by rw [memory, requested])
        (by rw [memory, passed])
    | completed its inactive up nonePending completed unused =>
      obtain rfl := same_turn exclusive expected (.inl was) (.inl its)
      exact .completed (by rw [stages, Function.update_self]; exact still) (by rw [memory, inactive])
        (by rw [value, up]) (by rw [memory, nonePending]) (by rw [memory, completed])
        (by rw [memory, unused])
    | ending its =>
      obtain rfl := same_turn exclusive expected (.inl was) (.inr its)
      simp [waits_not_ends was] at its
  | passes was stages now nonzero value memory =>
    rename_i t stage
    cases turn with
    | nobodys nobody => simp [nobody t] at was
    | underway its active down => exact (nonzero down).elim
    | completed its inactive up nonePending completed unused =>
      obtain rfl := same_turn exclusive expected (.inl was) (.inl its)
      refine .ending (by rw [stages, Function.update_self]; exact now)
        ⟨by rw [memory, inactive], by rw [value, up]; rfl, by rw [memory, nonePending]⟩
        (by rw [memory, completed]) (by rw [memory, unused])
    | ending its =>
      obtain rfl := same_turn exclusive expected (.inl was) (.inr its)
      simp [waits_not_ends was] at its
  | leaves was stages out notEnds value memory =>
    rename_i t stage
    obtain ⟨active, pending, failed, requests, completions, passed⟩ := memory
    have its' : waits (v.stage t) = true ∨ ends (v.stage t) = true := .inr was
    cases turn with
    | nobodys nobody => simp [nobody t] at was
    | underway its =>
      obtain rfl := same_turn exclusive expected its' (.inl its)
      simp [waits_not_ends its] at was
    | completed its =>
      obtain rfl := same_turn exclusive expected its' (.inl its)
      simp [waits_not_ends its] at was
    | ending its rests completed used =>
      obtain rfl := same_turn exclusive expected its' (.inr its)
      refine .nobodys (fun t' => ?_) ?_ (by rw [requests, completions]; exact completed)
        (by rw [completions, passed]; exact used)
      · rw [stages]
        by_cases same : t' = t
        · simp [same, out, notEnds]
        · rw [Function.update_of_ne same]
          have alone : ¬ (waits (v.stage t') = true ∨ ends (v.stage t') = true) := fun its'' =>
            same (same_turn exclusive expected its'' its')
          simpa using alone
      · exact ⟨by rw [active]; exact rests.1, by rw [value]; exact rests.2.1,
          by rw [pending]; exact rests.2.2⟩
  | completes scheduled stages value memory =>
    rename_i t before after
    cases turn with
    | nobodys nobody rests => simp [rests.2.2] at scheduled
    | underway its active down pending requested passed =>
      rename_i t'
      rw [pending] at scheduled
      obtain ⟨rfl, rfl, rfl⟩ : before = [] ∧ t' = t ∧ after = [] := by
        cases before with
        | nil => simpa using scheduled
        | cons first rest => simp at scheduled
      exact .completed (by rw [stages]; exact its) (by rw [memory]; rfl)
        (by rw [value, down]; rfl) (by rw [memory]; rfl)
        (by rw [memory]; simpa [Shared.complete] using requested)
        (by rw [memory]; simpa [Shared.complete] using passed)
    | completed its inactive up nonePending => simp [nonePending] at scheduled
    | ending its rests => simp [rests.2.2] at scheduled

/-- No request is made of an active disk. -/
theorem Turn.not_failed (turn : Turn v) (exclusive : v.Exclusive holding)
    (expected : ∀ t, Expected (v.stage t)) (fine : v.memory.failed = false) (act : Act v v') :
    v'.memory.failed = false := by
  cases act with
  | rests => exact fine
  | aside outside notEnding stages out notEnds value memory => rw [memory.2.2.1, fine]
  | requests has stages memory tried =>
    obtain ⟨⟨inactive, -, -⟩, -⟩ := turn.rests exclusive expected has
    rw [memory.2.2.1]
    simp [Shared.request, fine, inactive]
  | hits has stages now value active pending failed => rw [failed, fine]
  | retries was stages still value memory => rw [memory, fine]
  | passes was stages now nonzero value memory => rw [memory, fine]
  | leaves was stages out notEnds value memory =>
    rw [memory.2.2.1]
    exact fine
  | completes scheduled stages value memory =>
    rw [memory]
    exact fine

theorem expected_step (expected : ∀ t, Expected (v.stage t)) (step : View.Step (code T) v v') :
    ∀ t, Expected (v'.stage t) := by
  have moved : ∀ {t : T} {stage : Stage}, Expected stage → ∀ t',
      Expected (Function.update v.stage t stage t') := by
    intro t stage fine t'
    by_cases same : t' = t
    · simpa [same] using fine
    · simpa [same] using expected t'
  cases step with
  | still => exact expected
  | goes stands does quiet => exact moved trivial
  | takes stands does takes nonzero => exact moved trivial
  | sleeps stands does takes zero => cases does <;> cases takes <;> exact moved trivial
  | retakes stands nonzero => exact moved trivial
  | raises stands does raises => exact moved trivial
  | waits stands does => exact moved trivial
  | returns stands nonzero => exact moved trivial
  | reacquires stands zero => rename_i c _ _; exact c.elim
  | forks stands does fresh => cases does
  | finishes stands does => exact moved trivial
  | interrupt fires => cases fires
  | interrupts fires => exact expected

end

/-! ## Whole runs -/

/-- What every state of a run has. -/
structure Kept (k : State T) : Prop where
  held : HeldBy holding k
  expected (t : T) : Expected (k.phase t).stage
  turn : Turn k.view
  fine : k.memory.failed = false

theorem Begins.kept {k : State T} (begins : Begins k) : Kept k := by
  have away : ∀ t, (k.phase t).stage = .fresh .outside ∨ (k.phase t).stage = .at .outside := by
    intro t
    obtain fresh | running := begins.outside t
    · exact .inl (by rw [fresh]; rfl)
    · exact .inr (by rw [running]; rfl)
  obtain ⟨requests, completions, passed, -⟩ := begins.unrecorded
  refine ⟨HeldBy.start begins.toStarts ?_, fun t => ?_, ?_, begins.idle.2.2⟩
  · intro t u stands l
    obtain fresh | running := begins.outside t
    · rw [fresh] at stands
      obtain same | same := stands <;> cases same
      exact id
    · rw [running] at stands
      obtain same | same := stands <;> cases same
      exact id
  · obtain fresh | running := away t
    · rw [fresh]
      trivial
    · rw [running]
      trivial
  · refine .nobodys (fun t => ?_) ⟨begins.idle.1, begins.semaphore, begins.idle.2.1⟩
      (requests.trans completions.symm) (completions.trans passed.symm)
    show waits (k.phase t).stage = false ∧ ends (k.phase t).stage = false
    obtain fresh | running := away t
    · rw [fresh]
      exact ⟨rfl, rfl⟩
    · rw [running]
      exact ⟨rfl, rfl⟩

variable [DecidableEq T]

theorem Kept.step {k k' : State T} {events : List (Event T Unit Unit Empty)}
    (kept : Kept k) (step : Threads.Step (code T) k events k') : Kept k' := by
  have act := act_of_step kept.expected step.view
  exact ⟨kept.held.step annotated step, expected_step kept.expected step.view,
    kept.turn.act kept.held.exclusive kept.expected act,
    kept.turn.not_failed kept.held.exclusive kept.expected kept.fine act⟩

/-- Whenever the disk's lock is free the disk is inactive, its semaphore is down
and no interrupt is pending; no request meets an active disk; and the calls get
past `P` in the order in which their requests were completed, which is the order
in which they were made, so each is let through by its own completion. -/
theorem disk_calls_take_turns {start k : State T} {trace : List (Event T Unit Unit Empty)}
    (begins : Begins start) (run : Runs (Threads.Step (code T)) start trace k) :
    (k.owner () = none → k.memory.active = false ∧ (k.sem (.plain ())).value = 0 ∧
      k.memory.pending = []) ∧
    k.memory.failed = false ∧
    k.memory.passed <+: k.memory.completions ∧ k.memory.completions <+: k.memory.requests ∧
    ∀ t, waits (k.phase t).stage = true → (k.sem (.plain ())).value ≠ 0 →
      k.memory.completions = k.memory.passed ++ [t] ∧
      k.memory.requests = k.memory.completions := by
  have kept : Kept k := run.invariant_state begins.kept fun kept step => kept.step step
  have turn := kept.turn
  have expected : ∀ t, Expected (k.view.stage t) := kept.expected
  refine ⟨fun free => ?_, kept.fine, ?_, ?_, fun t its nonzero => ?_⟩
  · have nobody : ∀ t, ¬ (waits (k.view.stage t) = true ∨ ends (k.view.stage t) = true) := by
      intro t its
      have holds := holds_in_turn (kept.expected t) (its.imp_right .inl)
      rw [Phase.holds_stage] at holds
      simp [(kept.held.owner () t).mpr holds] at free
    cases turn with
    | nobodys _ rests => exact rests
    | underway its => exact (nobody _ (.inl its)).elim
    | completed its => exact (nobody _ (.inl its)).elim
    | ending its => exact (nobody _ (.inr its)).elim
  · cases turn with
    | nobodys _ _ _ passed => exact ⟨[], (List.append_nil _).trans passed.symm⟩
    | underway _ _ _ _ _ passed => exact ⟨[], (List.append_nil _).trans passed.symm⟩
    | completed _ _ _ _ _ unused => exact ⟨_, unused.symm⟩
    | ending _ _ _ used => exact ⟨_, used.symm⟩
  · cases turn with
    | nobodys _ _ completed => exact ⟨[], (List.append_nil _).trans completed.symm⟩
    | underway _ _ _ _ requested => exact ⟨_, requested.symm⟩
    | completed _ _ _ _ completed => exact ⟨[], (List.append_nil _).trans completed.symm⟩
    | ending _ _ completed => exact ⟨[], (List.append_nil _).trans completed.symm⟩
  · have its' : waits (k.view.stage t) = true ∨ ends (k.view.stage t) = true := .inl its
    cases turn with
    | nobodys nobody =>
      have out : waits (k.view.stage t) = false := (nobody t).1
      exact absurd its (by simpa [State.view] using out)
    | underway _ _ down => exact absurd down nonzero
    | completed its'' _ _ _ completed unused =>
      obtain rfl := same_turn kept.held.exclusive expected its' (.inl its'')
      exact ⟨unused, completed⟩
    | ending its'' rests => exact absurd rests.2.1 nonzero

/-- A miss: the read waits, the interrupt lets it through. -/
theorem disk_calls_take_turns_missed :
    ∃ trace k, Runs (Threads.Step (code Bool)) twoThreads trace k ∧
      waits (k.phase false).stage = true ∧ k.memory.completions = k.memory.passed ++ [false] ∧
      k.memory.failed = false := by
  have enters : Runs (Threads.Step (code Bool)) twoThreads _ _ :=
    .next .start (.segment (t := false) rfl (.readSector (s := 5) (by decide)) (by simp))
  have asks := enters.next (.segment (t := false) rfl (.misses 0 rfl) (by simp))
  have fires : Runs (Threads.Step (code Bool)) twoThreads _ _ :=
    asks.next (.interrupt (.diskDone (t := false) rfl))
  obtain ⟨-, fine, -, -, own⟩ := disk_calls_take_turns twoThreads_begins fires
  exact ⟨_, _, fires, rfl, (own false rfl (by decide)).1, fine⟩

end Nachos.DiskThreads
