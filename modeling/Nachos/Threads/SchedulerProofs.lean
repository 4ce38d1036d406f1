import Nachos.Threads.Scheduler

/-! The ready list, the queues and the status of every thread agree with one
another whenever the current thread is not giving the processor up, and threads
are dispatched in the order in which they were made ready. -/
namespace Nachos.Threads
open Effects

variable {T S L C U W : Type}

/-! ## Which threads an operation makes ready -/

/-- What the scheduler has to know about a phase. -/
inductive Standing where
  | unborn
  | awake
  | asleep
  | finished
deriving DecidableEq

def Phase.standing : Phase S L C U → Standing
  | .fresh _ => .unborn
  | .running _ | .woken _ _ _ | .signalled _ _ _ => .awake
  | .queued _ _ _ | .waiting _ _ _ => .asleep
  | .finished => .finished

theorem Phase.standing_of_place {phase : Phase S L C U} {q : Queue S L C}
    (asleep : phase.place = some q) : phase.standing = .asleep ∧ phase.readied.standing = .awake := by
  cases phase <;> simp [Phase.place] at asleep <;> exact ⟨rfl, rfl⟩

theorem Phase.place_of_standing {phase : Phase S L C U} (asleep : phase.standing = .asleep) :
    ∃ q, phase.place = some q := by
  cases phase <;> simp [Phase.standing] at asleep <;> exact ⟨_, rfl⟩

/-- Apart from `actor`, exactly the threads of the list are made ready, each once,
and nobody else notices. -/
structure Wakes (actor : Option T) (k : State T S L C U W) (woken : List T)
    (k' : State T S L C U W) : Prop where
  nodup : woken.Nodup
  apart (t : T) : t ∈ woken → actor ≠ some t
  was (t : T) : t ∈ woken → (k.phase t).standing = .asleep ∨ (k.phase t).standing = .unborn
  awake (t : T) : t ∈ woken → (k'.phase t).standing = .awake
  others (t : T) : t ∉ woken → actor ≠ some t → (k'.phase t).standing = (k.phase t).standing

namespace Wakes

variable {actor : Option T} {k k' k'' : State T S L C U W} {woken woken' : List T}

theorem none (phases : ∀ t, actor ≠ some t → k'.phase t = k.phase t) : Wakes actor k [] k' where
  nodup := List.nodup_nil
  apart _ inside := by cases inside
  was _ inside := by cases inside
  awake _ inside := by cases inside
  others t _ other := by rw [phases t other]

/-- One thread is made ready, which then is not the one that does it. -/
theorem one {t : T} (other : actor ≠ some t)
    (was : (k.phase t).standing = .asleep ∨ (k.phase t).standing = .unborn)
    (awake : (k'.phase t).standing = .awake)
    (others : ∀ t', t' ≠ t → actor ≠ some t' → k'.phase t' = k.phase t') : Wakes actor k [t] k' where
  nodup := List.nodup_singleton t
  apart t' inside := by
    rw [List.mem_singleton.mp inside]
    exact other
  was t' inside := by
    rw [List.mem_singleton.mp inside]
    exact was
  awake t' inside := by
    rw [List.mem_singleton.mp inside]
    exact awake
  others t' outside apart := by
    rw [others t' (fun same => outside (List.mem_singleton.mpr same)) apart]

theorem trans (first : Wakes actor k woken k') (second : Wakes actor k' woken' k'') :
    Wakes actor k (woken ++ woken') k'' where
  nodup := by
    refine List.nodup_append.mpr ⟨first.nodup, second.nodup, fun t early t' late same => ?_⟩
    subst same
    have awake := first.awake t early
    obtain asleep | unborn := second.was t late
    · rw [awake] at asleep
      cases asleep
    · rw [awake] at unborn
      cases unborn
  apart t inside := by
    obtain early | late := List.mem_append.mp inside
    · exact first.apart t early
    · exact second.apart t late
  was t inside := by
    obtain early | late := List.mem_append.mp inside
    · exact first.was t early
    · by_cases early : t ∈ woken
      · exact first.was t early
      · rw [← first.others t early (second.apart t late)]
        exact second.was t late
  awake t inside := by
    by_cases late : t ∈ woken'
    · exact second.awake t late
    · obtain early | late' := List.mem_append.mp inside
      · rw [second.others t late (first.apart t early)]
        exact first.awake t early
      · exact absurd late' late
  others t outside apart := by
    obtain ⟨notFirst, notSecond⟩ := not_or.mp (fun inside => outside (List.mem_append.mpr inside))
    rw [second.others t notSecond apart, first.others t notFirst apart]

theorem congr (wakes : Wakes actor k woken k') (phases : k''.phase = k'.phase)
    (same : woken' = woken) : Wakes actor k woken' k'' := by
  subst same
  exact ⟨wakes.nodup, wakes.apart, wakes.was, by rw [phases]; exact wakes.awake,
    by rw [phases]; exact wakes.others⟩

/-- What nobody in particular does, a thread that is awake can do. -/
theorem by_self {t : T} (wakes : Wakes Option.none k woken k')
    (awake : (k.phase t).standing = .awake) : Wakes (some t) k woken k' where
  nodup := wakes.nodup
  apart t' inside := by
    rintro ⟨⟩
    obtain asleep | unborn := wakes.was t inside
    · rw [awake] at asleep
      cases asleep
    · rw [awake] at unborn
      cases unborn
  was := wakes.was
  awake := wakes.awake
  others t' outside _ := wakes.others t' outside fun impossible => by cases impossible

theorem stays_awake {t : T} (wakes : Wakes Option.none k woken k')
    (awake : (k.phase t).standing = .awake) : (k'.phase t).standing = .awake := by
  by_cases inside : t ∈ woken
  · exact wakes.awake t inside
  · rw [wakes.others t inside fun impossible => by cases impossible]
    exact awake

/-- The memory does not matter. -/
theorem after_memory {memory : W} (wakes : Wakes actor { k with memory := memory } woken k') :
    Wakes actor k woken k' := ⟨wakes.nodup, wakes.apart, wakes.was, wakes.awake, wakes.others⟩

end Wakes

section
variable {k : State T S L C U W}

section
variable [DecidableEq T]

/-- The thread itself goes to another phase. -/
private theorem setPhase_wakes (k : State T S L C U W) (t : T) (phase : Phase S L C U) :
    Wakes (some t) k [] (k.setPhase t phase) :=
  .none fun t' other => State.setPhase_other _ fun same => other (by rw [same])

variable [DecidableEq S] [DecidableEq L]

theorem State.Queued.V_wakes (valid : k.Queued) (id : SemId S L) :
    Wakes none k (readiedBy (k.V id).2) (k.V id).1 := by
  cases shape : (k.sem id).queue with
  | nil =>
    rw [State.V_alone shape]
    exact .none fun _ _ => rfl
  | cons t rest =>
    have asleep : (k.phase t).place = some (.sem id) :=
      (valid.member (.sem id) t).mp (by simp [State.line, shape])
    obtain ⟨before, after⟩ := Phase.standing_of_place asleep
    rw [State.V_wakes shape]
    refine .one (fun impossible => by cases impossible) (.inl before) ?_ fun t' other _ => ?_
    · rw [State.ready_same]
      exact after
    · rw [State.ready_other other, State.setSem_phase]

private theorem readiedBy_P (k : State T S L C U W) (t : T) (id : SemId S L) (inWait : Option C)
    (next : U) : readiedBy (k.P t id inWait next).2 = [] := by
  by_cases zero : (k.sem id).value = 0
  · rw [State.P_sleeps zero]
    rfl
  · cases id with
    | plain s =>
      rw [State.P_takes_plain zero]
      rfl
    | ofLock l =>
      rw [State.P_takes_lock zero]
      cases inWait <;> rfl

theorem P_wakes (k : State T S L C U W) (t : T) (id : SemId S L) (inWait : Option C) (next : U) :
    Wakes (some t) k (readiedBy (k.P t id inWait next).2) (k.P t id inWait next).1 := by
  rw [readiedBy_P]
  exact .none fun t' other => State.P_phase_other fun same => other (by rw [same])

end

section
variable [DecidableEq T] [DecidableEq C]

theorem State.Queued.Signal_wakes (valid : k.Queued) (c : C) :
    Wakes none k (readiedBy (k.Signal c).2) (k.Signal c).1 := by
  cases shape : k.queue c with
  | nil =>
    rw [State.Signal_none shape]
    exact .none fun _ _ => rfl
  | cons t rest =>
    have asleep : (k.phase t).place = some (.cond c) :=
      (valid.member (.cond c) t).mp (by simp [State.line, shape])
    obtain ⟨before, after⟩ := Phase.standing_of_place asleep
    rw [State.Signal_wakes shape]
    refine .one (fun impossible => by cases impossible) (.inl before) ?_ fun t' other _ => ?_
    · rw [State.ready_same]
      exact after
    · rw [State.ready_other other]
      rfl

theorem State.Queued.Signal (valid : k.Queued) (c : C) : (k.Signal c).1.Queued := by
  cases shape : k.queue c with
  | nil =>
    rw [State.Signal_none shape]
    exact valid
  | cons t rest =>
    rw [State.Signal_wakes shape]
    exact valid.wakes shape

theorem State.Queued.Broadcast_wakes (valid : k.Queued) (c : C) :
    Wakes none k (readiedBy (k.Broadcast c).2) (k.Broadcast c).1 := by
  fun_induction State.Broadcast k c with
  | case1 => exact .none fun _ _ => rfl
  | case2 k nonempty rest ih =>
    rw [readiedBy, List.filterMap_append]
    exact (valid.Signal_wakes c).trans (ih (valid.Signal c))

variable [DecidableEq S] [DecidableEq L]

/-- What the operations of the current thread do to the others. -/
theorem perform_wakes (valid : k.Queued) {t : T} {u next : U} {op : Op T S L C}
    (stands : k.phase t = .running u)
    (once : ∀ child, op = .fork child → ∃ u, k.phase child = .fresh u) :
    Wakes (some t) k (readiedBy (k.perform t op next).2) (k.perform t op next).1 := by
  have gone : Wakes (some t) k [] (k.setPhase t (.running next)) := setPhase_wakes k t _
  have awake : ((k.setPhase t (.running next)).phase t).standing = .awake := by
    rw [State.setPhase_same]
    rfl
  have went : (k.setPhase t (.running next)).Queued := valid.setPhase (by rw [stands]; rfl)
  cases op with
  | tick => exact gone
  | yield => exact gone
  | p s => exact P_wakes k t (.plain s) Option.none next
  | acquire l => exact P_wakes k t (.ofLock l) Option.none next
  | v s => exact gone.trans ((went.V_wakes (.plain s)).by_self awake)
  | release l =>
    have raised := gone.trans ((went.V_wakes (.ofLock l)).by_self awake)
    obtain ⟨woken, events⟩ := State.V_events (k.setPhase t (.running next)) (.ofLock l)
    refine raised.congr rfl ?_
    simp only [State.perform, State.Release, events]
    cases woken <;> rfl
  | wait c l =>
    have before : (k.phase t).standing = .awake := by
      rw [stands]
      rfl
    have raised := (valid.V_wakes (.ofLock l)).by_self before
    obtain ⟨woken, events⟩ := State.V_events k (.ofLock l)
    have slept := raised.trans (setPhase_wakes (k.V (.ofLock l)).1 t (.waiting c l next))
    refine slept.congr rfl ?_
    simp only [State.perform, State.Wait, State.Release, events]
    cases woken <;> rfl
  | signal c l => exact gone.trans ((went.Signal_wakes c).by_self awake)
  | broadcast c l => exact gone.trans ((went.Broadcast_wakes c).by_self awake)
  | fork child =>
    obtain ⟨entry, fresh⟩ := once child rfl
    have other : child ≠ t := by
      rintro rfl
      rw [stands] at fresh
      cases fresh
    have still : (k.setPhase t (.running next)).phase child = .fresh entry := by
      rw [State.setPhase_other _ other, fresh]
    have forked : k.perform t (.fork child) next =
        ((k.setPhase t (.running next)).setPhase child (.running entry), [.forks child]) := by
      simp [State.perform, State.Fork, still]
    rw [forked]
    refine .one (fun same => other (Option.some.inj same).symm) (.inr ?_) ?_ fun t' apart actor => ?_
    · rw [fresh]
      rfl
    · rw [State.setPhase_same]
      rfl
    · rw [State.setPhase_other _ apart, State.setPhase_other _ fun same => actor (by rw [same])]
  | finish => exact setPhase_wakes k t .finished

/-- After its operation the current thread goes on, sleeps or has finished. -/
theorem perform_born (valid : k.Queued) {t : T} {u next : U} {op : Op T S L C}
    (stands : k.phase t = .running u)
    (once : ∀ child, op = .fork child → ∃ u, k.phase child = .fresh u) :
    ((k.perform t op next).1.phase t).standing ≠ .unborn := by
  have awake : ((k.setPhase t (.running next)).phase t).standing = .awake := by
    rw [State.setPhase_same]
    rfl
  have went : (k.setPhase t (.running next)).Queued := valid.setPhase (by rw [stands]; rfl)
  have born : ∀ {phase : Phase S L C U}, phase.standing = .awake → phase.standing ≠ .unborn := by
    intro phase awake unborn
    rw [awake] at unborn
    cases unborn
  have tested : ∀ id, ((k.P t id Option.none next).1.phase t).standing ≠ .unborn := by
    intro id
    obtain queued | running := k.P_phase_cases t id Option.none next
    · rw [queued]
      exact fun impossible => by cases impossible
    · rw [running]
      exact fun impossible => by cases impossible
  cases op with
  | tick => exact born awake
  | yield => exact born awake
  | p s => exact tested _
  | acquire l => exact tested _
  | v s => exact born ((went.V_wakes (.plain s)).stays_awake awake)
  | release l => exact born ((went.V_wakes (.ofLock l)).stays_awake awake)
  | wait c l =>
    simp only [State.perform, State.Wait, State.setPhase_same]
    exact fun impossible => by cases impossible
  | signal c l => exact born ((went.Signal_wakes c).stays_awake awake)
  | broadcast c l => exact born ((went.Broadcast_wakes c).stays_awake awake)
  | fork child =>
    have forked : Wakes (some t) k (readiedBy (k.perform t (.fork child) next).2)
        (k.perform t (.fork child) next).1 := perform_wakes valid stands once
    obtain ⟨entry, fresh⟩ := once child rfl
    have other : child ≠ t := by
      rintro rfl
      rw [stands] at fresh
      cases fresh
    simp only [State.perform, State.Fork]
    rw [State.setPhase_other _ other, fresh]
    simp only [State.setPhase_other _ (Ne.symm other)]
    exact born awake
  | finish =>
    simp only [State.perform, State.setPhase_same]
    exact fun impossible => by cases impossible

end

end

/-! ## The ready list -/

namespace Scheduler

variable [DecidableEq T]

theorem readies_eq (s : Scheduler T S L C U W)
    (result : State T S L C U W × List (Event T S L C)) :
    s.readies result =
      { s with
        threads := result.1
        readyList := s.readyList ++ readiedBy result.2
        status := fun t => if t ∈ readiedBy result.2 then .READY else s.status t } := by
  have folded : ∀ (ts : List T) (s : Scheduler T S L C U W), ts.foldl ReadyToRun s =
      { s with
        readyList := s.readyList ++ ts
        status := fun t => if t ∈ ts then .READY else s.status t } := by
    intro ts
    induction ts with
    | nil => simp
    | cons first rest ih =>
      intro s
      rw [List.foldl_cons, ih]
      simp only [ReadyToRun, setStatus, List.append_assoc, List.singleton_append, mk.injEq, true_and,
        and_true]
      funext t
      by_cases late : t ∈ rest
      · simp [late]
      · by_cases same : t = first
        · simp [same]
        · simp [late, same]
  exact folded _ _

/-- The status that a thread should have. -/
def expected (s : Scheduler T S L C U W) (t : T) : Status :=
  match (s.threads.phase t).standing with
  | .unborn => .JUST_CREATED
  | .awake => if s.mode = .on ∧ t = s.currentThread then .RUNNING else .READY
  | .asleep | .finished => .BLOCKED

/-- The ready list and the statuses are right. -/
structure Listed (s : Scheduler T S L C U W) : Prop where
  nodup : s.readyList.Nodup
  status (t : T) : s.status t = s.expected t
  ready (t : T) : t ∈ s.readyList ↔ s.expected t = .READY
  awake : s.mode = .on → (s.threads.phase s.currentThread).standing = .awake

/-- They are right for all threads but the current one, which runs. -/
structure ListedOthers (s : Scheduler T S L C U W) : Prop where
  nodup : s.readyList.Nodup
  status (t : T) : t ≠ s.currentThread → s.status t = s.expected t
  ready (t : T) : t ≠ s.currentThread → (t ∈ s.readyList ↔ s.expected t = .READY)
  running : s.status s.currentThread = .RUNNING
  absent : s.currentThread ∉ s.readyList

variable {s s' : Scheduler T S L C U W}

/-- What is expected of another thread depends on its phase only. -/
theorem expected_other {t : T} (other : t ≠ s.currentThread) (other' : t ≠ s'.currentThread)
    (same : (s'.threads.phase t).standing = (s.threads.phase t).standing) :
    s'.expected t = s.expected t := by
  simp [expected, same, other, other']

theorem expected_awake {t : T} (awake : (s.threads.phase t).standing = .awake)
    (other : ¬ (s.mode = .on ∧ t = s.currentThread)) : s.expected t = .READY := by
  simp [expected, awake, other]

theorem asleep_of_blocked {t : T} (blocked : s.expected t = .BLOCKED)
    (unfinished : s.threads.phase t ≠ .finished) : (s.threads.phase t).standing = .asleep := by
  cases shape : s.threads.phase t with
  | fresh next => simp [expected, shape, Phase.standing] at blocked
  | queued id inWait next => rfl
  | waiting c l next => rfl
  | finished => exact absurd shape unfinished
  | running next | woken id inWait next | signalled c l next =>
    simp only [expected, shape, Phase.standing] at blocked
    split at blocked <;> cases blocked

/-- A thread that was asleep or unborn was not in the ready list. -/
private theorem expected_sleeper {t : T}
    (was : (s.threads.phase t).standing = .asleep ∨ (s.threads.phase t).standing = .unborn) :
    s.expected t ≠ .READY := by
  obtain asleep | unborn := was
  · simp [expected, asleep]
  · simp [expected, unborn]

theorem Listed.others (listed : Listed s) (on : s.mode = .on) : ListedOthers s := by
  have current : s.expected s.currentThread = .RUNNING := by
    simp [expected, listed.awake on, on]
  refine ⟨listed.nodup, fun t _ => listed.status t, fun t _ => listed.ready t, ?_, fun inside => ?_⟩
  · rw [listed.status, current]
  · rw [listed.ready, current] at inside
    cases inside

/-- The current thread makes others ready. -/
theorem ListedOthers.readies (listed : ListedOthers s)
    {result : State T S L C U W × List (Event T S L C)}
    (wakes : Wakes (some s.currentThread) s.threads (readiedBy result.2) result.1) :
    ListedOthers (s.readies result) := by
  rw [readies_eq]
  have self : s.currentThread ∉ readiedBy result.2 := fun inside => wakes.apart _ inside rfl
  refine ⟨?_, fun t other => ?_, fun t other => ?_, ?_, ?_⟩
  · refine List.nodup_append.mpr ⟨listed.nodup, wakes.nodup, fun t earlier t' inside same => ?_⟩
    subst same
    have other : t ≠ s.currentThread := fun same => self (same ▸ inside)
    exact expected_sleeper (wakes.was t inside) ((listed.ready t other).mp earlier)
  · by_cases inside : t ∈ readiedBy result.2
    · rw [expected_awake (wakes.awake t inside) fun both => other both.2]
      exact if_pos inside
    · have kept := wakes.others t inside fun same => other (Option.some.inj same).symm
      rw [expected_other (s := s) other other kept, ← listed.status t other]
      exact if_neg inside
  · by_cases inside : t ∈ readiedBy result.2
    · rw [expected_awake (wakes.awake t inside) fun both => other both.2]
      simp [inside]
    · have kept := wakes.others t inside fun same => other (Option.some.inj same).symm
      rw [expected_other (s := s) other other kept, ← listed.ready t other]
      simp [inside]
  · exact (if_neg self).trans listed.running
  · intro inside
    obtain earlier | late := List.mem_append.mp inside
    · exact listed.absent earlier
    · exact self late

theorem ListedOthers.stays (listed : ListedOthers s) (on : s.mode = .on)
    (awake : (s.threads.phase s.currentThread).standing = .awake) : Listed s := by
  have current : s.expected s.currentThread = .RUNNING := by simp [expected, awake, on]
  refine ⟨listed.nodup, fun t => ?_, fun t => ?_, fun _ => awake⟩
  · by_cases self : t = s.currentThread
    · rw [self, current, listed.running]
    · exact listed.status t self
  · by_cases self : t = s.currentThread
    · subst self
      rw [current]
      exact ⟨fun inside => absurd inside listed.absent, fun impossible => by cases impossible⟩
    · exact listed.ready t self

/-- The current thread is the last one whose status has to be set. -/
private theorem ListedOthers.gives_up (listed : ListedOthers s) (status : Status) (ready : List T)
    (threads : s'.threads = s.threads) (current : s'.currentThread = s.currentThread)
    (off : s'.mode ≠ .on) (statuses : s'.status = Function.update s.status s.currentThread status)
    (readyList : s'.readyList = s.readyList ++ ready) (expected : s'.expected s.currentThread = status)
    (appended : ready = if status = .READY then [s.currentThread] else []) : Listed s' := by
  have same : ∀ t, t ≠ s.currentThread → s'.expected t = s.expected t := fun t other =>
    expected_other other (by rwa [current]) (by rw [threads])
  refine ⟨?_, fun t => ?_, fun t => ?_, fun on => absurd on off⟩
  · rw [readyList, appended]
    split
    · refine List.nodup_append.mpr ⟨listed.nodup, List.nodup_singleton _, fun t inside t' last equal => ?_⟩
      rw [equal, List.mem_singleton.mp last] at inside
      exact listed.absent inside
    · rw [List.append_nil]
      exact listed.nodup
  · by_cases self : t = s.currentThread
    · rw [self, statuses, Function.update_self, expected]
    · rw [statuses, Function.update_of_ne self, same t self, listed.status t self]
  · by_cases self : t = s.currentThread
    · subst self
      rw [expected, readyList, appended]
      split <;> simp [*, listed.absent]
    · rw [same t self, ← listed.ready t self, readyList, appended]
      split <;> simp [self]

theorem ListedOthers.Sleep (listed : ListedOthers s)
    (asleep : (s.threads.phase s.currentThread).standing = .asleep ∨
      (s.threads.phase s.currentThread).standing = .finished) : Listed s.Sleep := by
  refine listed.gives_up .BLOCKED [] rfl rfl (fun on => by cases on) rfl
    (List.append_nil _).symm ?_ rfl
  obtain asleep | finished := asleep
  · simp [expected, Scheduler.Sleep, setStatus, asleep]
  · simp [expected, Scheduler.Sleep, setStatus, finished]

theorem ListedOthers.Yield (listed : ListedOthers s)
    (awake : (s.threads.phase s.currentThread).standing = .awake) : Listed s.Yield := by
  refine listed.gives_up .READY [s.currentThread] rfl rfl
    (fun on => by cases on) rfl rfl ?_ rfl
  simp [expected, Scheduler.Yield, ReadyToRun, setStatus, awake]

/-- A handler makes threads ready while the processor idles. -/
theorem Listed.readies (listed : Listed s) {result : State T S L C U W × List (Event T S L C)}
    (wakes : Wakes none s.threads (readiedBy result.2) result.1) (off : s.mode ≠ .on) :
    Listed (s.readies result) := by
  have kept : ∀ t, t ∉ readiedBy result.2 → (s.readies result).expected t = s.expected t := by
    intro t outside
    rw [readies_eq]
    simp [expected, off, wakes.others t outside fun impossible => by cases impossible]
  have woken : ∀ t, t ∈ readiedBy result.2 → (s.readies result).expected t = .READY := by
    intro t inside
    rw [readies_eq]
    exact expected_awake (wakes.awake t inside) fun both => off both.1
  have readyList : (s.readies result).readyList = s.readyList ++ readiedBy result.2 := by
    rw [readies_eq]
  refine ⟨?_, fun t => ?_, fun t => ?_, fun on => absurd on (by rw [readies_eq]; exact off)⟩
  · rw [readyList]
    refine List.nodup_append.mpr ⟨listed.nodup, wakes.nodup, fun t earlier t' inside same => ?_⟩
    subst same
    exact expected_sleeper (wakes.was t inside) ((listed.ready t).mp earlier)
  · have status : (s.readies result).status t =
        if t ∈ readiedBy result.2 then .READY else s.status t := by rw [readies_eq]
    rw [status]
    split
    · rename_i inside
      rw [woken t inside]
    · rename_i outside
      rw [kept t outside, listed.status]
  · rw [readyList, List.mem_append]
    by_cases inside : t ∈ readiedBy result.2
    · simp [inside, woken t inside]
    · simp [inside, kept t inside, listed.ready]

/-- The first thread of the ready list becomes the current one. -/
theorem Listed.SWITCH (listed : Listed s) (off : s.mode ≠ .on) {next : T} {rest : List T}
    (first : s.readyList = next :: rest) : Listed (s.SWITCH next rest) := by
  have ready : s.expected next = .READY := (listed.ready next).mp (by simp [first])
  have awake : (s.threads.phase next).standing = .awake := by
    cases shape : (s.threads.phase next).standing <;> simp [expected, shape] at ready ⊢
  have nodup := listed.nodup
  rw [first] at nodup
  obtain ⟨absent, distinct⟩ := List.nodup_cons.mp nodup
  have others : ∀ t, t ≠ next → (s.SWITCH next rest).expected t = s.expected t := by
    intro t other
    simp [expected, Scheduler.SWITCH, setStatus, other, off]
  have runs : (s.SWITCH next rest).expected next = .RUNNING := by
    simp [expected, Scheduler.SWITCH, setStatus, awake]
  refine ⟨distinct, fun t => ?_, fun t => ?_, fun _ => awake⟩
  · by_cases self : t = next
    · subst self
      rw [runs]
      simp [Scheduler.SWITCH, setStatus]
    · rw [others t self, ← listed.status t]
      simp [Scheduler.SWITCH, setStatus, self]
  · by_cases self : t = next
    · subst self
      rw [runs]
      exact ⟨fun inside => absurd inside absent, fun impossible => by cases impossible⟩
    · rw [others t self, ← listed.ready t, first]
      simp [Scheduler.SWITCH, self]

/-- `Idle` is entered and left. -/
theorem Listed.idles (listed : Listed s) {mode : Mode} (off : s.mode ≠ .on) (still : mode ≠ .on) :
    Listed { s with mode := mode } := by
  have same : ∀ t, ({ s with mode := mode } : Scheduler T S L C U W).expected t = s.expected t := by
    intro t
    simp [expected, off, still]
  refine ⟨listed.nodup, fun t => ?_, fun t => ?_, fun on => absurd on still⟩
  · rw [same]
    exact listed.status t
  · rw [same]
    exact listed.ready t

/-- After an operation of the current thread. -/
theorem Listed.goesOn (listed : Listed s) (on : s.mode = .on)
    {result : State T S L C U W × List (Event T S L C)}
    (wakes : Wakes (some s.currentThread) s.threads (readiedBy result.2) result.1)
    (born : (result.1.phase s.currentThread).standing ≠ .unborn) : Listed (s.goesOn result).1 := by
  have others := (listed.others on).readies wakes
  have phase : (s.readies result).threads.phase (s.readies result).currentThread =
      result.1.phase s.currentThread := by rw [readies_eq]
  have still : (s.readies result).mode = .on := by rw [readies_eq]; exact on
  unfold Scheduler.goesOn
  cases shape : result.1.phase s.currentThread with
  | queued id inWait next => exact others.Sleep (.inl (by rw [phase, shape]; rfl))
  | waiting c l next => exact others.Sleep (.inl (by rw [phase, shape]; rfl))
  | finished =>
    have slept := others.Sleep (.inr (by rw [phase, shape]; rfl))
    exact ⟨slept.nodup, slept.status, slept.ready, slept.awake⟩
  | running next => exact others.stays still (by rw [phase, shape]; rfl)
  | woken id inWait next => exact others.stays still (by rw [phase, shape]; rfl)
  | signalled c l next => exact others.stays still (by rw [phase, shape]; rfl)
  | fresh next =>
    rw [shape] at born
    exact absurd rfl born

theorem goesOn_threads (s : Scheduler T S L C U W)
    (result : State T S L C U W × List (Event T S L C)) : (s.goesOn result).1.threads = result.1 := by
  have readied : (s.readies result).threads = result.1 := by rw [readies_eq]
  unfold Scheduler.goesOn
  split <;> exact readied

/-- Whether `Run` deletes a thread. -/
theorem Run_cases (s : Scheduler T S L C U W) (next : T) (rest : List T) :
    (∃ t, (s.SWITCH next rest).saved next = true ∧ s.threadToBeDestroyed = some t ∧
      s.Run next rest = ((s.SWITCH next rest).deleteThread t, [.dispatches next, .deletes t])) ∨
    (((s.SWITCH next rest).saved next = false ∨ s.threadToBeDestroyed = none) ∧
      s.Run next rest = (s.SWITCH next rest, [.dispatches next])) := by
  have same : (s.SWITCH next rest).threadToBeDestroyed = s.threadToBeDestroyed := rfl
  cases saved : (s.SWITCH next rest).saved next with
  | false => exact .inr ⟨.inl rfl, by simp only [Run, saved]⟩
  | true =>
    cases shape : s.threadToBeDestroyed with
    | none => exact .inr ⟨.inr rfl, by simp only [Run, saved, same, shape]⟩
    | some t => exact .inl ⟨t, rfl, rfl, by simp only [Run, saved, same, shape]⟩

/-- The queues, the ready list and the statuses. -/
structure Orderly (s : Scheduler T S L C U W) : Prop extends Listed s where
  queued : s.threads.Queued

theorem Boots.orderly (boots : Boots s) : Orderly s := by
  obtain ⟨u, main⟩ := boots.main
  have expected : ∀ t, s.expected t = if t = s.currentThread then .RUNNING else .JUST_CREATED := by
    intro t
    by_cases self : t = s.currentThread
    · subst self
      simp [expected, main, Phase.standing, boots.mode]
    · obtain ⟨u, fresh⟩ := boots.others t self
      simp [Scheduler.expected, fresh, Phase.standing, self]
  refine ⟨⟨by simp [boots.empty], fun t => ?_, fun t => ?_, fun _ => ?_⟩, boots.toStarts.queued⟩
  · rw [expected, boots.status]
  · rw [expected, boots.empty]
    split <;> simp
  · rw [main]
    rfl

/-- What one step can do, with what it does to the threads. -/
inductive Turn (s : Scheduler T S L C U W) : List (Scheduled T) → Scheduler T S L C U W → Prop where
  | goes {result : State T S L C U W × List (Event T S L C)} (on : s.mode = .on)
      (wakes : Wakes (some s.currentThread) s.threads (readiedBy result.2) result.1)
      (born : (result.1.phase s.currentThread).standing ≠ .unborn) :
      Turn s (s.goesOn result).2 (s.goesOn result).1
  | yields {threads : State T S L C U W} (on : s.mode = .on)
      (wakes : Wakes (some s.currentThread) s.threads [] threads)
      (awake : (threads.phase s.currentThread).standing = .awake) :
      Turn s [.readies s.currentThread] ({ s with threads := threads } : Scheduler T S L C U W).Yield
  | interrupt {result : State T S L C U W × List (Event T S L C)}
      (enabled : s.mode = .on ∨ s.mode = .idling)
      (wakes : Wakes none s.threads (readiedBy result.2) result.1) :
      Turn s ((readiedBy result.2).map .readies) (s.readies result)
  | idles {mode : Mode} (off : s.mode ≠ .on) (still : mode ≠ .on) : Turn s [] { s with mode := mode }
  | dispatch {next : T} {rest : List T} (off : s.mode ≠ .on) (first : s.readyList = next :: rest) :
      Turn s (s.Run next rest).2 (s.Run next rest).1

theorem Listed.turn {events : List (Scheduled T)} (listed : Listed s) (turn : Turn s events s') :
    Listed s' := by
  cases turn with
  | goes on wakes born => exact listed.goesOn on wakes born
  | @yields threads on wakes awake =>
    have others : ListedOthers (s.readies (threads, [])) := (listed.others on).readies wakes
    have same : s.readies (threads, []) = { s with threads := threads } := by
      rw [readies_eq]
      simp [readiedBy]
    rw [same] at others
    exact others.Yield awake
  | interrupt enabled wakes =>
    obtain on | idling := enabled
    · have awake := listed.awake on
      refine ((listed.others on).readies (wakes.by_self awake)).stays ?_ ?_
      · rw [readies_eq]
        exact on
      · rw [readies_eq]
        exact wakes.stays_awake awake
    · exact listed.readies wakes (by rw [idling]; exact fun impossible => by cases impossible)
  | idles off still => exact listed.idles off still
  | @dispatch next rest off first =>
    have switched := listed.SWITCH off first
    obtain ⟨t, -, -, ran⟩ | ⟨-, ran⟩ := Run_cases s next rest
    · rw [ran]
      exact ⟨switched.nodup, switched.status, switched.ready, switched.awake⟩
    · rw [ran]
      exact switched

section
variable [DecidableEq S] [DecidableEq L] [DecidableEq C] {code : Code T S L C U W}

/-- The threads of the scheduler move as threads do. -/
theorem Step.threads {events : List (Scheduled T)} (step : Step code s events s') :
    s'.threads = s.threads ∨ ∃ reported, Threads.Step code s.threads reported s'.threads := by
  cases step with
  | segment on stands does once goes =>
    rw [goesOn_threads]
    exact .inr ⟨_, .segment stands does once⟩
  | yields on stands does => exact .inr ⟨_, .segment stands does fun child other => by cases other⟩
  | retest on stands =>
    rw [goesOn_threads]
    exact .inr ⟨_, .retest stands⟩
  | reacquire on stands =>
    rw [goesOn_threads]
    exact .inr ⟨_, .reacquire stands⟩
  | timer on => exact .inl rfl
  | interrupt enabled fires =>
    rw [readies_eq]
    exact .inr ⟨_, .interrupt fires⟩
  | idle switching none => exact .inl rfl
  | looks idling => exact .inl rfl
  | @dispatch next rest switching first =>
    refine .inl ?_
    obtain ⟨t, -, -, ran⟩ | ⟨-, ran⟩ := Run_cases s next rest
    · rw [ran]
      rfl
    · rw [ran]
      rfl

theorem Step.turn {events : List (Scheduled T)} (step : Step code s events s')
    (orderly : Orderly s) : Turn s events s' := by
  cases step with
  | @segment u next op memory on stands does once goes =>
    have valid : State.Queued { s.threads with memory := memory } := orderly.queued
    exact .goes on (perform_wakes valid stands once).after_memory (perform_born valid stands once)
  | @yields u next memory on stands does =>
    refine .yields on ?_ ?_
    · exact (setPhase_wakes { s.threads with memory := memory } s.currentThread
        (.running next)).after_memory
    · simp only [State.perform, State.setPhase_same]
      rfl
  | @retest id inWait next on stands =>
    refine .goes on (P_wakes _ _ _ _ _) ?_
    obtain queued | running := s.threads.P_phase_cases s.currentThread id inWait next
    · rw [queued]
      exact fun impossible => by cases impossible
    · rw [running]
      exact fun impossible => by cases impossible
  | @reacquire c l next on stands =>
    refine .goes on (P_wakes _ _ _ _ _) ?_
    obtain queued | running := s.threads.P_phase_cases s.currentThread (.ofLock l) (some c) next
    · rw [queued]
      exact fun impossible => by cases impossible
    · rw [running]
      exact fun impossible => by cases impossible
  | timer on => exact .yields on (.none fun _ _ => rfl) (orderly.awake on)
  | @interrupt raised memory enabled fires =>
    refine .interrupt enabled ?_
    have valid : State.Queued { s.threads with memory := memory } := orderly.queued
    cases raised with
    | none => exact .none fun _ _ => rfl
    | some sem => exact (valid.V_wakes (.plain sem)).after_memory
  | idle switching none =>
    refine .idles ?_ fun impossible => by cases impossible
    rw [switching]
    exact fun impossible => by cases impossible
  | looks idling =>
    refine .idles ?_ fun impossible => by cases impossible
    rw [idling]
    exact fun impossible => by cases impossible
  | dispatch switching first =>
    refine .dispatch ?_ first
    rw [switching]
    exact fun impossible => by cases impossible

theorem Orderly.step {events : List (Scheduled T)} (orderly : Orderly s)
    (step : Step code s events s') : Orderly s' := by
  refine ⟨orderly.toListed.turn (step.turn orderly), ?_⟩
  obtain same | ⟨reported, moved⟩ := step.threads
  · rw [same]
    exact orderly.queued
  · exact moved.moves.invariant_state orderly.queued fun valid move => valid.move move

theorem Boots.orderly_run {start : Scheduler T S L C U W} {trace : List (Scheduled T)}
    (boots : Boots start) (run : Runs (Step code) start trace s) : Orderly s :=
  run.invariant_state boots.orderly fun orderly step => orderly.step step

end

/-! ## The order of dispatch -/

/-- The threads that were dispatched, the first one first. -/
def dispatched (trace : List (Scheduled T)) : List T :=
  trace.filterMap fun
    | .dispatches t => some t
    | _ => none

/-- The threads that were made ready, the first one first. -/
def madeReady (trace : List (Scheduled T)) : List T :=
  trace.filterMap fun
    | .readies t => some t
    | _ => none

omit [DecidableEq T] in
private theorem dispatched_readies (ts : List T) : dispatched (ts.map .readies) = [] := by
  simp [dispatched, List.filterMap_map]

omit [DecidableEq T] in
private theorem madeReady_readies (ts : List T) : madeReady (ts.map .readies) = ts := by
  simp [madeReady, List.filterMap_map]

private theorem goesOn_line (s : Scheduler T S L C U W)
    (result : State T S L C U W × List (Event T S L C)) :
    dispatched (s.goesOn result).2 ++ (s.goesOn result).1.readyList =
      s.readyList ++ madeReady (s.goesOn result).2 := by
  have readyList : (s.readies result).readyList = s.readyList ++ readiedBy result.2 := by
    rw [readies_eq]
  have line : dispatched ((readiedBy result.2).map .readies) ++ (s.readies result).readyList =
      s.readyList ++ madeReady ((readiedBy result.2).map .readies) := by
    rw [dispatched_readies, madeReady_readies, readyList, List.nil_append]
  unfold Scheduler.goesOn
  split
  · exact line
  · exact line
  · have same : (s.readies result).Finish.readyList = (s.readies result).readyList := rfl
    rw [same]
    simpa [dispatched, madeReady] using line
  · exact line

variable [DecidableEq S] [DecidableEq L] [DecidableEq C] {code : Code T S L C U W}

/-- A step takes from the front of the ready list and adds at its end. -/
theorem Step.line {events : List (Scheduled T)} (step : Step code s events s') :
    dispatched events ++ s'.readyList = s.readyList ++ madeReady events := by
  cases step with
  | segment on stands does once goes => exact goesOn_line _ _
  | yields on stands does => rfl
  | retest on stands => exact goesOn_line _ _
  | reacquire on stands => exact goesOn_line _ _
  | timer on => rfl
  | interrupt enabled fires =>
    rw [dispatched_readies, madeReady_readies, readies_eq, List.nil_append]
  | idle switching none => simp [dispatched, madeReady]
  | looks idling => simp [dispatched, madeReady]
  | @dispatch next rest switching first =>
    obtain ⟨t, -, -, ran⟩ | ⟨-, ran⟩ := Run_cases s next rest
    · rw [ran, first]
      simp [dispatched, madeReady, SWITCH, deleteThread]
    · rw [ran, first]
      simp [dispatched, madeReady, SWITCH]

theorem line_of_run {start : Scheduler T S L C U W} {trace : List (Scheduled T)}
    (run : Runs (Step code) start trace s) :
    dispatched trace ++ s.readyList = start.readyList ++ madeReady trace := by
  induction run with
  | start => simp [dispatched, madeReady]
  | @next trace events s s' before taken ih =>
    have split : dispatched (trace ++ events) = dispatched trace ++ dispatched events :=
      List.filterMap_append
    have split' : madeReady (trace ++ events) = madeReady trace ++ madeReady events :=
      List.filterMap_append
    rw [split, split', List.append_assoc, taken.line, ← List.append_assoc, ih, List.append_assoc]

/-- In every run, whenever the current thread is not giving the processor up, it
is `RUNNING` and not in the ready list, the ready list has every `READY` thread
once and nobody else, a `BLOCKED` thread that has not finished is in one queue,
and no thread is in two. The thread at position `n` of the ready list is
dispatched after exactly `n` others. -/
theorem ready_list_is_right_and_fifo {start : Scheduler T S L C U W} {trace : List (Scheduled T)}
    (boots : Boots start) (run : Runs (Step code) start trace s) :
    (s.mode = .on →
      s.status s.currentThread = .RUNNING ∧ s.currentThread ∉ s.readyList ∧ s.readyList.Nodup ∧
      (∀ t, t ∈ s.readyList ↔ s.status t = .READY) ∧
      (∀ t, s.status t = .BLOCKED → s.threads.phase t ≠ .finished →
        ∃ q, t ∈ s.threads.line q ∧ ∀ q', t ∈ s.threads.line q' → q' = q) ∧
      (∀ q, (s.threads.line q).Nodup) ∧
      ∀ t q, t ∈ s.threads.line q →
        t ∉ s.readyList ∧ ∀ q', t ∈ s.threads.line q' → q' = q) ∧
    ∀ (n : Nat) (t : T) (later : List (Scheduled T)) (s' : Scheduler T S L C U W),
      s.readyList[n]? = some t → Runs (Step code) s later s' →
      t ∉ (dispatched later).take n ∧
      (n < (dispatched later).length → (dispatched later)[n]? = some t) := by
  have orderly := boots.orderly_run run
  have one_queue : ∀ t q, t ∈ s.threads.line q → ∀ q', t ∈ s.threads.line q' → q' = q := by
    intro t q inside q' inside'
    rw [orderly.queued.member] at inside inside'
    rw [inside] at inside'
    exact (Option.some.inj inside').symm
  refine ⟨fun on => ?_, fun n t later s' place after => ?_⟩
  · have others := orderly.toListed.others on
    refine ⟨others.running, others.absent, orderly.nodup, fun t => ?_, fun t blocked unfinished => ?_,
      orderly.queued.nodup, fun t q inside => ⟨fun ready => ?_, one_queue t q inside⟩⟩
    · rw [orderly.status, orderly.ready]
    · rw [orderly.status] at blocked
      obtain ⟨q, place⟩ := Phase.place_of_standing (asleep_of_blocked blocked unfinished)
      have inside := (orderly.queued.member q t).mpr place
      exact ⟨q, inside, one_queue t q inside⟩
    · have asleep := Phase.standing_of_place ((orderly.queued.member q t).mp inside)
      have expected := (orderly.ready t).mp ready
      simp [Scheduler.expected, asleep.1] at expected
  · have line := line_of_run after
    have bound : n < s.readyList.length := (List.getElem?_eq_some_iff.mp place).1
    have same : ∀ i, i ≤ n → i < (dispatched later).length →
        (dispatched later)[i]? = s.readyList[i]? := by
      intro i within reached
      rw [← List.getElem?_append_left reached, line, List.getElem?_append_left (by omega)]
    refine ⟨fun early => ?_, fun reached => (same n (Nat.le_refl n) reached).trans place⟩
    obtain ⟨i, earlier, found⟩ := List.mem_take_iff_getElem.mp early
    have before := same i (by omega) (by omega)
    rw [List.getElem?_eq_getElem (by omega), found, ← place] at before
    have equal := (List.getElem?_inj bound orderly.nodup).mp before
    omega

end Scheduler

/-! The main thread forks one other and yields to it. -/

inductive Launches : Bool → Unit → Unit → Op Bool Empty Empty Empty → Unit → Unit → Prop where
  | forks : Launches false () () (.fork true) () ()
  | yields {t} : Launches t () () .yield () ()
  | finishes {t} : Launches t () () .finish () ()

def launch : Code Bool Empty Empty Empty Unit Unit where
  segment := Launches
  handler _ _ _ := False

def mainThread : Scheduler Bool Empty Empty Empty Unit Unit where
  threads :=
    { sem := fun _ => { value := 1, queue := [] }
      owner := fun _ => none
      queue := fun _ => []
      phase := fun t => if t then .fresh () else .running ()
      memory := () }
  currentThread := false
  readyList := []
  status t := if t then .JUST_CREATED else .RUNNING
  mode := .on
  saved _ := false
  threadToBeDestroyed := none
  failed := false
  deleted := []
  forgotten := []

theorem mainThread_boots : Scheduler.Boots mainThread where
  value _ := Int.one_nonneg
  asleep _ := rfl
  free _ := ⟨rfl, rfl⟩
  conditions _ := rfl
  phase t := by
    cases t with
    | false => exact ⟨(), .inr rfl⟩
    | true => exact ⟨(), .inl rfl⟩
  main := ⟨(), rfl⟩
  others t other := by
    cases t with
    | false => exact absurd rfl other
    | true => exact ⟨(), rfl⟩
  mode := rfl
  empty := rfl
  status t := by cases t <;> rfl
  unsaved _ := rfl
  nobody := rfl
  fine := rfl
  unrecorded := ⟨rfl, rfl⟩

theorem ready_list_is_right_and_fifo_yielded :
    ∃ trace s, Runs (Scheduler.Step launch) mainThread trace s ∧
      trace = [.readies true, .readies false, .dispatches true] ∧ s.readyList = [false] ∧
      s.status s.currentThread = .RUNNING := by
  have forked : Runs (Scheduler.Step launch) mainThread _ _ :=
    .next .start (.segment rfl rfl .forks (fun child same => ⟨(), by cases same; rfl⟩)
      fun same => by cases same)
  have yielded := forked.next (.yields rfl rfl .yields)
  have dispatched := yielded.next (.dispatch rfl rfl)
  exact ⟨_, _, dispatched, rfl, rfl,
    ((Scheduler.ready_list_is_right_and_fifo mainThread_boots dispatched).1 rfl).1⟩

end Nachos.Threads
