import Mathlib.Data.Fin.Basic
import Nachos.Machine.SynchDisk
import Nachos.Threads.Discipline

/-! Readers and writers of a file (`SynchDisk::ReaderIn`, `ReaderOut`,
`WriteBegin`, `WriteDone`). The first reader of a sector takes the sector's
`mutex` while it holds the one `readerLock`, and the last reader gives it back.
Writers and readers exclude each other, the count of readers is right, and
somebody can always go on. -/
namespace Nachos.ReaderWriter
open Effects Threads

/-- A sector, as `mutex` and `reader_num` are indexed. -/
abbrev Header := Fin NumSectors

/-- The points between two operations of a thread that runs sections. -/
inductive Point where
  | outside
  /-- Has `readerLock` in `ReaderIn`. -/
  | counting (s : Header)
  /-- The first reader, with `mutex` taken. -/
  | admitted (s : Header)
  | reading (s : Header)
  /-- Has `readerLock` in `ReaderOut`. -/
  | leaving (s : Header)
  /-- The last reader, with `mutex` given back. -/
  | left (s : Header)
  | writing (s : Header)
deriving DecidableEq

/-- `reader_num`. -/
abbrev Counts := Header → Int

def adjust (readers : Counts) (s : Header) (amount : Int) : Counts :=
  Function.update readers s (readers s + amount)

/-- The code of a thread: sections of any sectors, one after the other. -/
inductive Segment {T : Type} (t : T) :
    Point → Counts → Op T Header Unit Empty → Counts → Point → Prop where
  | idles {readers} : Segment t .outside readers .tick readers .outside
  | finishes {readers} : Segment t .outside readers .finish readers .outside
  | readerIn {readers} (s : Header) : Segment t .outside readers (.acquire ()) readers (.counting s)
  | first {readers s} (one : readers s + 1 = 1) :
      Segment t (.counting s) readers (.p s) (adjust readers s 1) (.admitted s)
  | further {readers s} (more : readers s + 1 ≠ 1) :
      Segment t (.counting s) readers (.release ()) (adjust readers s 1) (.reading s)
  | entered {readers s} : Segment t (.admitted s) readers (.release ()) readers (.reading s)
  | reads {readers s} : Segment t (.reading s) readers .tick readers (.reading s)
  | yields {readers s} : Segment t (.reading s) readers .yield readers (.reading s)
  | readerOut {readers s} : Segment t (.reading s) readers (.acquire ()) readers (.leaving s)
  | last {readers s} (none : readers s - 1 = 0) :
      Segment t (.leaving s) readers (.v s) (adjust readers s (-1)) (.left s)
  | others {readers s} (some : readers s - 1 ≠ 0) :
      Segment t (.leaving s) readers (.release ()) (adjust readers s (-1)) .outside
  | gone {readers s} : Segment t (.left s) readers (.release ()) readers .outside
  | writeBegin {readers} (s : Header) : Segment t .outside readers (.p s) readers (.writing s)
  | writes {readers s} : Segment t (.writing s) readers .tick readers (.writing s)
  | switches {readers s} : Segment t (.writing s) readers .yield readers (.writing s)
  | writeDone {readers s} : Segment t (.writing s) readers (.v s) readers .outside

variable {T : Type}

def code (T : Type) : Code T Header Unit Empty Point Counts where
  segment := Segment
  handler _ _ _ := False

/-- The points at which `readerLock` is held. -/
def holding (u : Point) (_ : Unit) : Prop :=
  match u with
  | .counting _ | .admitted _ | .leaving _ | .left _ => True
  | _ => False

theorem annotated : (code T).Annotated holding := by
  intro t u memory op memory' next does
  cases does <;> simp [Op.Respects, holding]

abbrev Stage := Threads.Stage Header Unit Empty Point

/-! ## What a thread counts for -/

/-- Past the count of `ReaderIn(s)` and not past that of `ReaderOut(s)`. -/
def counted (s : Header) : Stage → Bool
  | .at (.admitted s') | .at (.reading s') | .at (.leaving s') => s' = s
  | .inP _ (.admitted s') | .inP _ (.leaving s') => s' = s
  | _ => false

/-- Inside a write section of `s`. -/
def writes (s : Header) : Stage → Bool
  | .at (.writing s') => s' = s
  | _ => false

/-- The first reader of `s`, waiting for the writer. -/
def pending (s : Header) : Stage → Bool
  | .inP _ (.admitted s') => s' = s
  | _ => false

/-- Inside a read section of `s`: from the return of `ReaderIn` until
`ReaderOut` has the lock and counts down. -/
def reads (s : Header) : Stage → Bool
  | .at (.reading s') | .at (.leaving s') | .inP _ (.leaving s') => s' = s
  | _ => false

/-- Between the call of `ReaderIn` or `WriteBegin` and the return of `ReaderOut`
or `WriteDone`. -/
def inside : Stage → Bool
  | .at .outside | .fresh _ | .finished => false
  | _ => true

/-- The calls a thread can be asleep in. -/
def Expected : Stage → Prop
  | .inP (.plain s) (.admitted s') | .inP (.plain s) (.writing s') => s = s'
  | .inP (.ofLock ()) (.counting _) | .inP (.ofLock ()) (.leaving _) => True
  | .inP _ _ => False
  | .fresh u => u = .outside
  | _ => True

abbrev View := Threads.View T Header Unit Empty Point Counts

theorem expected_step [DecidableEq T] {v v' : View (T := T)} (expected : ∀ t, Expected (v.stage t))
    (step : View.Step (code T) v v') : ∀ t, Expected (v'.stage t) := by
  have moved : ∀ {t : T} {stage : Stage}, Expected stage → ∀ t',
      Expected (Function.update v.stage t stage t') := by
    intro t stage fine t'
    by_cases same : t' = t
    · simpa [same] using fine
    · simpa [same] using expected t'
  cases step with
  | still => exact expected
  | goes stands does quiet => exact moved trivial
  | takes stands does takes nonzero => exact moved trivial
  | sleeps stands does takes zero =>
    cases does <;> cases takes
    · exact moved trivial
    · exact moved rfl
    · exact moved trivial
    · exact moved rfl
  | retakes stands nonzero => exact moved trivial
  | raises stands does raises => exact moved trivial
  | waits stands does => cases does
  | returns stands nonzero => exact moved trivial
  | reacquires stands zero => rename_i c _ _; exact c.elim
  | forks stands does fresh => cases does
  | finishes stands does => exact moved trivial
  | interrupt fires => exact fires.elim
  | interrupts fires => exact fires.elim

section
variable [Fintype T]

/-- How many threads count for `p`. -/
def number (v : View (T := T)) (p : Stage → Bool) : Nat := population fun t => p (v.stage t)

/-- `readers` threads are counted, of which `waiting` wait for the mutex, and
`writers` write: the mutex is down for one writer or for all readers together. -/
def Balanced (readerNum mutex : Int) (readers writers waiting : Nat) : Prop :=
  readerNum = readers ∧ (0 < waiting → readerNum = 1) ∧
    (0 < readerNum → waiting = 0 → mutex + writers = 0) ∧
    (readerNum = 0 ∨ 0 < waiting → mutex + writers = 1)

/-- The numbers of a sector are right. -/
def Guarded (s : Header) (v : View (T := T)) : Prop :=
  Balanced (v.memory s) (v.value (.plain s)) (number v (counted s)) (number v (writes s))
    (number v (pending s))

/-- A thread that holds `readerLock` while running is the only one in there, so
no first reader is waiting. -/
theorem none_pending {v : View (T := T)} (exclusive : v.Exclusive holding)
    (expected : ∀ t, Expected (v.stage t)) {t : T} {u : Point} (stands : v.stage t = .at u)
    (holds : holding u ()) (s : Header) : number v (pending s) = 0 := by
  apply population_zero
  intro t'
  cases shape : v.stage t' with
  | inP id next =>
    cases next with
    | admitted s' =>
      have where_ := expected t'
      cases id with
      | ofLock l => simp [shape, Expected] at where_
      | plain s'' =>
        have same : t = t' := by
          refine exclusive (l := ()) ?_ ?_
          · rw [stands]
            exact holds
          · rw [shape]
            exact ⟨trivial, by simp⟩
        rw [← same, stands] at shape
        simp at shape
    | outside => rfl
    | counting s' => rfl
    | reading s' => rfl
    | leaving s' => rfl
    | left s' => rfl
    | writing s' => rfl
  | fresh next => rfl
  | «at» next => rfl
  | inWait c l next => rfl
  | finished => rfl

/-- A waiting first reader is counted. -/
theorem pending_le_counted (v : View (T := T)) (s : Header) :
    number v (pending s) ≤ number v (counted s) := by
  apply population_mono
  intro t
  cases v.stage t with
  | inP id next => cases next <;> simp [pending, counted]
  | fresh next => simp [pending]
  | «at» next => simp [pending]
  | inWait c l next => simp [pending]
  | finished => simp [pending]

/-- There is at most one waiting first reader. -/
theorem pending_le_one {v : View (T := T)} (exclusive : v.Exclusive holding)
    (expected : ∀ t, Expected (v.stage t)) (s : Header) : number v (pending s) ≤ 1 := by
  apply population_le_one
  have holds : ∀ t, pending s (v.stage t) = true → (v.stage t).holds holding () := by
    intro t waits
    have where_ := expected t
    cases shape : v.stage t with
    | inP id next =>
      cases next with
      | admitted s' =>
        cases id with
        | ofLock l => simp [shape, Expected] at where_
        | plain s'' => exact ⟨trivial, by simp⟩
      | outside => simp [shape, pending] at waits
      | counting s' => simp [shape, pending] at waits
      | reading s' => simp [shape, pending] at waits
      | leaving s' => simp [shape, pending] at waits
      | left s' => simp [shape, pending] at waits
      | writing s' => simp [shape, pending] at waits
    | fresh next => simp [shape, pending] at waits
    | «at» next => simp [shape, pending] at waits
    | inWait c l next => simp [shape, pending] at waits
    | finished => simp [shape, pending] at waits
  intro t t' waits waits'
  exact exclusive (holds t waits) (holds t' waits')

section
variable [DecidableEq T]

/-- To move one thread, look at what it counted for before and after. -/
theorem Guarded.moves {s : Header} (v : View (T := T)) {v' : View (T := T)} {t : T} {stage : Stage}
    (stages : v'.stage = (v.setStage t stage).stage)
    (balanced : ∀ readers writers waiting : Nat,
      readers + (if counted s (v.stage t) then 1 else 0) =
        number v (counted s) + (if counted s stage then 1 else 0) →
      writers + (if writes s (v.stage t) then 1 else 0) =
        number v (writes s) + (if writes s stage then 1 else 0) →
      waiting + (if pending s (v.stage t) then 1 else 0) =
        number v (pending s) + (if pending s stage then 1 else 0) →
      Balanced (v'.memory s) (v'.value (.plain s)) readers writers waiting) : Guarded s v' := by
  have moved : ∀ p : Stage → Bool, number v' p + (if p (v.stage t) then 1 else 0) =
      number v p + (if p stage then 1 else 0) := by
    intro p
    unfold number
    rw [stages]
    exact population_update p v.stage t stage
  exact balanced _ _ _ (moved _) (moved _) (moved _)

/-- A move that changes what the thread counts for in no way. -/
theorem Guarded.same {s : Header} {v v' : View (T := T)} (guarded : Guarded s v)
    (memory : v'.memory s = v.memory s) (value : v'.value (.plain s) = v.value (.plain s))
    {t : T} {stage : Stage} (stages : v'.stage = (v.setStage t stage).stage)
    (sameCount : counted s stage = counted s (v.stage t))
    (sameWrites : writes s stage = writes s (v.stage t))
    (samePending : pending s stage = pending s (v.stage t)) : Guarded s v' := by
  refine .moves v stages fun readers writers waiting c w p => ?_
  rw [sameCount] at c
  rw [sameWrites] at w
  rw [samePending] at p
  rw [memory, value, Nat.add_right_cancel c, Nat.add_right_cancel w, Nat.add_right_cancel p]
  exact guarded

theorem Guarded.step {s : Header} {v v' : View (T := T)} (guarded : Guarded s v)
    (exclusive : v.Exclusive holding) (expected : ∀ t, Expected (v.stage t))
    (step : View.Step (code T) v v') : Guarded s v' := by
  have balanced : Balanced _ _ _ _ _ := guarded
  have within := pending_le_counted v s
  have single := pending_le_one exclusive expected s
  cases step with
  | still => exact guarded
  | goes stands does quiet =>
    cases does <;> cases quiet <;>
      exact guarded.same rfl rfl rfl (by rw [stands]) (by rw [stands]) (by rw [stands])
  | takes stands does takes nonzero =>
    cases does <;> cases takes
    · exact guarded.same rfl rfl rfl (by rw [stands]; rfl) (by rw [stands]; rfl) (by rw [stands]; rfl)
    · -- the first reader finds the mutex up
      rename_i s' one
      refine .moves v rfl fun readers writers waiting c w p => ?_
      by_cases here : s' = s
      · subst here
        simp [stands, counted, writes, pending] at c w p
        simp [View.setStage, View.add, adjust]
        unfold Balanced at *
        omega
      · simp [stands, counted, writes, pending, here] at c w p
        simpa [View.setStage, View.add, adjust, Ne.symm here, c, w, p] using balanced
    · exact guarded.same rfl rfl rfl (by rw [stands]; rfl) (by rw [stands]; rfl) (by rw [stands]; rfl)
    · -- a writer finds the mutex up
      rename_i s'
      refine .moves v rfl fun readers writers waiting c w p => ?_
      by_cases here : s' = s
      · subst here
        simp [stands, counted, writes, pending] at c w p
        simp [View.setStage, View.add]
        unfold Balanced at *
        omega
      · simp [stands, counted, writes, pending, here] at c w p
        simpa [View.setStage, View.add, Ne.symm here, c, w, p] using balanced
  | sleeps stands does takes zero =>
    cases does <;> cases takes
    · exact guarded.same rfl rfl rfl (by rw [stands]; rfl) (by rw [stands]; rfl) (by rw [stands]; rfl)
    · -- the first reader has to wait for the writer
      rename_i s' one
      refine .moves v rfl fun readers writers waiting c w p => ?_
      by_cases here : s' = s
      · subst here
        simp [stands, counted, writes, pending] at c w p
        simp [View.setStage, adjust]
        unfold Balanced at *
        omega
      · simp [stands, counted, writes, pending, here] at c w p
        simpa [View.setStage, adjust, Ne.symm here, c, w, p] using balanced
    · exact guarded.same rfl rfl rfl (by rw [stands]; rfl) (by rw [stands]; rfl) (by rw [stands]; rfl)
    · exact guarded.same rfl rfl rfl (by rw [stands]; rfl) (by rw [stands]; rfl) (by rw [stands]; rfl)
  | retakes stands nonzero =>
    rename_i t next id
    have where_ := expected t
    rw [stands] at where_
    cases id with
    | ofLock l =>
      cases next <;> simp only [Expected] at where_ <;>
        exact guarded.same rfl rfl rfl (by rw [stands]; rfl) (by rw [stands]; rfl) (by rw [stands]; rfl)
    | plain s' =>
      refine .moves v rfl fun readers writers waiting c w p => ?_
      cases next <;> simp only [Expected] at where_
      -- the first reader, or a writer, finds the mutex up again
      all_goals
        subst where_
        by_cases here : s' = s
        · subst here
          simp [stands, counted, writes, pending] at c w p
          simp [View.setStage, View.add]
          unfold Balanced at *
          omega
        · simp [stands, counted, writes, pending, here] at c w p
          simpa [View.setStage, View.add, Ne.symm here, c, w, p] using balanced
  | raises stands does raises =>
    cases does <;> cases raises
    · -- one more reader: the mutex is already down for the readers
      rename_i s' more
      have noneWaits := none_pending exclusive expected stands trivial s
      refine .moves v rfl fun readers writers waiting c w p => ?_
      by_cases here : s' = s
      · subst here
        simp [stands, counted, writes, pending] at c w p
        simp [View.setStage, View.add, adjust]
        unfold Balanced at *
        omega
      · simp [stands, counted, writes, pending, here] at c w p
        simpa [View.setStage, View.add, adjust, Ne.symm here, c, w, p] using balanced
    · exact guarded.same rfl rfl rfl (by rw [stands]; rfl) (by rw [stands]; rfl) (by rw [stands]; rfl)
    · -- the last reader
      rename_i s' none
      have noneWaits := none_pending exclusive expected stands trivial s
      refine .moves v rfl fun readers writers waiting c w p => ?_
      by_cases here : s' = s
      · subst here
        simp [stands, counted, writes, pending] at c w p
        simp [View.setStage, View.add, adjust]
        unfold Balanced at *
        omega
      · simp [stands, counted, writes, pending, here] at c w p
        simpa [View.setStage, View.add, adjust, Ne.symm here, c, w, p] using balanced
    · -- a reader leaves others behind
      rename_i s' some
      have noneWaits := none_pending exclusive expected stands trivial s
      refine .moves v rfl fun readers writers waiting c w p => ?_
      by_cases here : s' = s
      · subst here
        simp [stands, counted, writes, pending] at c w p
        simp [View.setStage, View.add, adjust]
        unfold Balanced at *
        omega
      · simp [stands, counted, writes, pending, here] at c w p
        simpa [View.setStage, View.add, adjust, Ne.symm here, c, w, p] using balanced
    · exact guarded.same rfl rfl rfl (by rw [stands]; rfl) (by rw [stands]; rfl) (by rw [stands]; rfl)
    · -- a writer leaves
      rename_i s'
      refine .moves v rfl fun readers writers waiting c w p => ?_
      by_cases here : s' = s
      · subst here
        simp [stands, counted, writes, pending] at c w p
        simp [View.setStage, View.add]
        unfold Balanced at *
        omega
      · simp [stands, counted, writes, pending, here] at c w p
        simpa [View.setStage, View.add, Ne.symm here, c, w, p] using balanced
  | waits stands does => cases does
  | returns stands nonzero => rename_i c _ _; exact c.elim
  | reacquires stands zero => rename_i c _ _; exact c.elim
  | forks stands does fresh => cases does
  | finishes stands does =>
    cases does
    exact guarded.same rfl rfl rfl (by rw [stands]; rfl) (by rw [stands]; rfl) (by rw [stands]; rfl)
  | interrupt fires => exact fires.elim
  | interrupts fires => exact fires.elim

end

/-! ## Whole runs -/

abbrev State := Threads.State T Header Unit Empty Point Counts

/-- Nobody is in a section, no reader is counted, and every mutex is up. -/
structure Begins (k : State (T := T)) : Prop extends Starts k where
  outside (t : T) : k.phase t = .fresh .outside ∨ k.phase t = .running .outside
  readers (s : Header) : k.memory s = 0
  mutex (s : Header) : (k.sem (.plain s)).value = 1

/-- What every state of a run has. -/
structure Kept (k : State (T := T)) : Prop where
  held : HeldBy holding k
  expected (t : T) : Expected (k.phase t).stage
  guarded (s : Header) : Guarded s k.view

theorem Begins.kept {k : State (T := T)} (begins : Begins k) : Kept k := by
  have away : ∀ t, (k.phase t).stage = .fresh .outside ∨ (k.phase t).stage = .at .outside := by
    intro t
    obtain fresh | running := begins.outside t
    · exact .inl (by rw [fresh]; rfl)
    · exact .inr (by rw [running]; rfl)
  refine ⟨HeldBy.start begins.toStarts ?_, fun t => ?_, fun s => ?_⟩
  · intro t u stands l
    obtain fresh | running := begins.outside t
    · rw [fresh] at stands
      obtain same | same := stands <;> cases same
      exact id
    · rw [running] at stands
      obtain same | same := stands <;> cases same
      exact id
  · obtain fresh | running := away t
    · rw [fresh]
      rfl
    · rw [running]
      trivial
  · have none : ∀ p : Stage → Bool, p (.fresh .outside) = false → p (.at .outside) = false →
        number k.view p = 0 := by
      intro p fresh running
      apply population_zero
      intro t
      obtain stage | stage := away t
      · simp [State.view, stage, fresh]
      · simp [State.view, stage, running]
    unfold Guarded
    rw [none _ rfl rfl, none _ rfl rfl, none _ rfl rfl]
    have readers : k.view.memory s = 0 := begins.readers s
    have mutex : k.view.value (.plain s) = 1 := begins.mutex s
    simp [Balanced, readers, mutex]

section
variable [DecidableEq T]

theorem Kept.step {k k' : State (T := T)} {events : List (Event T Header Unit Empty)}
    (kept : Kept k) (step : Threads.Step (code T) k events k') : Kept k' where
  held := kept.held.step annotated step
  expected := expected_step kept.expected step.view
  guarded s := (kept.guarded s).step kept.held.exclusive kept.expected step.view

/-- A thread asleep in `P` or `Acquire`. -/
def blocked : Phase Header Unit Empty Point → Bool
  | .queued _ _ _ => true
  | _ => false

/-- A thread that writes leaves the mutex down, so no other thread is in there. -/
theorem Guarded.excludes {s : Header} {k : State (T := T)} (guarded : Guarded s k.view)
    (nonneg : 0 ≤ (k.sem (.plain s)).value) {t t' : T} (other : t' ≠ t)
    (writer : writes s (k.phase t).stage = true) :
    writes s (k.phase t').stage = false ∧ reads s (k.phase t').stage = false := by
  have value : 0 ≤ k.view.value (.plain s) := nonneg
  have writing : 0 < number k.view (writes s) := population_pos.mpr ⟨t, writer⟩
  refine ⟨?_, ?_⟩
  · cases second : writes s (k.phase t').stage with
    | false => rfl
    | true =>
      -- two writers would take the mutex below zero
      have two : 2 ≤ number k.view (writes s) := by
        have without := population_update (writes s) k.view.stage t' (.at .outside)
        have stillThere : 0 < population fun t'' =>
            writes s (Function.update k.view.stage t' (.at .outside) t'') :=
          population_pos.mpr ⟨t, by rw [Function.update_of_ne (Ne.symm other)]; exact writer⟩
        have stage : writes s (k.view.stage t') = true := second
        rw [stage, show writes s (.at .outside) = false from rfl] at without
        simp only [if_true, Bool.false_eq_true, if_false] at without
        unfold number
        omega
      unfold Guarded Balanced at guarded
      omega
  · cases second : reads s (k.phase t').stage with
    | false => rfl
    | true =>
      -- the reader is counted, and not the first one waiting
      have stage : counted s (k.view.stage t') = true ∧ pending s (k.view.stage t') = false := by
        show counted s (k.phase t').stage = true ∧ pending s (k.phase t').stage = false
        cases shape : (k.phase t').stage with
        | «at» u => cases u <;> simp_all [reads, counted, pending]
        | inP id u => cases u <;> simp_all [reads, counted, pending]
        | fresh u => simp [shape, reads] at second
        | inWait c l u => simp [shape, reads] at second
        | finished => simp [shape, reads] at second
      have without := population_update (counted s) k.view.stage t' (.at .outside)
      have rest : number k.view (pending s) ≤ population fun t'' =>
          counted s (Function.update k.view.stage t' (.at .outside) t'') := by
        apply population_mono
        intro t'' waits
        by_cases same : t'' = t'
        · rw [same, stage.2] at waits
          cases waits
        · rw [Function.update_of_ne same]
          revert waits
          cases k.view.stage t'' with
          | inP id next => cases next <;> simp [pending, counted]
          | fresh next => simp [pending]
          | «at» next => simp [pending]
          | inWait c l next => simp [pending]
          | finished => simp [pending]
      rw [stage.1, show counted s (.at .outside) = false from rfl] at without
      simp only [if_true, Bool.false_eq_true, if_false] at without
      unfold Guarded Balanced number at *
      omega

end

/-! ## Somebody can go on -/

/-- Everybody inside is asleep. -/
def Stuck (k : State (T := T)) : Prop :=
  ∀ t, inside (k.phase t).stage = true → blocked (k.phase t) = true

namespace Stuck

variable {k : State (T := T)}

/-- A running writer is not asleep. -/
theorem no_writer (stuck : Stuck k) (s : Header) : number k.view (writes s) = 0 := by
  apply population_zero
  intro t
  show writes s (k.phase t).stage = false
  cases shape : k.phase t with
  | running u =>
    have asleep := stuck t
    rw [shape] at asleep
    cases u with
    | writing s' => exact absurd (asleep rfl) (by simp [blocked])
    | outside => rfl
    | counting s' => rfl
    | admitted s' => rfl
    | reading s' => rfl
    | leaving s' => rfl
    | left s' => rfl
  | fresh u => rfl
  | queued id w u => rfl
  | woken id w u => rfl
  | waiting c l u => rfl
  | signalled c l u => rfl
  | finished => rfl

theorem no_woken (stuck : Stuck k) (id : SemId Header Unit) :
    population (fun t => (k.phase t).wokenOn id) = 0 := by
  apply population_zero
  intro t
  cases shape : k.phase t with
  | woken id' w u =>
    have asleep := stuck t
    rw [shape] at asleep
    exact absurd (asleep rfl) (by simp [blocked])
  | running u => rfl
  | fresh u => rfl
  | queued id w u => rfl
  | waiting c l u => rfl
  | signalled c l u => rfl
  | finished => rfl

variable (stuck : Stuck k) (kept : Kept k) (queues : k.Queued)
  (counts : ∀ id, 0 ≤ (k.sem id).value ∧ ((k.sem id).queue ≠ [] →
    (k.sem id).value ≤ population fun t => (k.phase t).wokenOn id))

include stuck queues counts in
/-- Nobody is about to test the value, so it is zero wherever a thread sleeps. -/
theorem value_zero {t : T} {id : SemId Header Unit} {inWait : Option Empty} {next : Point}
    (asleep : k.phase t = .queued id inWait next) : (k.sem id).value = 0 := by
  have member : t ∈ (k.sem id).queue :=
    (queues.member (.sem id) t).mpr (by simp [asleep, Phase.place])
  have bound := (counts id).2 (List.ne_nil_of_mem member)
  rw [stuck.no_woken id] at bound
  exact le_antisymm bound (counts id).1

include stuck kept queues counts in
/-- A thread asleep in `Acquire` waits for one that is itself asleep waiting for
a writer, and the writer is not asleep. -/
theorem none_at_lock (t : T) (inWait : Option Empty) (next : Point) :
    k.phase t ≠ .queued (.ofLock ()) inWait next := by
  intro asleep
  have taken : (k.owner ()).isSome = true := by
    have value := kept.held.value ()
    rw [stuck.value_zero queues counts asleep] at value
    by_contra free
    simp [free] at value
  obtain ⟨t', owner⟩ := Option.isSome_iff_exists.mp taken
  have holds := (kept.held.owner () t').mp owner
  have asleep' := stuck t'
  have where_ := kept.expected t'
  cases shape : k.phase t' with
  | running u =>
    rw [shape] at holds asleep'
    cases u with
    | counting s => exact absurd (asleep' rfl) (by simp [blocked])
    | admitted s => exact absurd (asleep' rfl) (by simp [blocked])
    | leaving s => exact absurd (asleep' rfl) (by simp [blocked])
    | left s => exact absurd (asleep' rfl) (by simp [blocked])
    | outside => exact holds
    | reading s => exact holds
    | writing s => exact holds
  | queued id w u =>
    rw [shape] at holds where_
    cases id with
    | ofLock l => exact holds.2 rfl
    | plain s =>
      have zero : k.view.value (.plain s) = 0 := stuck.value_zero queues counts shape
      cases u with
      | admitted s' =>
        have same : s = s' := where_
        subst same
        have waits : 0 < number k.view (pending s) :=
          population_pos.mpr ⟨t', by simp [State.view, shape, Phase.stage, pending]⟩
        have balanced : Balanced _ _ _ _ _ := kept.guarded s
        rw [zero, stuck.no_writer s] at balanced
        unfold Balanced at balanced
        omega
      | writing s' => exact holds.1
      | outside => exact holds.1
      | counting s' => exact where_
      | reading s' => exact holds.1
      | leaving s' => exact where_
      | left s' => exact where_
  | woken id w u =>
    rw [shape] at asleep'
    exact absurd (asleep' rfl) (by simp [blocked])
  | waiting c l u => exact c.elim
  | signalled c l u => exact c.elim
  | fresh u => rw [shape] at holds; exact holds
  | finished => rw [shape] at holds; exact holds

include stuck kept queues counts in
/-- A thread asleep at a mutex waits for a writer, or for readers that would all
be asleep in `Acquire`. -/
theorem none_at_mutex (t : T) (s : Header) (inWait : Option Empty) (next : Point) :
    k.phase t ≠ .queued (.plain s) inWait next := by
  intro asleep
  have zero : k.view.value (.plain s) = 0 := stuck.value_zero queues counts asleep
  have balanced : Balanced _ _ _ _ _ := kept.guarded s
  rw [zero, stuck.no_writer s] at balanced
  have readers : 0 < number k.view (counted s) ∧ number k.view (pending s) = 0 := by
    unfold Balanced at balanced
    omega
  obtain ⟨t', counts'⟩ := population_pos.mp readers.1
  have notPending : pending s (k.phase t').stage = false := by
    cases waits : pending s (k.phase t').stage with
    | false => rfl
    | true =>
      have positive : 0 < number k.view (pending s) := population_pos.mpr ⟨t', waits⟩
      omega
  have counts'' : counted s (k.phase t').stage = true := counts'
  have asleep' := stuck t'
  have where_ := kept.expected t'
  cases shape : k.phase t' with
  | queued id w u =>
    rw [shape] at notPending counts'' where_
    cases u with
    | leaving s' =>
      cases id with
      | ofLock l => exact stuck.none_at_lock kept queues counts t' w (.leaving s') shape
      | plain s'' => exact where_
    | admitted s' => simp_all [Phase.stage, pending, counted]
    | outside => simp [Phase.stage, counted] at counts''
    | counting s' => simp [Phase.stage, counted] at counts''
    | reading s' => simp [Phase.stage, counted] at counts''
    | left s' => simp [Phase.stage, counted] at counts''
    | writing s' => simp [Phase.stage, counted] at counts''
  | running u =>
    rw [shape] at asleep' counts''
    cases u with
    | admitted s' => exact absurd (asleep' rfl) (by simp [blocked])
    | reading s' => exact absurd (asleep' rfl) (by simp [blocked])
    | leaving s' => exact absurd (asleep' rfl) (by simp [blocked])
    | outside => simp [Phase.stage, counted] at counts''
    | counting s' => simp [Phase.stage, counted] at counts''
    | left s' => simp [Phase.stage, counted] at counts''
    | writing s' => simp [Phase.stage, counted] at counts''
  | woken id w u =>
    rw [shape] at asleep'
    exact absurd (asleep' rfl) (by simp [blocked])
  | waiting c l u => exact c.elim
  | signalled c l u => exact c.elim
  | fresh u => simp [shape, Phase.stage, counted] at counts''
  | finished => simp [shape, Phase.stage, counted] at counts''

end Stuck

end

section
variable [DecidableEq T] [Fintype T]

/-- Threads that run sections of any sectors in any interleaving: while one
writes, no other reads or writes the same sector; `reader_num` is the number of
readers past the count; and whenever somebody is inside, somebody inside is not
asleep. -/
theorem sections_exclude_and_proceed {start k : State (T := T)}
    {trace : List (Event T Header Unit Empty)} (begins : Begins start)
    (run : Runs (Threads.Step (code T)) start trace k) :
    (∀ s t t', t' ≠ t → writes s (k.phase t).stage = true →
      writes s (k.phase t').stage = false ∧ reads s (k.phase t').stage = false) ∧
    (∀ s, k.memory s = population fun t => counted s (k.phase t).stage) ∧
    ((∃ t, inside (k.phase t).stage = true) →
      ∃ t, inside (k.phase t).stage = true ∧ blocked (k.phase t) = false) := by
  have kept : Kept k := run.invariant_state begins.kept fun kept step => kept.step step
  have moves : Runs Move start trace k := run.expand fun step => step.moves
  have queues : k.Queued := begins.toStarts.queued_run moves
  have counts := begins.toStarts.counted_run moves
  refine ⟨fun s t t' other writer => ?_, fun s => (kept.guarded s).1, ?_⟩
  · exact (kept.guarded s).excludes (counts (.plain s)).nonneg other writer
  · rintro ⟨t, within⟩
    by_contra none
    have stuck : Stuck k := by
      intro t' inside'
      by_contra awake
      exact none ⟨t', inside', by simpa using awake⟩
    have bounds : ∀ id, 0 ≤ (k.sem id).value ∧ ((k.sem id).queue ≠ [] →
        (k.sem id).value ≤ population fun t => (k.phase t).wokenOn id) :=
      fun id => ⟨(counts id).nonneg, (counts id).wakeups⟩
    have asleep := stuck t within
    cases shape : k.phase t with
    | queued id w u =>
      cases id with
      | ofLock l => exact stuck.none_at_lock kept queues bounds t w u shape
      | plain s => exact stuck.none_at_mutex kept queues bounds t s w u shape
    | running u => simp [shape, blocked] at asleep
    | fresh u => simp [shape, blocked] at asleep
    | woken id w u => simp [shape, blocked] at asleep
    | waiting c l u => exact c.elim
    | signalled c l u => exact c.elim
    | finished => simp [shape, blocked] at asleep

end

/-! A writer is in; the first reader counts itself and sleeps at the mutex. -/

def twoThreads : State (T := Bool) where
  sem _ := { value := 1, queue := [] }
  owner _ := none
  queue := Empty.elim
  phase _ := .running .outside
  memory _ := 0

theorem twoThreads_begins : Begins twoThreads where
  value _ := Int.one_nonneg
  asleep _ := rfl
  free _ := ⟨rfl, rfl⟩
  conditions := Empty.rec
  phase _ := ⟨.outside, .inr rfl⟩
  outside _ := .inr rfl
  readers _ := rfl
  mutex _ := rfl

def rootHeader : Header := ⟨1, by decide⟩

theorem sections_exclude_and_proceed_waiting :
    ∃ trace k, Runs (Threads.Step (code Bool)) twoThreads trace k ∧
      writes rootHeader (k.phase false).stage = true ∧ blocked (k.phase true) = true ∧
      (k.memory rootHeader = population fun t => counted rootHeader (k.phase t).stage) ∧
      ∃ t, inside (k.phase t).stage = true ∧ blocked (k.phase t) = false := by
  have writes : Runs (Threads.Step (code Bool)) twoThreads _ _ :=
    .next .start (.segment (t := false) rfl (.writeBegin rootHeader) (by simp))
  have enters := writes.next (.segment (t := true) rfl (.readerIn rootHeader) (by simp))
  have waits := enters.next (.segment (t := true) rfl (.first rfl) (by simp))
  obtain ⟨-, counts, proceeds⟩ := sections_exclude_and_proceed twoThreads_begins waits
  exact ⟨_, _, waits, rfl, rfl, counts rootHeader, proceeds ⟨false, rfl⟩⟩

end Nachos.ReaderWriter
