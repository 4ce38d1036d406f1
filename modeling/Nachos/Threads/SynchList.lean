import Nachos.Threads.SynchProofs

/-! `SynchList`: a list that any number of threads append to and remove from,
guarded by a lock, with a condition for removers that find it empty. Items come
out in the order in which they went in, and no item waits while a remover sleeps
that nobody has woken for it. -/
namespace Nachos.SynchList
open Effects Threads

variable {T A : Type}

/-- The list, whose items are pointers, and what was appended to it and removed
from it under the lock. The last two fields only record the run. -/
structure Memory (A : Type) where
  list : List (Option A)
  /-- `ASSERT(item != NULL)` failed. -/
  failed : Bool
  appended : List (Option A)
  removed : List (Option A)

inductive Point (A : Type) where
  | outside
  /-- Has the lock in `Append`. -/
  | appending (item : A)
  | appended
  /-- Has the lock in `Remove` and has not looked at the list yet. -/
  | removing
  /-- Has the lock again after `Wait`, and has to look at the list again. -/
  | retesting
deriving DecidableEq

namespace Memory

/-- `list->Append(item)`. -/
def Append (m : Memory A) (item : Option A) : Memory A :=
  { m with list := m.list ++ [item], appended := m.appended ++ [item] }

/-- `item = list->Remove(); ASSERT(item != NULL)`, where an empty list gives NULL. -/
def Remove (m : Memory A) : Memory A :=
  let item := m.list.head?.join
  { m with
    list := m.list.tail
    failed := m.failed || item.isNone
    removed := m.removed ++ [item] }

end Memory

/-- A point of `Remove` at the head of its loop. -/
def Point.looks : Point A → Bool
  | .removing | .retesting => true
  | _ => false

/-- The code of a thread that appends and removes. -/
inductive Segment (t : T) :
    Point A → Memory A → Op T Empty Unit Unit → Memory A → Point A → Prop where
  | idles {m} : Segment t .outside m .tick m .outside
  | finishes {m} : Segment t .outside m .finish m .outside
  | append {m} (item : A) : Segment t .outside m (.acquire ()) m (.appending item)
  | signals {m item} :
      Segment t (.appending item) m (.signal () ()) (m.Append (some item)) .appended
  | appended {m} : Segment t .appended m (.release ()) m .outside
  | remove {m} : Segment t .outside m (.acquire ()) m .removing
  | waits {m u} (looks : u.looks = true) (empty : m.list.isEmpty = true) :
      Segment t u m (.wait () ()) m .retesting
  | removed {m u} (looks : u.looks = true) (nonempty : m.list.isEmpty = false) :
      Segment t u m (.release ()) m.Remove .outside

def code (T A : Type) : Code T Empty Unit Unit (Point A) (Memory A) where
  segment := Segment
  handler _ _ _ := False

abbrev State (T A : Type) := Threads.State T Empty Unit Unit (Point A) (Memory A)
abbrev Phase (A : Type) := Threads.Phase Empty Unit Unit (Point A)

/-- Signalled, and has not looked at the list again. -/
def pending : Phase A → Bool
  | .signalled _ _ _ | .queued _ (some _) _ | .woken _ (some _) _ => true
  | .running .retesting => true
  | _ => false

/-- `Wait` goes on with another look at the list, and nothing else does. -/
def Expected : Phase A → Prop
  | .waiting _ _ next | .signalled _ _ next | .queued _ (some _) next | .woken _ (some _) next =>
    next = .retesting
  | .queued _ none next | .woken _ none next => next ≠ .retesting
  | .fresh next => next = .outside
  | _ => True

theorem Expected.readied {phase : Phase A} (expected : Expected phase) : Expected phase.readied := by
  cases phase with
  | queued id inWait next => cases inWait <;> exact expected
  | waiting c l next => exact expected
  | fresh next => exact expected
  | running next => exact expected
  | woken id inWait next => exact expected
  | signalled c l next => exact expected
  | finished => exact expected

section
variable [DecidableEq T] {k : State T A}

private theorem expected_setPhase (expected : ∀ t, Expected (k.phase t)) {t : T} {phase : Phase A}
    (fine : Expected phase) : ∀ t', Expected ((k.setPhase t phase).phase t') := by
  intro t'
  by_cases same : t' = t
  · subst same
    rwa [State.setPhase_same]
  · rw [State.setPhase_other _ same]
    exact expected t'

private theorem expected_V (expected : ∀ t, Expected (k.phase t)) (id : SemId Empty Unit) :
    ∀ t, Expected ((k.V id).1.phase t) := by
  intro t
  obtain same | readied := k.V_phase_cases id t
  · rw [same]
    exact expected t
  · rw [readied]
    exact (expected t).readied

private theorem expected_P (expected : ∀ t, Expected (k.phase t)) {t : T} {id : SemId Empty Unit}
    {inWait : Option Unit} {next : Point A} (fine : Expected (.queued id inWait next)) :
    ∀ t', Expected ((k.P t id inWait next).1.phase t') := by
  intro t'
  by_cases same : t' = t
  · subst same
    obtain queued | running := k.P_phase_cases t' id inWait next
    · rwa [queued]
    · rw [running]
      trivial
  · rw [State.P_phase_other same]
    exact expected t'

variable [Fintype T]

/-- How many threads were signalled and have yet to look at the list. -/
def pendings (k : State T A) : Nat := population fun t => pending (k.phase t)

theorem pendings_setPhase (k : State T A) (t : T) (phase : Phase A) :
    pendings (k.setPhase t phase) + (if pending (k.phase t) then 1 else 0) =
      pendings k + (if pending phase then 1 else 0) :=
  population_update pending k.phase t phase

/-- Waking a thread that sleeps in `Acquire` changes nothing about its signal. -/
theorem pendings_V {k : State T A} (valid : k.Queued) (id : SemId Empty Unit) :
    pendings (k.V id).1 = pendings k := by
  cases shape : (k.sem id).queue with
  | nil =>
    rw [State.V_alone shape]
    rfl
  | cons t rest =>
    have asleep : (k.phase t).place = some (.sem id) :=
      (valid.member (.sem id) t).mp (by simp [State.line, shape])
    rw [State.V_wakes shape]
    apply population_congr
    intro t'
    by_cases same : t' = t
    · subst same
      rw [State.ready_same, State.setSem_phase]
      cases at_t : k.phase t' <;> simp [at_t, Phase.place] at asleep
      rename_i inWait next
      cases inWait <;> rfl
    · rw [State.ready_other same, State.setSem_phase]

/-- A thread that tests the lock's semaphore keeps its signal, whether it gets
the lock or not. -/
theorem pendings_P {k : State T A} {t : T} {id : SemId Empty Unit} {inWait : Option Unit}
    {next : Point A} (asleep : pending (.queued id inWait next) = pending (k.phase t))
    (through : pending (.running next) = pending (k.phase t)) :
    pendings (k.P t id inWait next).1 = pendings k := by
  have moved : ∀ phase : Phase A, pending phase = pending (k.phase t) →
      pendings (k.setPhase t phase) = pendings k := by
    intro phase same
    have shifted := pendings_setPhase k t phase
    rw [same] at shifted
    omega
  by_cases zero : (k.sem id).value = 0
  · rw [State.P_sleeps zero]
    exact moved _ asleep
  · cases id with
    | plain s => exact s.elim
    | ofLock l =>
      rw [State.P_takes_lock zero]
      exact moved _ through

/-- What every state of a run has. -/
structure Kept (k : State T A) : Prop where
  order : k.memory.appended = k.memory.removed ++ k.memory.list
  items : ∀ item ∈ k.memory.list, item.isSome = true
  fine : k.memory.failed = false
  expected (t : T) : Expected (k.phase t)
  covered : k.queue () ≠ [] → k.memory.list.length ≤ pendings k

/-- A thread moves on without a signal and without touching the list. -/
private theorem Kept.moves (kept : Kept k) {t : T} {phase : Phase A} (fine : Expected phase)
    (same : pending phase = pending (k.phase t)) : Kept (k.setPhase t phase) where
  order := kept.order
  items := kept.items
  fine := kept.fine
  expected := expected_setPhase kept.expected fine
  covered := by
    have shifted := pendings_setPhase k t phase
    rw [same] at shifted
    rw [Nat.add_right_cancel shifted]
    exact kept.covered

private theorem Kept.P (kept : Kept k) {t : T} {id : SemId Empty Unit} {inWait : Option Unit}
    {next : Point A} (fine : Expected (.queued id inWait next))
    (asleep : pending (.queued id inWait next) = pending (k.phase t))
    (through : pending (.running next) = pending (k.phase t)) : Kept (k.P t id inWait next).1 where
  order := by rw [State.P_memory]; exact kept.order
  items := by rw [State.P_memory]; exact kept.items
  fine := by rw [State.P_memory]; exact kept.fine
  expected := expected_P kept.expected fine
  covered := by
    rw [State.P_memory, State.P_queue, pendings_P asleep through]
    exact kept.covered

/-- `Append` adds an item and, if somebody sleeps, a thread that will look. -/
private theorem Kept.signals (kept : Kept k) (valid : k.Queued) {t : T} {item : A}
    (stands : k.phase t = .running (.appending item)) :
    Kept ({ k with memory := k.memory.Append (some item) }.perform t (.signal () ()) .appended).1 := by
  have same : pendings (k.setPhase t (.running .appended)) = pendings k := by
    have shifted := pendings_setPhase k t (.running .appended)
    rw [stands] at shifted
    simpa [pending] using shifted
  have order : k.memory.appended ++ [some item] =
      k.memory.removed ++ (k.memory.list ++ [some item]) := by
    rw [kept.order, List.append_assoc]
  have items : ∀ x ∈ k.memory.list ++ [some item], x.isSome = true := by
    intro x inside
    obtain earlier | rfl := by simpa using inside
    · exact kept.items x earlier
    · rfl
  have running : Expected (.running .appended : Phase A) := trivial
  have moved := expected_setPhase kept.expected (t := t) running
  show Kept (State.Signal _ ()).1
  cases shape : k.queue () with
  | nil =>
    have empty : ({ k with memory := k.memory.Append (some item) }.setPhase t
        (.running .appended)).queue () = [] := shape
    rw [State.Signal_none empty]
    exact ⟨order, items, kept.fine, moved, fun waiting => absurd empty waiting⟩
  | cons w rest =>
    have asleep : (k.phase w).place = some (.cond ()) :=
      (valid.member (.cond ()) w).mp (by simp [State.line, shape])
    obtain ⟨l, next, waits⟩ : ∃ l next, k.phase w = .waiting () l next := by
      cases at_w : k.phase w <;> simp [at_w, Phase.place] at asleep
      exact ⟨_, _, rfl⟩
    have other : w ≠ t := by
      rintro rfl
      rw [stands] at waits
      cases waits
    have first : ({ k with memory := k.memory.Append (some item) }.setPhase t
        (.running .appended)).queue () = w :: rest := shape
    rw [State.Signal_wakes first]
    refine ⟨order, items, kept.fine, ?_, fun _ => ?_⟩
    · intro t'
      by_cases at_w : t' = w
      · subst at_w
        rw [State.ready_same]
        exact (moved t').readied
      · rw [State.ready_other at_w]
        exact moved t'
    · have bound := kept.covered (by simp [shape])
      have joined := pendings_setPhase (k.setPhase t (.running .appended)) w
        ((k.setPhase t (.running .appended)).phase w).readied
      rw [State.setPhase_other _ other, waits, same] at joined
      simp only [pending, Phase.readied, Bool.false_eq_true, if_false, if_true] at joined
      have count : pendings ((({ k with memory := k.memory.Append (some item) }.setPhase t
          (.running .appended)).setQueue () rest).ready w) =
          pendings ((k.setPhase t (.running .appended)).setPhase w (.signalled () l next)) := by
        simp [pendings, State.ready, waits, other, Phase.readied]
        rfl
      rw [count]
      show (k.memory.list ++ [some item]).length ≤ _
      simp only [List.length_append, List.length_singleton]
      omega

/-- A thread gives the lock up and is outside. -/
private theorem Kept.releases (kept : Kept k) (valid : k.Queued) {t : T} {u : Point A}
    (stands : k.phase t = .running u) {m : Memory A} (order : m.appended = m.removed ++ m.list)
    (items : ∀ item ∈ m.list, item.isSome = true) (fine : m.failed = false)
    (fewer : k.queue () ≠ [] → m.list.length + (if pending (.running u) then 1 else 0) ≤ pendings k) :
    Kept ({ k with memory := m }.perform t (.release ()) .outside).1 := by
  have gone : ({ k with memory := m }.setPhase t (.running .outside)).Queued := by
    have before : State.Queued { k with memory := m } := valid
    exact before.setPhase (by show none = (k.phase t).place; rw [stands]; rfl)
  have left := pendings_setPhase k t (.running .outside)
  rw [stands] at left
  simp only [pending, Bool.false_eq_true, if_false, Nat.add_zero] at left
  have raised := pendings_V gone (.ofLock ())
  refine ⟨?_, ?_, ?_, ?_, fun waiting => ?_⟩
  · simpa [State.perform, State.Release] using order
  · simpa [State.perform, State.Release] using items
  · simpa [State.perform, State.Release] using fine
  · have moved : ∀ t', Expected (({ k with memory := m }.setPhase t (.running .outside)).phase t') :=
      expected_setPhase (k := { k with memory := m }) kept.expected
        (show Expected (.running .outside : Phase A) from trivial)
    exact expected_V moved (.ofLock ())
  · have bound := fewer (by simpa [State.perform, State.Release] using waiting)
    have count : pendings ({ k with memory := m }.perform t (.release ()) .outside).1 =
        pendings (k.setPhase t (.running .outside)) := raised
    have memory : ({ k with memory := m }.perform t (.release ()) .outside).1.memory = m := by
      simp [State.perform, State.Release]
    rw [count, memory]
    simp only [pending] at bound
    omega

/-- A remover that finds the list empty gives its signal back. -/
private theorem Kept.waits (kept : Kept k) {t : T} {u : Point A}
    (stands : k.phase t = .running u) (empty : k.memory.list.isEmpty = true) :
    Kept (k.perform t (.wait () ()) .retesting).1 := by
  have memory : (k.perform t (.wait () ()) .retesting).1.memory = k.memory := by
    simp [State.perform, State.Wait, State.Release]
  refine ⟨by rw [memory]; exact kept.order, by rw [memory]; exact kept.items,
    by rw [memory]; exact kept.fine, ?_, fun _ => ?_⟩
  · have released := expected_V kept.expected (.ofLock ())
    intro t'
    by_cases same : t' = t
    · subst same
      simp [State.perform, State.Wait, Expected]
    · simpa [State.perform, State.Wait, State.Release, same] using released t'
  · rw [memory, List.isEmpty_iff.mp empty]
    exact Nat.zero_le _

theorem Kept.step {k' : State T A} {events : List (Event T Empty Unit Unit)} (kept : Kept k)
    (valid : k.Queued) (step : Threads.Step (code T A) k events k') : Kept k' := by
  cases step with
  | segment stands does once =>
    cases does with
    | idles => exact kept.moves trivial (by rw [stands])
    | finishes => exact kept.moves trivial (by rw [stands]; rfl)
    | append item => exact kept.P (by simp [Expected]) (by rw [stands]; rfl) (by rw [stands]; rfl)
    | signals => exact kept.signals valid stands
    | appended =>
      refine kept.releases valid stands kept.order kept.items kept.fine fun waiting => ?_
      simpa [pending] using kept.covered waiting
    | remove => exact kept.P (by simp [Expected]) (by rw [stands]; rfl) (by rw [stands]; rfl)
    | waits looks empty => exact kept.waits stands empty
    | removed looks nonempty =>
      obtain ⟨item, rest, shape⟩ : ∃ item rest, k.memory.list = item :: rest := by
        cases shape : k.memory.list with
        | nil => simp [shape] at nonempty
        | cons item rest => exact ⟨item, rest, rfl⟩
      have present := kept.items item (by simp [shape])
      have items := kept.items
      rw [shape] at items
      refine kept.releases valid stands ?_ ?_ ?_ fun waiting => ?_
      · simpa [Memory.Remove, shape] using kept.order
      · intro x inside
        exact items x (List.mem_cons_of_mem _ (by simpa [Memory.Remove, shape] using inside))
      · obtain ⟨a, rfl⟩ := Option.isSome_iff_exists.mp present
        simp [Memory.Remove, shape, kept.fine]
      · have bound := kept.covered waiting
        simp only [Memory.Remove, shape, List.tail_cons, List.length_cons] at bound ⊢
        split <;> omega
  | retest stands =>
    rename_i t id inWait next
    have where_ := kept.expected t
    rw [stands] at where_
    cases inWait with
    | none =>
      refine kept.P where_ (by rw [stands]; rfl) ?_
      rw [stands]
      have other : next ≠ .retesting := where_
      cases next with
      | retesting => exact absurd rfl other
      | outside => rfl
      | appending item => rfl
      | appended => rfl
      | removing => rfl
    | some c =>
      have again : next = .retesting := where_
      subst again
      exact kept.P rfl (by rw [stands]; rfl) (by rw [stands]; rfl)
  | reacquire stands =>
    rename_i t c l next
    have where_ := kept.expected t
    rw [stands] at where_
    have again : next = .retesting := where_
    subst again
    exact kept.P rfl (by rw [stands]; rfl) (by rw [stands]; rfl)
  | interrupt fires => exact fires.elim

/-- A new list, with every thread outside. -/
structure Begins (k : State T A) : Prop extends Starts k where
  outside (t : T) : k.phase t = .fresh .outside ∨ k.phase t = .running .outside
  new : k.memory = { list := [], failed := false, appended := [], removed := [] }

omit [DecidableEq T] in
theorem Begins.kept {k : State T A} (begins : Begins k) : Kept k := by
  refine ⟨by simp [begins.new], by simp [begins.new], by simp [begins.new], fun t => ?_, ?_⟩
  · obtain fresh | running := begins.outside t
    · rw [fresh]
      rfl
    · rw [running]
      trivial
  · simp [begins.new]

/-- Any number of threads append and remove in any interleaving: the items come
out in the order they went in, none is lost or doubled, none is NULL, and while a
remover sleeps there are no more items than threads already signalled for them. -/
theorem synch_list_is_fifo {start k : State T A} {trace : List (Event T Empty Unit Unit)}
    (begins : Begins start) (run : Runs (Threads.Step (code T A)) start trace k) :
    k.memory.removed <+: k.memory.appended ∧
    k.memory.appended = k.memory.removed ++ k.memory.list ∧ k.memory.failed = false ∧
    (k.queue () ≠ [] → k.memory.list.length ≤ population fun t => pending (k.phase t)) := by
  have kept : k.Queued ∧ Kept k := by
    refine run.invariant_state (P := fun k => k.Queued ∧ Kept k)
      ⟨begins.toStarts.queued, begins.kept⟩ ?_
    intro k events k' ⟨valid, kept⟩ step
    exact ⟨step.moves.invariant_state valid fun valid move => valid.move move, kept.step valid step⟩
  obtain ⟨-, order, items, fine, expected, covered⟩ := kept
  exact ⟨⟨_, order.symm⟩, order, fine, covered⟩

end

/-! A remover finds the list empty and sleeps; an appender wakes it. -/

def twoThreads : State Bool Nat where
  sem _ := { value := 1, queue := [] }
  owner _ := none
  queue _ := []
  phase _ := .running .outside
  memory := { list := [], failed := false, appended := [], removed := [] }

theorem twoThreads_begins : Begins twoThreads where
  value _ := Int.one_nonneg
  asleep _ := rfl
  free _ := ⟨rfl, rfl⟩
  conditions _ := rfl
  phase _ := ⟨.outside, .inr rfl⟩
  outside _ := .inr rfl
  new := rfl

theorem synch_list_is_fifo_handed_over :
    ∃ trace k, Runs (Threads.Step (code Bool Nat)) twoThreads trace k ∧
      .wakes () false ∈ trace ∧ k.memory.list = [some 7] ∧
      k.memory.appended = k.memory.removed ++ k.memory.list := by
  have asks : Runs (Threads.Step (code Bool Nat)) twoThreads _ _ :=
    .next .start (.segment (t := false) rfl .remove (by simp))
  have sleeps := asks.next (.segment (t := false) rfl (.waits rfl rfl) (by simp))
  have enters := sleeps.next (.segment (t := true) rfl (.append 7) (by simp))
  have wakes := enters.next (.segment (t := true) rfl .signals (by simp))
  exact ⟨_, _, wakes, by decide, rfl, (synch_list_is_fifo twoThreads_begins wakes).2.1⟩

end Nachos.SynchList
