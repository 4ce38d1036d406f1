import Mathlib.Algebra.BigOperators.Group.Finset.Piecewise
import Mathlib.Algebra.Group.Action.Defs
import Mathlib.Algebra.Order.BigOperators.Group.Finset
import Nachos.Threads.LockProofs
import Nachos.Threads.View

/-! `Barrier` (`threads/synch.cc`): threads wait for each other with a counter, a
lock and a condition.

The counter is not set back when the last thread has come. The first round is as it
should be; from the second one nobody returns. -/
namespace Nachos.Barrier
open Effects Threads

variable {T : Type}

/-- The counter, and how often each thread came to the barrier and left it. The last two
fields only record the run. -/
structure Memory (T : Type) where
  barrierCnt : BitVec 32
  calls : T → Nat
  returns : T → Nat

inductive Point where
  | outside
  /-- Has the lock in `Barrier` and has not counted itself yet. -/
  | locked
  /-- Is about to give the lock up. -/
  | leaving
deriving DecidableEq

section
variable [DecidableEq T]

/-- `barrierCnt++`. -/
def Memory.comes (m : Memory T) (t : T) : Memory T :=
  { m with barrierCnt := m.barrierCnt + 1, calls := Function.update m.calls t (m.calls t + 1) }

def Memory.leaves (m : Memory T) (t : T) : Memory T :=
  { m with returns := Function.update m.returns t (m.returns t + 1) }

/-- The code of a thread that calls `Barrier(max_num)` again and again. -/
inductive Segment (max_num : BitVec 32) (t : T) :
    Point → Memory T → Op T Empty Unit Unit → Memory T → Point → Prop where
  | idles {m} : Segment max_num t .outside m .tick m .outside
  | finishes {m} : Segment max_num t .outside m .finish m .outside
  | enters {m} : Segment max_num t .outside m (.acquire ()) m .locked
  | broadcasts {m} (last : (m.comes t).barrierCnt = max_num) :
      Segment max_num t .locked m (.broadcast () ()) (m.comes t) .leaving
  | waits {m} (early : (m.comes t).barrierCnt ≠ max_num) :
      Segment max_num t .locked m (.wait () ()) (m.comes t) .leaving
  | leaves {m} : Segment max_num t .leaving m (.release ()) (m.leaves t) .outside

def code (T : Type) [DecidableEq T] (max_num : BitVec 32) :
    Code T Empty Unit Unit Point (Memory T) where
  segment := Segment max_num
  handler _ _ _ := False

end

abbrev State (T : Type) := Threads.State T Empty Unit Unit Point (Memory T)
abbrev Phase := Threads.Phase Empty Unit Unit Point

/-! ## The two rounds -/

/-- How often a thread in this phase has come and left, before and after the first round
is complete. -/
def Fits (opened : Bool) (calls returns : Nat) : Phase → Prop
  | .fresh next => next = .outside ∧ calls = returns ∧ returns = opened.toNat
  | .running .outside | .running .locked | .finished => calls = returns ∧ returns = opened.toNat
  | .queued _ none next | .woken _ none next =>
    next = .locked ∧ calls = returns ∧ returns = opened.toNat
  | .waiting _ _ next => next = .leaving ∧ calls = returns + 1 ∧ returns = opened.toNat
  | .signalled _ _ next | .queued _ (some _) next | .woken _ (some _) next =>
    next = .leaving ∧ opened = true ∧ calls = 1 ∧ returns = 0
  | .running .leaving => opened = true ∧ calls = 1 ∧ returns = 0

theorem Fits.calls_le {opened : Bool} {calls returns : Nat} {phase : Phase}
    (fits : Fits opened calls returns phase) : calls ≤ opened.toNat + 1 := by
  unfold Fits at fits
  split at fits <;> omega

theorem Fits.le_calls {calls returns : Nat} {phase : Phase}
    (fits : Fits true calls returns phase) : 1 ≤ calls := by
  unfold Fits at fits
  split at fits <;> simp_all

theorem Fits.returns_le {opened : Bool} {calls returns : Nat} {phase : Phase}
    (fits : Fits opened calls returns phase) : returns ≤ opened.toNat := by
  unfold Fits at fits
  split at fits <;> omega

/-- `V` wakes only threads in `Acquire`. -/
theorem Fits.wakes {opened : Bool} {calls returns : Nat} {phase : Phase}
    (fits : Fits opened calls returns phase) (other : phase.place ≠ some (.cond ())) :
    Fits opened calls returns phase.readied := by
  cases phase with
  | queued id inWait next => cases inWait <;> exact fits
  | waiting c l next => exact absurd rfl other
  | fresh next => exact fits
  | running next => exact fits
  | woken id inWait next => exact fits
  | signalled c l next => exact fits
  | finished => exact fits

/-- Before the first round is complete, a thread that has come waits. -/
theorem Fits.waits {returns : Nat} {phase : Phase} (fits : Fits false 1 returns phase) :
    returns = 0 ∧ phase = .waiting () () .leaving := by
  unfold Fits at fits
  split at fits
  case h_7 c l next =>
    obtain ⟨rfl, -, none⟩ := fits
    exact ⟨none, rfl⟩
  all_goals
    simp only [Bool.toNat_false, Bool.false_eq_true, false_and, and_false] at fits
  all_goals omega

/-- A thread that has come twice waits. -/
theorem Fits.waits_again {returns : Nat} {phase : Phase} (fits : Fits true 2 returns phase) :
    phase.place = some (.cond ()) := by
  unfold Fits at fits
  split at fits
  case h_7 c l next => rfl
  all_goals
    simp only [Bool.toNat_true] at fits
  all_goals omega

section
variable [DecidableEq T] [Fintype T]

omit [Fintype T] in
theorem broadcast_memory (k : State T) (t : T) :
    (k.perform t (.broadcast () ()) .leaving).1.memory = k.memory :=
  congrArg View.memory (State.view_Broadcast (k.setPhase t (.running .leaving)) ())

/-- What every state of a run has. -/
structure Kept (opened : Bool) (k : State T) : Prop where
  fits (t : T) : Fits opened (k.memory.calls t) (k.memory.returns t) (k.phase t)
  count : k.memory.barrierCnt = BitVec.ofNat 32 (∑ t, k.memory.calls t)
  early : opened = false → ∑ t, k.memory.calls t < Fintype.card T

namespace Kept

variable {opened : Bool} {k : State T}

omit [DecidableEq T] in
theorem congr (kept : Kept opened k) {k' : State T} (phase : k'.phase = k.phase)
    (memory : k'.memory = k.memory) : Kept opened k' := by
  refine ⟨?_, ?_, ?_⟩
  · rw [phase, memory]
    exact kept.fits
  · rw [memory]
    exact kept.count
  · rw [memory]
    exact kept.early

/-- A thread goes on without having come or left. -/
theorem moves (kept : Kept opened k) {t : T} {phase : Phase}
    (fits : Fits opened (k.memory.calls t) (k.memory.returns t) phase) : Kept opened (k.setPhase t phase) := by
  refine ⟨fun t' => ?_, kept.count, kept.early⟩
  by_cases same : t' = t
  · subst same
    rw [State.setPhase_same]
    exact fits
  · rw [State.setPhase_other _ same]
    exact kept.fits t'

theorem V (kept : Kept opened k) (valid : k.Queued) : Kept opened (k.V (.ofLock ())).1 := by
  cases shape : (k.sem (.ofLock ())).queue with
  | nil =>
    rw [State.V_alone shape]
    exact kept.congr rfl rfl
  | cons t rest =>
    have asleep : (k.phase t).place = some (.sem (.ofLock ())) :=
      (valid.member (.sem (.ofLock ())) t).mp (by simp [State.line, shape])
    rw [State.V_wakes shape]
    have woken : Fits opened (k.memory.calls t) (k.memory.returns t) (k.phase t).readied := by
      apply (kept.fits t).wakes
      rw [asleep]
      simp
    exact (kept.moves woken).congr rfl rfl

theorem P (kept : Kept opened k) {t : T} {inWait : Option Unit} {next : Point}
    (asleep : Fits opened (k.memory.calls t) (k.memory.returns t) (.queued (.ofLock ()) inWait next))
    (through : Fits opened (k.memory.calls t) (k.memory.returns t) (.running next)) :
    Kept opened (k.P t (.ofLock ()) inWait next).1 := by
  by_cases zero : (k.sem (.ofLock ())).value = 0
  · rw [State.P_sleeps zero]
    exact (kept.moves asleep).congr rfl rfl
  · rw [State.P_takes_lock zero]
    exact (kept.moves through).congr rfl rfl

theorem sum_comes (m : Memory T) (t : T) : ∑ t', (m.comes t).calls t' = ∑ t', m.calls t' + 1 := by
  have without := Finset.sum_update_of_mem (Finset.mem_univ t) m.calls (m.calls t + 1)
  have all := Finset.sum_update_of_mem (Finset.mem_univ t) m.calls (m.calls t)
  rw [Function.update_eq_self] at all
  show ∑ t', Function.update m.calls t (m.calls t + 1) t' = _
  omega

/-- A thread counts itself. -/
theorem comes (kept : Kept opened k) {k' : State T} {t : T}
    (others : ∀ t', t' ≠ t → k'.phase t' = k.phase t') (memory : k'.memory = k.memory.comes t)
    (fits : Fits opened (k.memory.calls t + 1) (k.memory.returns t) (k'.phase t))
    (early : opened = false → ∑ t, k.memory.calls t + 1 < Fintype.card T) : Kept opened k' := by
  refine ⟨fun t' => ?_, ?_, ?_⟩
  · rw [memory]
    by_cases same : t' = t
    · subst same
      simpa [Memory.comes] using fits
    · rw [others t' same]
      simpa [Memory.comes, same] using kept.fits t'
  · rw [memory, sum_comes, BitVec.ofNat_add, ← kept.count]
    rfl
  · rw [memory, sum_comes]
    exact early

/-- The last thread of the first round opens the barrier for all. -/
theorem opens (kept : Kept false k) {k' : State T} {t : T}
    (here : k'.phase t = .running .leaving) (arrives : Fits false (k.memory.calls t) (k.memory.returns t)
      (.running .locked)) (others : ∀ t', t' ≠ t → k.memory.calls t' = 1 → k'.phase t' = (k.phase t').readied)
    (memory : k'.memory = k.memory.comes t)
    (last : ∑ t, k.memory.calls t + 1 = Fintype.card T) : Kept true k' := by
  have most : ∀ t', (k.memory.comes t).calls t' ≤ 1 := by
    intro t'
    by_cases same : t' = t
    · subst same
      have none : k.memory.calls t' = 0 := arrives.1.trans arrives.2
      simp [Memory.comes, none]
    · have bound := (kept.fits t').calls_le
      simpa [Memory.comes, same] using bound
  -- As many calls as threads, and no thread with two: every thread has come.
  have all : ∀ t', (k.memory.comes t).calls t' = 1 := by
    have total : ∑ t', (k.memory.comes t).calls t' = ∑ _ : T, 1 := by
      rw [sum_comes, last]
      simp
    intro t'
    exact (Finset.sum_eq_sum_iff_of_le fun t' _ => most t').mp total t' (Finset.mem_univ t')
  refine ⟨fun t' => ?_, ?_, fun closed => by cases closed⟩
  · rw [memory, all t']
    by_cases same : t' = t
    · subst same
      rw [here]
      exact ⟨rfl, rfl, arrives.2⟩
    · have came : k.memory.calls t' = 1 := by
        have one := all t'
        simpa [Memory.comes, same] using one
      have fits := kept.fits t'
      rw [came] at fits
      obtain ⟨none, waiting⟩ := fits.waits
      rw [others t' same came, waiting]
      exact ⟨rfl, rfl, rfl, none⟩
  · rw [memory, sum_comes, BitVec.ofNat_add, ← kept.count]
    rfl

/-- A thread leaves the barrier. -/
theorem leaves (kept : Kept opened k) {k' : State T} {t : T}
    (others : ∀ t', t' ≠ t → k'.phase t' = k.phase t') (memory : k'.memory = k.memory.leaves t)
    (fits : Fits opened (k.memory.calls t) (k.memory.returns t + 1) (k'.phase t)) : Kept opened k' := by
  refine ⟨fun t' => ?_, ?_, ?_⟩
  · rw [memory]
    by_cases same : t' = t
    · subst same
      simpa [Memory.leaves] using fits
    · rw [others t' same]
      simpa [Memory.leaves, same] using kept.fits t'
  · rw [memory]
    exact kept.count
  · rw [memory]
    exact kept.early

/-- The counter is `max_num` for the last thread of the first round only: no thread comes
three times. -/
theorem last_iff (kept : Kept opened k) {max_num : BitVec 32} (all : Fintype.card T = max_num.toNat)
    (positive : 0 < max_num.toInt) {t : T} (stands : k.phase t = .running .locked) :
    (k.memory.comes t).barrierCnt = max_num ↔
      opened = false ∧ ∑ t, k.memory.calls t + 1 = Fintype.card T := by
  have small : 2 * max_num.toNat < 2 ^ 32 := by
    have := BitVec.toInt_eq_toNat_cond max_num
    split at this <;> omega
  have count : (k.memory.comes t).barrierCnt = BitVec.ofNat 32 (∑ t, k.memory.calls t + 1) := by
    rw [BitVec.ofNat_add, ← kept.count]
    rfl
  have here := kept.fits t
  rw [stands] at here
  have equal : ∀ n, n < 2 ^ 32 → (BitVec.ofNat 32 n = max_num ↔ n = max_num.toNat) := by
    intro n bound
    rw [BitVec.toNat_eq, BitVec.toNat_ofNat, Nat.mod_eq_of_lt bound]
  rw [count, all]
  cases opened with
  | false =>
    have few := kept.early rfl
    rw [equal _ (by omega)]
    exact ⟨fun same => ⟨rfl, same⟩, fun same => same.2⟩
  | true =>
    have least : ∑ _ : T, 1 ≤ ∑ t, k.memory.calls t := Finset.sum_le_sum fun t' _ => (kept.fits t').le_calls
    have most : ∑ t', (k.memory.comes t).calls t' ≤ ∑ _ : T, 2 := by
      refine Finset.sum_le_sum fun t' _ => ?_
      by_cases same : t' = t
      · subst same
        have once : k.memory.calls t' = 1 := here.1.trans here.2
        simp [Memory.comes, once]
      · have bound := (kept.fits t').calls_le
        simpa [Memory.comes, same] using bound
    rw [sum_comes] at most
    simp only [Finset.sum_const, Finset.card_univ, smul_eq_mul, all] at least most
    rw [equal _ (by omega)]
    refine iff_of_false (by omega) fun closed => by cases closed.1

theorem step {max_num : BitVec 32} (all : Fintype.card T = max_num.toNat)
    (positive : 0 < max_num.toInt) {k' : State T} {events : List (Event T Empty Unit Unit)}
    (kept : Kept opened k) (valid : k.Queued) (step : Threads.Step (code T max_num) k events k') :
    ∃ opened', Kept opened' k' := by
  cases step with
  | segment stands does once =>
    rename_i t u next op memory
    have here := kept.fits t
    rw [stands] at here
    cases does with
    | idles => exact ⟨opened, kept.moves here⟩
    | finishes => exact ⟨opened, kept.moves here⟩
    | enters => exact ⟨opened, kept.P ⟨rfl, here⟩ here⟩
    | broadcasts last =>
      obtain ⟨rfl, complete⟩ := (kept.last_iff all positive stands).mp last
      have went : ({ k with memory := k.memory.comes t }.setPhase t (.running .leaving)).queue () =
          k.queue () := rfl
      obtain ⟨-, emptied⟩ := State.Broadcast_spec
        ({ k with memory := k.memory.comes t }.setPhase t (.running .leaving)) () (valid.nodup (.cond ()))
      have asleep : ∀ t', t' ∈ k.queue () ↔ (k.phase t').place = some (.cond ()) :=
        valid.member (.cond ())
      refine ⟨true, kept.opens ?_ here (fun t' other came => ?_) ?_ complete⟩
      · refine (emptied.others t ?_).trans (State.setPhase_same _)
        rw [went, asleep, stands]
        exact fun waiting => by cases waiting
      · have fits := kept.fits t'
        rw [came] at fits
        refine (emptied.woken t' ?_).trans ?_
        · rw [went, asleep, fits.waits.2]
          rfl
        · rw [State.setPhase_other _ other]
      · exact broadcast_memory _ t
    | waits early =>
      have raised := kept.V valid
      have awake : (k.phase t).place = none := by rw [stands]; rfl
      refine ⟨opened, raised.comes (t := t) (fun t' other => ?_) ?_ ?_ fun closed => ?_⟩
      · have same := congrArg Prod.fst (State.V_withMemory k (.ofLock ()) (k.memory.comes t))
        simp [State.perform, State.Wait, State.Release, other, same]
      · simp [State.perform, State.Wait, State.Release]
      · simp only [State.perform, State.Wait, State.Release, State.setPhase_same, State.V_memory]
        refine ⟨rfl, ?_, here.2⟩
        rw [here.1]
      · have bound := kept.early closed
        have missing := fun complete => early ((kept.last_iff all positive stands).mpr ⟨closed, complete⟩)
        rw [State.V_memory]
        exact lt_of_le_of_ne bound missing
    | leaves =>
      obtain ⟨rfl, once, never⟩ := here
      have left : Kept true ({ k with memory := k.memory.leaves t }.setPhase t (.running .outside)) := by
        refine kept.leaves (t := t) (fun t' other => State.setPhase_other _ other) rfl ?_
        rw [State.setPhase_same, once, never]
        exact ⟨rfl, rfl⟩
      have gone : ({ k with memory := k.memory.leaves t }.setPhase t (.running .outside)).Queued := by
        have before : State.Queued { k with memory := k.memory.leaves t } := valid
        exact before.setPhase (by show none = (k.phase t).place; rw [stands]; rfl)
      exact ⟨true, (left.V gone).congr rfl rfl⟩
  | retest stands =>
    rename_i t id inWait next
    have here := kept.fits t
    rw [stands] at here
    cases id with
    | plain s => exact s.elim
    | ofLock l =>
      cases inWait with
      | none =>
        obtain ⟨rfl, away⟩ := here
        exact ⟨opened, kept.P ⟨rfl, away⟩ away⟩
      | some c =>
        obtain ⟨rfl, inside⟩ := here
        exact ⟨opened, kept.P ⟨rfl, inside⟩ inside⟩
  | reacquire stands =>
    rename_i t c l next
    have here := kept.fits t
    rw [stands] at here
    obtain ⟨rfl, inside⟩ := here
    exact ⟨opened, kept.P ⟨rfl, inside⟩ inside⟩
  | interrupt fires => exact fires.elim

end Kept

/-- A new barrier, with every thread outside. -/
structure Begins (k : State T) : Prop extends Starts k where
  outside (t : T) : k.phase t = .fresh .outside ∨ k.phase t = .running .outside
  new : k.memory = { barrierCnt := 0, calls := fun _ => 0, returns := fun _ => 0 }

omit [DecidableEq T] in
theorem Begins.kept {k : State T} (begins : Begins k) (some_thread : 0 < Fintype.card T) :
    Kept false k := by
  refine ⟨fun t => ?_, ?_, fun _ => ?_⟩
  · rw [begins.new]
    obtain fresh | running := begins.outside t
    · rw [fresh]
      exact ⟨rfl, rfl, rfl⟩
    · rw [running]
      exact ⟨rfl, rfl⟩
  · rw [begins.new, Finset.sum_const_zero]
    rfl
  · rw [begins.new, Finset.sum_const_zero]
    exact some_thread

variable {max_num : BitVec 32} {start k : State T} {trace : List (Event T Empty Unit Unit)}

theorem Begins.kept_run (begins : Begins start) (all : Fintype.card T = max_num.toNat)
    (positive : 0 < max_num.toInt) (run : Runs (Threads.Step (code T max_num)) start trace k) :
    k.Queued ∧ ∃ opened, Kept opened k := by
  have some_thread : 0 < Fintype.card T := by
    have := BitVec.toInt_eq_toNat_cond max_num
    split at this <;> omega
  refine run.invariant_state (P := fun k => k.Queued ∧ ∃ opened, Kept opened k)
    ⟨begins.toStarts.queued, false, begins.kept some_thread⟩ ?_
  rintro k events k' ⟨valid, opened, kept⟩ step
  exact ⟨step.moves.invariant_state valid fun valid move => valid.move move,
    kept.step all positive valid step⟩

/-- No thread returns from a round before all threads have come to it. A round that is
complete has no thread in the queue until the second one is. -/
theorem barrier_holds_for_one_round (begins : Begins start) (all : Fintype.card T = max_num.toNat)
    (positive : 0 < max_num.toInt) (run : Runs (Threads.Step (code T max_num)) start trace k) :
    (∀ round t, round ≤ k.memory.returns t → ∀ t', round ≤ k.memory.calls t') ∧
    ((∀ round, 1 ≤ round → (∀ t, round ≤ k.memory.calls t) →
        ∀ t ∈ k.queue (), k.memory.calls t ≠ round) ↔
      ¬ ∀ t, 2 ≤ k.memory.calls t) := by
  obtain ⟨valid, opened, kept⟩ := begins.kept_run all positive run
  have asleep : ∀ t, t ∈ k.queue () ↔ (k.phase t).place = some (.cond ()) := valid.member (.cond ())
  -- A thread in the queue has come once more than it left.
  have queued : ∀ t, t ∈ k.queue () → k.memory.calls t = opened.toNat + 1 := by
    intro t inside
    have place := (asleep t).mp inside
    have fits := kept.fits t
    cases at_t : k.phase t <;> simp [at_t, Phase.place] at place
    rw [at_t] at fits
    rw [fits.2.1, fits.2.2]
  cases opened with
  | false =>
    have few := kept.early rfl
    have missing : ¬ ∀ t, 1 ≤ k.memory.calls t := by
      intro came
      have most : ∑ _ : T, 1 ≤ ∑ t, k.memory.calls t := Finset.sum_le_sum fun t _ => came t
      simp only [Finset.sum_const, Finset.card_univ, smul_eq_mul, Nat.mul_one] at most
      omega
    refine ⟨fun round t left t' => ?_, iff_of_true (fun round first came => ?_) fun twice => ?_⟩
    · have bound : k.memory.returns t ≤ 0 := (kept.fits t).returns_le
      omega
    · exact absurd (fun t => first.trans (came t)) missing
    · exact missing fun t => (Nat.le_succ 1).trans (twice t)
  | true =>
    obtain ⟨someone⟩ : Nonempty T := by
      have some_thread : 0 < Fintype.card T := by
        have := BitVec.toInt_eq_toNat_cond max_num
        split at this <;> omega
      exact Fintype.card_pos_iff.mp some_thread
    refine ⟨fun round t left t' => ?_, fun fine twice => ?_, fun pending round _ came t inside => ?_⟩
    · have bound : k.memory.returns t ≤ 1 := (kept.fits t).returns_le
      have once := (kept.fits t').le_calls
      omega
    · have calls : k.memory.calls someone = 2 := by
        have bound : k.memory.calls someone ≤ 2 := (kept.fits someone).calls_le
        have least := twice someone
        omega
      have fits := kept.fits someone
      rw [calls] at fits
      exact fine 2 (by decide) twice someone ((asleep someone).mpr fits.waits_again) calls
    · have calls : k.memory.calls t = 2 := queued t inside
      rintro rfl
      rw [calls] at came
      exact pending came

end

/-! ## One round and two -/

/-- Two threads outside. -/
def pair : State Bool where
  sem _ := { value := 1, queue := [] }
  owner _ := none
  queue _ := []
  phase _ := .running .outside
  memory := { barrierCnt := 0, calls := fun _ => 0, returns := fun _ => 0 }

theorem pair_begins : Begins pair where
  value _ := Int.one_nonneg
  asleep _ := rfl
  free _ := ⟨rfl, rfl⟩
  conditions _ := rfl
  phase _ := ⟨.outside, .inr rfl⟩
  outside _ := .inr rfl
  new := rfl

theorem barrier_holds_for_one_round_pair :
    ∃ trace k, Runs (Threads.Step (code Bool 2)) pair trace k ∧ (∀ t, 1 ≤ k.memory.calls t) ∧
      ∀ t ∈ k.queue (), k.memory.calls t ≠ 1 := by
  have asks : Runs (Threads.Step (code Bool 2)) pair _ _ :=
    .next .start (.segment (t := false) rfl .enters (by simp))
  have sleeps := asks.next (.segment (t := false) rfl (.waits (by decide)) (by simp))
  have enters := sleeps.next (.segment (t := true) rfl .enters (by simp))
  have wakes := enters.next (.segment (t := true) rfl (.broadcasts rfl) (by simp))
  have holds := (barrier_holds_for_one_round pair_begins rfl (by decide) wakes).2.mpr
  refine ⟨_, _, wakes, fun t => ?_, holds (fun twice => ?_) 1 le_rfl fun t => ?_⟩
  · rw [broadcast_memory]
    cases t <;> decide
  · have never := twice true
    rw [broadcast_memory] at never
    exact absurd never (by decide)
  · rw [broadcast_memory]
    cases t <;> decide

/-- One thread that meets itself. -/
def alone : State Unit where
  sem _ := { value := 1, queue := [] }
  owner _ := none
  queue _ := []
  phase _ := .running .outside
  memory := { barrierCnt := 0, calls := fun _ => 0, returns := fun _ => 0 }

theorem broadcast_alone {k : State Unit} (empty : k.queue () = []) :
    k.perform () (.broadcast () ()) .leaving = (k.setPhase () (.running .leaving), []) :=
  State.Broadcast_none empty

/-- All threads have come a second time, and they wait. -/
theorem second_round_waits :
    ∃ trace k, Runs (Threads.Step (code Unit 1)) alone trace k ∧ (∀ t, 2 ≤ k.memory.calls t) ∧
      ∃ t ∈ k.queue (), k.memory.calls t = 2 := by
  have asks : Runs (Threads.Step (code Unit 1)) alone _ _ :=
    .next .start (.segment (t := ()) rfl .enters (by simp))
  have opens := asks.next (.segment (t := ()) rfl (.broadcasts rfl) (by simp))
  rw [broadcast_alone rfl] at opens
  have leaves := opens.next (.segment (t := ()) rfl .leaves (by simp))
  have again := leaves.next (.segment (t := ()) rfl .enters (by simp))
  have sleeps := again.next (.segment (t := ()) rfl (.waits (by decide)) (by simp))
  exact ⟨_, _, sleeps, by decide, (), by decide, rfl⟩

end Nachos.Barrier
