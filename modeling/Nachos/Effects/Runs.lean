import Mathlib.Data.List.Basic
import Mathlib.Data.Fintype.Card

/-! Runs of a system that moves from state to state and reports events as it
goes, the rule that carries an invariant through a run, and counting the
members of a finite population that satisfy a predicate. -/
namespace Effects

variable {σ ε : Type}

/-- `step` leads from `start` to a state, reporting the events of the trace in
order. -/
inductive Runs (step : σ → List ε → σ → Prop) (start : σ) : List ε → σ → Prop where
  | start : Runs step start [] start
  | next {trace events : List ε} {s s' : σ} (before : Runs step start trace s)
      (taken : step s events s') : Runs step start (trace ++ events) s'

namespace Runs

variable {step : σ → List ε → σ → Prop} {start : σ}

/-- What holds at the start and is kept by every step of a run holds throughout. -/
theorem invariant {P : List ε → σ → Prop} (initial : P [] start)
    (kept : ∀ {trace s events s'}, Runs step start trace s → P trace s → step s events s' →
      P (trace ++ events) s')
    {trace : List ε} {s : σ} (run : Runs step start trace s) : P trace s := by
  induction run with
  | start => exact initial
  | next before taken ih => exact kept before ih taken

/-- An invariant of the states alone. -/
theorem invariant_state {P : σ → Prop} (initial : P start)
    (kept : ∀ {s events s'}, P s → step s events s' → P s')
    {trace : List ε} {s : σ} (run : Runs step start trace s) : P s :=
  invariant (P := fun _ => P) initial (fun _ holds taken => kept holds taken) run

theorem single {events : List ε} {s' : σ} (taken : step start events s') :
    Runs step start events s' := by
  simpa using Runs.next (.start) taken

theorem append {first second : List ε} {s s' : σ} (before : Runs step start first s)
    (after : Runs step s second s') : Runs step start (first ++ second) s' := by
  induction after with
  | start => simpa using before
  | next _ taken ih =>
    rw [← List.append_assoc]
    exact .next ih taken

/-- If every step is itself a run of a finer system, so is every run. -/
theorem expand {finer : σ → List ε → σ → Prop}
    (finely : ∀ {s events s'}, step s events s' → Runs finer s events s')
    {trace : List ε} {s : σ} (run : Runs step start trace s) : Runs finer start trace s := by
  induction run with
  | start => exact .start
  | next before taken ih => exact ih.append (finely taken)

end Runs

/-- Where the last event of a trace stands in a splitting of it. -/
theorem snoc_split {trace before rest : List ε} {event middle : ε}
    (same : trace ++ [event] = before ++ middle :: rest) :
    (rest = [] ∧ trace = before ∧ event = middle) ∨
      ∃ shorter, rest = shorter ++ [event] ∧ trace = before ++ middle :: shorter := by
  obtain rfl | ⟨shorter, final, rfl⟩ := List.eq_nil_or_concat rest
  · obtain ⟨equal, single⟩ := List.append_inj' same rfl
    exact .inl ⟨rfl, equal, List.singleton_inj.mp single⟩
  · have moved : trace ++ [event] = (before ++ middle :: shorter) ++ [final] := by
      simpa using same
    obtain ⟨equal, single⟩ := List.append_inj' moved rfl
    rw [List.singleton_inj.mp single]
    exact .inr ⟨shorter, by simp, equal⟩

/-! ## Counting -/

section
variable {T : Type} [Fintype T]

/-- How many members satisfy `p`. -/
def population (p : T → Bool) : Nat := (Finset.univ.filter fun t => p t).card

theorem population_congr {p q : T → Bool} (same : ∀ t, p t = q t) :
    population p = population q := by
  unfold population
  congr 1
  ext t
  simp [same]

theorem population_zero {p : T → Bool} (none : ∀ t, p t = false) : population p = 0 := by
  simp [population, none]

theorem population_mono {p q : T → Bool} (within : ∀ t, p t = true → q t = true) :
    population p ≤ population q := by
  apply Finset.card_le_card
  intro t
  simpa using within t

theorem population_le_one {p : T → Bool} (unique : ∀ t t', p t = true → p t' = true → t = t') :
    population p ≤ 1 := by
  apply Finset.card_le_one.mpr
  intro t inside t' inside'
  simp only [Finset.mem_filter, Finset.mem_univ, true_and] at inside inside'
  exact unique t t' inside inside'

theorem population_pos {p : T → Bool} : 0 < population p ↔ ∃ t, p t = true := by
  simp [population, Finset.card_pos, Finset.filter_nonempty_iff]

variable [DecidableEq T]

/-- One member joins. -/
theorem population_joins {p q : T → Bool} (t : T) (out : p t = false) (joined : q t = true)
    (others : ∀ t', t' ≠ t → q t' = p t') : population q = population p + 1 := by
  have grown : (Finset.univ.filter fun t' => q t') =
      insert t (Finset.univ.filter fun t' => p t') := by
    ext t'
    by_cases same : t' = t
    · simp [same, joined]
    · simp [same, others t' same]
  unfold population
  rw [grown, Finset.card_insert_of_notMem (by simp [out])]

/-- One member leaves. -/
theorem population_leaves {p q : T → Bool} (t : T) (inside : p t = true) (left : q t = false)
    (others : ∀ t', t' ≠ t → q t' = p t') : population q + 1 = population p :=
  (population_joins t left inside fun t' other => (others t' other).symm).symm

/-- What changing one member's value does to a count. -/
theorem population_update {β : Type} (p : β → Bool) (f : T → β) (t : T) (b : β) :
    population (fun t' => p (Function.update f t b t')) + (if p (f t) then 1 else 0) =
      population (fun t' => p (f t')) + (if p b then 1 else 0) := by
  have others : ∀ t', t' ≠ t → p (Function.update f t b t') = p (f t') := by
    intro t' other
    rw [Function.update_of_ne other]
  cases before : p (f t) <;> cases after : p b
  · have same := population_congr (p := fun t' => p (Function.update f t b t'))
      (q := fun t' => p (f t')) fun t' => by
        by_cases at_t : t' = t
        · simp [at_t, before, after]
        · exact others t' at_t
    simp [same]
  · have joined := population_joins (p := fun t' => p (f t'))
      (q := fun t' => p (Function.update f t b t')) t before (by simpa using after) others
    simp [joined]
  · have left := population_leaves (p := fun t' => p (f t'))
      (q := fun t' => p (Function.update f t b t')) t before (by simpa using after) others
    simp [left]
  · have same := population_congr (p := fun t' => p (Function.update f t b t'))
      (q := fun t' => p (f t')) fun t' => by
        by_cases at_t : t' = t
        · simp [at_t, before, after]
        · exact others t' at_t
    simp [same]

end

end Effects
