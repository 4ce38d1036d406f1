import Mathlib.Data.Finmap
import Mathlib.Data.Finset.Card
import Mathlib.Logic.Function.Basic

/-! Finite maps kept in a table of slots. A slot is empty or holds a key with
its value, and no key is held twice. Which slot holds it does not matter. -/
namespace Effects

variable {K V : Type} [DecidableEq K]

/-- The first `size` slots hold just the map. -/
structure Tabulates (size : Nat) (slots : Nat → Option (K × V)) (m : Finmap fun _ : K => V) : Prop where
  distinct : ∀ {i j key v v'}, i < size → j < size → slots i = some (key, v) →
    slots j = some (key, v') → i = j
  lookup : ∀ {key v}, m.lookup key = some v ↔ ∃ i, i < size ∧ slots i = some (key, v)

namespace Tabulates

variable {size : Nat} {slots slots' : Nat → Option (K × V)} {m : Finmap fun _ : K => V}
variable {i : Nat} {key : K} {v : V}

theorem empty : Tabulates size (fun _ => none) (∅ : Finmap fun _ : K => V) where
  distinct := by simp
  lookup := by simp

theorem congr (tabulates : Tabulates size slots m) (same : ∀ i, i < size → slots' i = slots i) :
    Tabulates size slots' m where
  distinct boundI boundJ first second := by
    rw [same _ boundI] at first
    rw [same _ boundJ] at second
    exact tabulates.distinct boundI boundJ first second
  lookup := by
    intro key v
    rw [tabulates.lookup]
    constructor
    · rintro ⟨i, bound, here⟩
      exact ⟨i, bound, (same i bound).trans here⟩
    · rintro ⟨i, bound, here⟩
      exact ⟨i, bound, (same i bound).symm.trans here⟩

theorem mem_iff (tabulates : Tabulates size slots m) :
    key ∈ m ↔ ∃ i v, i < size ∧ slots i = some (key, v) := by
  rw [Finmap.mem_iff]
  constructor
  · rintro ⟨v, found⟩
    obtain ⟨i, bound, here⟩ := tabulates.lookup.mp found
    exact ⟨i, v, bound, here⟩
  · rintro ⟨i, v, bound, here⟩
    exact ⟨v, tabulates.lookup.mpr ⟨i, bound, here⟩⟩

/-- A new key in an empty slot. -/
theorem insert (tabulates : Tabulates size slots m) (bound : i < size) (empty : slots i = none)
    (absent : key ∉ m) (v : V) :
    Tabulates size (Function.update slots i (some (key, v))) (m.insert key v) where
  distinct {j k other w w'} boundJ boundK first second := by
    have only : ∀ {k w}, k < size → Function.update slots i (some (key, v)) k = some (key, w) → k = i := by
      intro k w boundK here
      by_contra apart
      rw [Function.update_of_ne apart] at here
      exact absent (tabulates.mem_iff.mpr ⟨k, w, boundK, here⟩)
    by_cases same : other = key
    · subst same
      rw [only boundJ first, only boundK second]
    · have apart : ∀ {k w}, Function.update slots i (some (key, v)) k = some (other, w) → k ≠ i := by
        rintro k w here rfl
        rw [Function.update_self] at here
        exact same (Prod.mk.inj (Option.some.inj here)).1.symm
      have apartJ := apart first
      have apartK := apart second
      rw [Function.update_of_ne apartJ] at first
      rw [Function.update_of_ne apartK] at second
      exact tabulates.distinct boundJ boundK first second
  lookup := by
    intro other w
    by_cases same : other = key
    · subst same
      rw [Finmap.lookup_insert]
      constructor
      · intro now
        exact ⟨i, bound, by rw [Function.update_self, Option.some.inj now]⟩
      · rintro ⟨j, boundJ, here⟩
        by_cases slot : j = i
        · rw [slot, Function.update_self] at here
          exact congrArg some (Prod.mk.inj (Option.some.inj here)).2
        · rw [Function.update_of_ne slot] at here
          exact absurd (tabulates.mem_iff.mpr ⟨j, w, boundJ, here⟩) absent
    · rw [Finmap.lookup_insert_of_ne _ same, tabulates.lookup]
      refine exists_congr fun j => and_congr_right fun _ => ?_
      by_cases slot : j = i
      · rw [slot, Function.update_self, empty]
        refine iff_of_false (by simp) fun here => ?_
        exact same (Prod.mk.inj (Option.some.inj here)).1.symm
      · rw [Function.update_of_ne slot]

/-- The slot of a key is emptied. -/
theorem erase (tabulates : Tabulates size slots m) (bound : i < size) (here : slots i = some (key, v)) :
    Tabulates size (Function.update slots i none) (m.erase key) where
  distinct {j k other w w'} boundJ boundK first second := by
    have apart : ∀ {k w}, Function.update slots i none k = some (other, w) → k ≠ i := by
      rintro k w there rfl
      rw [Function.update_self] at there
      cases there
    have apartJ := apart first
    have apartK := apart second
    rw [Function.update_of_ne apartJ] at first
    rw [Function.update_of_ne apartK] at second
    exact tabulates.distinct boundJ boundK first second
  lookup := by
    intro other w
    by_cases same : other = key
    · subst same
      rw [Finmap.lookup_erase]
      refine iff_of_false (by simp) ?_
      rintro ⟨j, boundJ, there⟩
      by_cases slot : j = i
      · rw [slot, Function.update_self] at there
        cases there
      · rw [Function.update_of_ne slot] at there
        exact slot (tabulates.distinct boundJ bound there here)
    · rw [Finmap.lookup_erase_ne same, tabulates.lookup]
      refine exists_congr fun j => and_congr_right fun _ => ?_
      by_cases slot : j = i
      · rw [slot, Function.update_self, here]
        refine iff_of_false (fun there => ?_) (by simp)
        exact same (Prod.mk.inj (Option.some.inj there)).1.symm
      · rw [Function.update_of_ne slot]

/-- As many slots are taken as there are keys. -/
theorem card_keys (tabulates : Tabulates size slots m) :
    m.keys.card = ((Finset.range size).filter fun i => (slots i).isSome).card := by
  symm
  refine Finset.card_bij (fun i inside => ((slots i).get (Finset.mem_filter.mp inside).2).1) ?_ ?_ ?_
  · intro i inside
    obtain ⟨low, taken⟩ := Finset.mem_filter.mp inside
    obtain ⟨⟨key, v⟩, here⟩ := Option.isSome_iff_exists.mp taken
    refine Finmap.mem_keys.mpr (tabulates.mem_iff.mpr ⟨i, v, Finset.mem_range.mp low, ?_⟩)
    simp [here]
  · intro i insideI j insideJ same
    obtain ⟨lowI, takenI⟩ := Finset.mem_filter.mp insideI
    obtain ⟨lowJ, takenJ⟩ := Finset.mem_filter.mp insideJ
    obtain ⟨⟨key, v⟩, here⟩ := Option.isSome_iff_exists.mp takenI
    obtain ⟨⟨key', v'⟩, there⟩ := Option.isSome_iff_exists.mp takenJ
    simp only [here, there, Option.get_some] at same
    subst same
    exact tabulates.distinct (Finset.mem_range.mp lowI) (Finset.mem_range.mp lowJ) here there
  · intro key inside
    obtain ⟨i, v, bound, here⟩ := tabulates.mem_iff.mp (Finmap.mem_keys.mp inside)
    refine ⟨i, Finset.mem_filter.mpr ⟨Finset.mem_range.mpr bound, by rw [here]; rfl⟩, ?_⟩
    simp [here]

theorem card_le (tabulates : Tabulates size slots m) : m.keys.card ≤ size := by
  rw [tabulates.card_keys]
  exact (Finset.card_filter_le _ _).trans_eq (Finset.card_range size)

/-- A slot is empty as long as there are fewer keys than slots. -/
theorem exists_empty_iff (tabulates : Tabulates size slots m) :
    (∃ i, i < size ∧ slots i = none) ↔ m.keys.card < size := by
  rw [tabulates.card_keys]
  constructor
  · rintro ⟨i, bound, empty⟩
    refine (Finset.card_lt_card ?_).trans_eq (Finset.card_range size)
    refine Finset.filter_ssubset.mpr ⟨i, Finset.mem_range.mpr bound, by simp [empty]⟩
  · intro fewer
    by_contra full
    push Not at full
    refine fewer.ne ?_
    rw [Finset.filter_true_of_mem, Finset.card_range]
    intro i inside
    exact Option.isSome_iff_ne_none.mpr (full i (Finset.mem_range.mp inside))

end Tabulates

end Effects
