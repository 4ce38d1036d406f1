import Mathlib.Data.List.Nodup
import Mathlib.Logic.Function.Basic

/-! Chains of cells in a heap. A cell names the cell behind it, and a chain is
what is met by following these names from one pointer to another. -/
namespace Effects

variable {Ref Cell : Type}

/-- Following `next` from a pointer meets just these cells, in this order, on
the way to `stop`. -/
def Chain (next : Cell → Option Ref) (heap : Ref → Option Cell) :
    Option Ref → List (Ref × Cell) → Option Ref → Prop
  | pointer, [], stop => pointer = stop
  | pointer, (ref, cell) :: rest, stop =>
    pointer = some ref ∧ heap ref = some cell ∧ Chain next heap (next cell) rest stop

namespace Chain

variable {next : Cell → Option Ref} {heap heap' : Ref → Option Cell}
variable {pointer stop : Option Ref} {cells rest : List (Ref × Cell)}

@[simp] theorem nil_iff : Chain next heap pointer [] stop ↔ pointer = stop := Iff.rfl

@[simp] theorem cons_iff {ref : Ref} {cell : Cell} : Chain next heap pointer ((ref, cell) :: rest) stop ↔
    pointer = some ref ∧ heap ref = some cell ∧ Chain next heap (next cell) rest stop := Iff.rfl

theorem append_iff : Chain next heap pointer (cells ++ rest) stop ↔
    ∃ middle, Chain next heap pointer cells middle ∧ Chain next heap middle rest stop := by
  induction cells generalizing pointer with
  | nil => simp
  | cons entry cells ih =>
    obtain ⟨ref, cell⟩ := entry
    rw [List.cons_append, cons_iff, ih]
    constructor
    · rintro ⟨points, stored, middle, before, after⟩
      exact ⟨middle, ⟨points, stored, before⟩, after⟩
    · rintro ⟨middle, ⟨points, stored, before⟩, after⟩
      exact ⟨points, stored, middle, before, after⟩

theorem stored (chain : Chain next heap pointer cells stop) {entry : Ref × Cell}
    (inside : entry ∈ cells) : heap entry.1 = some entry.2 := by
  induction cells generalizing pointer with
  | nil => cases inside
  | cons first rest ih =>
    obtain ⟨-, here, after⟩ := chain
    obtain rfl | inside := List.mem_cons.mp inside
    · exact here
    · exact ih after inside

/-- A chain depends on the cells it meets only. -/
theorem frame (chain : Chain next heap pointer cells stop)
    (same : ∀ ref ∈ cells.map Prod.fst, heap' ref = heap ref) :
    Chain next heap' pointer cells stop := by
  induction cells generalizing pointer with
  | nil => exact chain
  | cons first rest ih =>
    obtain ⟨points, here, after⟩ := chain
    refine ⟨points, ?_, ih after fun ref inside => same ref (List.mem_cons_of_mem _ inside)⟩
    rw [same _ List.mem_cons_self, here]

/-- The heap and the pointer decide what is met on the way to the end. -/
theorem unique {cells' : List (Ref × Cell)} (chain : Chain next heap pointer cells none)
    (chain' : Chain next heap pointer cells' none) : cells = cells' := by
  induction cells generalizing pointer cells' with
  | nil =>
    cases cells' with
    | nil => rfl
    | cons first rest => cases chain.symm.trans chain'.1
  | cons first rest ih =>
    obtain ⟨points, here, after⟩ := chain
    cases cells' with
    | nil => cases points.symm.trans chain'
    | cons first' rest' =>
      obtain ⟨points', here', after'⟩ := chain'
      obtain ⟨ref, cell⟩ := first
      obtain ⟨ref', cell'⟩ := first'
      cases points.symm.trans points'
      cases here.symm.trans here'
      rw [ih after after']

/-- A chain that comes to an end meets no cell twice. -/
theorem nodup (chain : Chain next heap pointer cells none) : (cells.map Prod.fst).Nodup := by
  induction cells generalizing pointer with
  | nil => exact List.nodup_nil
  | cons first rest ih =>
    obtain ⟨points, here, after⟩ := chain
    refine List.nodup_cons.mpr ⟨fun again => ?_, ih after⟩
    -- the chain behind the second meeting would be the chain behind the first
    obtain ⟨entry, inside, same⟩ := List.mem_map.mp again
    obtain ⟨before, behind, shape⟩ := List.append_of_mem inside
    rw [shape] at after
    obtain ⟨middle, -, met⟩ := append_iff.mp after
    have whole : Chain next heap (some first.1) (first :: rest) none :=
      ⟨rfl, here, shape ▸ after⟩
    have part : Chain next heap (some first.1) (entry :: behind) none :=
      ⟨same ▸ rfl, met.2⟩
    have lengths := congrArg List.length (whole.unique part)
    rw [shape] at lengths
    simp only [List.length_cons, List.length_append] at lengths
    omega

theorem not_mem (chain : Chain next heap pointer cells stop) {ref : Ref} (free : heap ref = none) :
    ref ∉ cells.map Prod.fst := by
  intro inside
  obtain ⟨entry, met, rfl⟩ := List.mem_map.mp inside
  cases (chain.stored met).symm.trans free

theorem getLast (chain : Chain next heap pointer cells stop) {entry : Ref × Cell}
    (last : cells.getLast? = some entry) : next entry.2 = stop := by
  obtain ⟨before, rfl⟩ := List.getLast?_eq_some_iff.mp last
  obtain ⟨-, -, -, -, ends⟩ := append_iff.mp chain
  exact ends

section
variable [DecidableEq Ref]

/-- A new cell in front. -/
theorem push (chain : Chain next heap pointer cells stop) {ref : Ref} {cell : Cell}
    (free : heap ref = none) (leads : next cell = pointer) :
    Chain next (Function.update heap ref (some cell)) (some ref) ((ref, cell) :: cells) stop := by
  refine ⟨rfl, Function.update_self .., ?_⟩
  rw [leads]
  exact chain.frame fun other inside =>
    Function.update_of_ne (ne_of_mem_of_not_mem inside (chain.not_mem free)) ..

/-- The chain behind its first cell does not need that cell. -/
theorem pop {ref : Ref} {cell : Cell} (chain : Chain next heap pointer ((ref, cell) :: rest) none) :
    Chain next (Function.update heap ref none) (next cell) rest none := by
  have apart := (List.nodup_cons.mp chain.nodup).1
  exact chain.2.2.frame fun other inside =>
    Function.update_of_ne (ne_of_mem_of_not_mem inside apart) ..

/-- A new cell behind one of the chain, which is made to lead to it. -/
theorem splice {before after : List (Ref × Cell)} {ref new : Ref} {cell linked inserted : Cell}
    (chain : Chain next heap pointer (before ++ (ref, cell) :: after) none)
    (free : heap new = none) (leads : next linked = some new) (goes_on : next inserted = next cell) :
    Chain next (Function.update (Function.update heap new (some inserted)) ref (some linked)) pointer
      (before ++ (ref, linked) :: (new, inserted) :: after) none := by
  have fresh := chain.not_mem free
  have apart := chain.nodup
  simp only [List.map_append, List.map_cons, List.mem_append, List.mem_cons, not_or] at fresh
  rw [List.map_append, List.map_cons, List.nodup_middle, List.nodup_cons] at apart
  have kept : ∀ other ∈ before.map Prod.fst ++ after.map Prod.fst,
      Function.update (Function.update heap new (some inserted)) ref (some linked) other =
        heap other := by
    intro other inside
    have known := List.mem_append.mp inside
    rw [Function.update_of_ne (ne_of_mem_of_not_mem inside apart.1), Function.update_of_ne]
    rintro rfl
    exact known.elim fresh.1 fresh.2.2
  obtain ⟨middle, ahead, points, -, behind⟩ := append_iff.mp chain
  refine append_iff.mpr ⟨middle, ahead.frame fun other inside => kept other ?_, points,
    Function.update_self .., leads, ?_, ?_⟩
  · exact List.mem_append_left _ inside
  · rw [Function.update_of_ne fresh.2.1, Function.update_self]
  · rw [goes_on]
    exact behind.frame fun other inside => kept other (List.mem_append_right _ inside)

end

end Chain

end Effects
