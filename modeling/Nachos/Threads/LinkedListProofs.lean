import Mathlib.Data.List.TakeWhile
import Nachos.Threads.LinkedList

/-! Every run of list operations keeps the list it accounts for: the elements
are chained from `first` to `last`, and no call follows a dangling pointer or
goes around forever. -/
namespace Nachos.LinkedList
open Effects

variable {Ref Place Object : Type} [DecidableEq Ref]
variable {m : Memory Ref Place Object} {others : Ref → Option (ListElement Ref Object)}
variable {a : Account Place Object} {cells before after : List (Ref × ListElement Ref Object)}
variable {item : Option Object} {sortKey : Int} {element : Ref}

/-- What an account tells about an element. -/
abbrev ListElement.told (cell : Ref × ListElement Ref Object) : Int × Option Object :=
  (cell.2.key, cell.2.item)

/-! ## The loop of a sorted insertion -/

/-- With enough fuel the outcome is this one, and with too little there is none. -/
structure Returns {α : Type} (computed : Nat → Option α) (outcome : α) : Prop where
  enough : ∃ bound, ∀ fuel, bound < fuel → computed fuel = some outcome
  only : ∀ fuel other, computed fuel = some other → other = outcome

theorem Returns.of_eq {α : Type} {computed : Nat → Option α} {outcome : α}
    (same : ∀ fuel, computed fuel = some outcome) : Returns computed outcome where
  enough := ⟨0, fun fuel _ => same fuel⟩
  only fuel other done := by
    rw [same] at done
    exact (Option.some.inj done).symm

theorem Returns.succ {α : Type} {computed : Nat → Option α} {outcome : α}
    (empty : computed 0 = none) (returns : Returns (fun fuel => computed (fuel + 1)) outcome) :
    Returns computed outcome where
  enough := by
    obtain ⟨bound, enough⟩ := returns.enough
    refine ⟨bound + 1, fun fuel more => ?_⟩
    obtain ⟨fuel, rfl⟩ := Nat.exists_eq_add_of_lt more
    exact enough (bound + 1 + fuel) (by omega)
  only fuel other done := by
    cases fuel with
    | zero => cases empty.symm.trans done
    | succ fuel => exact returns.only fuel other done

theorem Returns.map {α β : Type} {computed : Nat → Option α} {outcome : α}
    (returns : Returns computed outcome) (f : α → β) :
    Returns (fun fuel => (computed fuel).map f) (f outcome) where
  enough := by
    obtain ⟨bound, enough⟩ := returns.enough
    refine ⟨bound, fun fuel more => ?_⟩
    rw [enough fuel more, Option.map_some]
  only fuel other done := by
    obtain ⟨result, computed_, rfl⟩ := Option.map_eq_some_iff.mp done
    rw [returns.only fuel result computed_]

namespace Memory

/-- The new element behind one of the list's. -/
def link (m : Memory Ref Place Object) (element : Ref) (item : Option Object) (sortKey : Int)
    (cell : Ref × ListElement Ref Object) (after : List (Ref × ListElement Ref Object)) :
    Memory Ref Place Object :=
  { m with
    element := Function.update
      (Function.update m.element element (some ⟨cell.2.next, sortKey, item⟩))
      cell.1 (some { cell.2 with next := some element })
    last := if after = [] then some element else m.last }

/-- Behind its last element the list goes on with the new one. -/
theorem link_end {cell : Ref × ListElement Ref Object} (free : m.element element = none)
    (chain : Chain ListElement.next m.element m.first (before ++ [cell]) none) :
    (do let m ← (m.create element item sortKey).setNext (some cell.1) (some element)
        return { m with last := some element }) = some (m.link element item sortKey cell []) := by
  have stored := chain.stored (List.mem_append_right _ (List.mem_singleton_self cell))
  have apart : cell.1 ≠ element := by
    rintro rfl
    cases stored.symm.trans free
  have ends : cell.2.next = none := chain.getLast (by rw [List.getLast?_concat])
  simp [setNext, create, link, apart, stored, ends, ListElement.make]

/-- Before its last element the new one is put between two others. -/
theorem link_between {cell behind : Ref × ListElement Ref Object} (free : m.element element = none)
    (chain : Chain ListElement.next m.element m.first (before ++ cell :: behind :: after) none) :
    (do let m ← (m.create element item sortKey).setNext (some element) (some behind.1)
        m.setNext (some cell.1) (some element)) =
      some (m.link element item sortKey cell (behind :: after)) := by
  have stored := chain.stored (List.mem_append_right _ (List.mem_cons_self (a := cell)))
  have apart : cell.1 ≠ element := by
    rintro rfl
    cases stored.symm.trans free
  obtain ⟨-, -, -, -, leads, -⟩ := Chain.append_iff.mp chain
  simp [setNext, create, link, apart, stored, leads, ListElement.make]

/-- The loop puts the new element behind one whose key is not greater and
before one whose key is. -/
theorem insertBehind_returns (before : List (Ref × ListElement Ref Object)) (item : Option Object)
    {cell : Ref × ListElement Ref Object} (free : m.element element = none)
    (chain : Chain ListElement.next m.element m.first (before ++ cell :: after) none)
    (last : m.last = (before ++ cell :: after).getLast?.map Prod.fst)
    (passed : ∀ other ∈ before ++ [cell], other.2.key ≤ sortKey) :
    ∃ before' cell' after', before ++ cell :: after = before' ++ cell' :: after' ∧
      (∀ other ∈ before' ++ [cell'], other.2.key ≤ sortKey) ∧
      (∀ other ∈ after'.head?, sortKey < other.2.key) ∧
      Returns (fun fuel => (m.create element item sortKey).insertBehind element sortKey fuel
        (some cell.1)) (m.link element item sortKey cell' after') := by
  have kept : ∀ other, other ≠ element →
      (m.create element item sortKey).element other = m.element other :=
    fun other apart => Function.update_of_ne apart ..
  have known : ∀ other ∈ before ++ cell :: after,
      (m.create element item sortKey).deref (some other.1) = some other.2 := by
    intro other inside
    have stored := chain.stored inside
    refine (kept _ ?_).trans stored
    rintro rfl
    cases stored.symm.trans free
  have here := known cell (List.mem_append_right _ List.mem_cons_self)
  induction after generalizing before cell with
  | nil =>
    have ends : cell.2.next = none := chain.getLast (by rw [List.getLast?_concat])
    rw [List.getLast?_concat] at last
    refine ⟨before, cell, [], rfl, passed, by simp, .succ rfl (.of_eq fun fuel => ?_)⟩
    simp only [insertBehind, here, ends, Option.bind_eq_bind, Option.bind_some, if_true]
    rw [show (m.create element item sortKey).last = some cell.1 from last]
    exact link_end free chain
  | cons behind after ih =>
    have there := known behind (by simp)
    obtain ⟨-, -, -, -, leads, -⟩ := Chain.append_iff.mp chain
    by_cases less : sortKey < behind.2.key
    · refine ⟨before, cell, behind :: after, rfl, passed, by simpa using less,
        .succ rfl (.of_eq fun fuel => ?_)⟩
      simp only [insertBehind, here, leads, there, Option.bind_eq_bind, Option.bind_some,
        reduceCtorEq, if_false, if_pos less]
      exact link_between free chain
    · obtain ⟨before', cell', after', shape, small, great, returns⟩ :=
        ih (before ++ [cell]) (by simpa using chain) (by simpa using last)
          (by
            intro other inside
            obtain inside | same := List.mem_append.mp inside
            · exact passed other inside
            · rw [List.mem_singleton.mp same]
              exact not_lt.mp less)
          (by simpa using known) there
      refine ⟨before', cell', after', by simpa using shape, small, great, .succ rfl ?_⟩
      simp only [insertBehind, here, leads, there, Option.bind_eq_bind, Option.bind_some,
        reduceCtorEq, if_false, if_neg less]
      exact returns

end Memory

/-! ## What the operations make of the list -/

omit [DecidableEq Ref] in
theorem Represents.new (first : m.first = none) (last : m.last = none) :
    Represents m.element (.new m.ints) [] m where
  chain := first
  last := last
  contents := rfl
  elsewhere _ _ := rfl
  own := by simp
  ints := rfl

namespace Represents

omit [DecidableEq Ref] in
theorem isEmpty (rep : Represents others a cells m) : m.IsEmpty = true ↔ cells = [] := by
  unfold Memory.IsEmpty
  cases cells with
  | nil => rw [show m.first = none from rep.chain]; simp
  | cons cell cells => rw [rep.chain.1]; simp

omit [DecidableEq Ref] in
/-- A free address is none of the list's, and was free before. -/
theorem fresh (rep : Represents others a cells m) (free : m.element element = none) :
    element ∉ cells.map Prod.fst ∧ others element = none :=
  have outside := rep.chain.not_mem free
  ⟨outside, (rep.elsewhere _ outside).symm.trans free⟩

theorem pushed {present : List (Entry Object)} (rep : Represents others a cells m)
    (free : m.element element = none) (item : Option Object) (sortKey : Int)
    (contents : (sortKey, item) :: cells.map ListElement.told = present.map fun e => (e.key, e.item)) :
    Represents others (a.put present)
      ((element, ⟨m.first, sortKey, item⟩) :: cells)
      { m with
        element := Function.update m.element element (some ⟨m.first, sortKey, item⟩)
        first := some element
        last := some (m.last.getD element) } where
  chain := rep.chain.push free rfl
  last := by
    cases cells with
    | nil => rw [rep.last]; rfl
    | cons cell cells =>
      rw [rep.last, List.getLast?_cons_cons, List.getLast?_eq_some_getLast (List.cons_ne_nil _ _)]
      rfl
  contents := contents
  elsewhere ref outside := by
    obtain ⟨apart, outside⟩ := not_or.mp (mt List.mem_cons.mpr outside)
    exact (Function.update_of_ne apart ..).trans (rep.elsewhere ref outside)
  own ref inside := by
    obtain rfl | inside := List.mem_cons.mp inside
    · exact (rep.fresh free).2
    · exact rep.own ref inside
  ints := rep.ints

theorem linked {cell : Ref × ListElement Ref Object} {present : List (Entry Object)}
    (rep : Represents others a (before ++ cell :: after) m) (free : m.element element = none)
    (item : Option Object) (sortKey : Int)
    (contents : (before ++ [cell]).map ListElement.told ++ (sortKey, item) :: after.map ListElement.told =
      present.map fun e => (e.key, e.item)) :
    Represents others (a.put present)
      (before ++ (cell.1, { cell.2 with next := some element }) ::
        (element, ⟨cell.2.next, sortKey, item⟩) :: after)
      (m.link element item sortKey cell after) where
  chain := rep.chain.splice free rfl rfl
  last := by
    cases after with
    | nil => simp [Memory.link]
    | cons behind after =>
      simp only [Memory.link, reduceCtorEq, if_false, rep.last]
      simp [List.getLast?_append, List.getLast?_cons_cons]
  contents := by
    refine Eq.trans ?_ contents
    simp
  elsewhere ref outside := by
    simp only [List.map_append, List.map_cons, List.mem_append, List.mem_cons, not_or] at outside
    obtain ⟨ahead, here, new, behind⟩ := outside
    refine (Function.update_of_ne here ..).trans ((Function.update_of_ne new ..).trans (rep.elsewhere ref ?_))
    simp only [List.map_append, List.map_cons, List.mem_append, List.mem_cons, not_or]
    exact ⟨ahead, here, behind⟩
  own ref inside := by
    have own := rep.own ref
    simp only [List.map_append, List.map_cons, List.mem_append, List.mem_cons] at inside own
    obtain ahead | here | rfl | behind := inside
    · exact own (.inl ahead)
    · exact own (.inr (.inl here))
    · exact (rep.fresh free).2
    · exact own (.inr (.inr behind))
  ints := rep.ints

/-- Without its front the list is the one behind it. -/
theorem behind {cell : Ref × ListElement Ref Object} {front : Entry Object} {rest : List (Entry Object)}
    (rep : Represents others a (cell :: cells) m) (present : a.present = front :: rest)
    {removed : List (Nat × Entry Object)} {ints : Place → Int} :
    Represents others ⟨a.calls + 1, rest, removed, ints⟩ cells
      { first := cell.2.next
        last := if cells = [] then none else m.last
        element := Function.update m.element cell.1 none
        ints := ints } where
  chain := Chain.pop rep.chain
  last := by
    cases cells with
    | nil => rfl
    | cons next cells =>
      rw [if_neg (List.cons_ne_nil _ _), rep.last, List.getLast?_cons_cons]
  contents := by
    have contents := rep.contents
    rw [present] at contents
    exact (List.cons.inj contents).2
  elsewhere ref outside := by
    by_cases same : ref = cell.1
    · subst same
      exact (Function.update_self ..).trans (rep.own _ List.mem_cons_self).symm
    · refine (Function.update_of_ne same ..).trans (rep.elsewhere ref ?_)
      exact fun inside => (List.mem_cons.mp inside).elim same outside
  own ref inside := rep.own ref (List.mem_cons_of_mem _ inside)
  ints := rfl

/-- Putting a new element in front, whether there are others or not. -/
theorem front (rep : Represents others a cells m) (element : Ref) (item : Option Object) (sortKey : Int) :
    (if (m.create element item sortKey).IsEmpty then
      some { m.create element item sortKey with first := some element, last := some element }
    else do
      let m ← (m.create element item sortKey).setNext (some element)
        (m.create element item sortKey).first
      return { m with first := some element }) =
      some { m with
        element := Function.update m.element element (some ⟨m.first, sortKey, item⟩)
        first := some element
        last := some (m.last.getD element) } := by
  have empty : (m.create element item sortKey).IsEmpty = m.IsEmpty := rfl
  rw [empty]
  cases cells with
  | nil =>
    rw [if_pos (rep.isEmpty.mpr rfl), rep.last, show m.first = none from rep.chain]
    rfl
  | cons cell cells =>
    rw [if_neg (mt rep.isEmpty.mp (List.cons_ne_nil _ _)), rep.last,
      List.getLast?_eq_some_getLast (List.cons_ne_nil _ _)]
    simp [Memory.setNext, Memory.create, ListElement.make, rep.last,
      List.getLast?_eq_some_getLast (List.cons_ne_nil cell cells)]

theorem Append (rep : Represents others a cells m) (free : m.element element = none)
    (item : Option Object) :
    ∃ cells' m', m.Append element item = some m' ∧
      Represents others (a.put (a.present ++ [a.entry item 0])) cells' m' := by
  obtain rfl | ⟨before, cell, rfl⟩ := cells.eq_nil_or_concat
  · refine ⟨_, _, ?_, rep.pushed free item 0 ?_⟩
    · rw [Memory.Append, if_pos (show (m.create element item 0).IsEmpty = true from rep.isEmpty.mpr rfl),
        rep.last, show m.first = none from rep.chain]
      rfl
    · rw [List.map_append, ← rep.contents]
      rfl
  · rw [List.concat_eq_append] at rep
    refine ⟨_, m.link element item 0 cell [], ?_, rep.linked free item 0 ?_⟩
    · have last : (m.create element item 0).last = some cell.1 := by
        rw [show (m.create element item 0).last = m.last from rfl, rep.last, List.getLast?_concat]
        rfl
      rw [Memory.Append, if_neg (show ¬ (m.create element item 0).IsEmpty = true from
        mt rep.isEmpty.mp (by simp)), last]
      exact Memory.link_end free rep.chain
    · refine Eq.trans ?_ List.map_append.symm
      rw [← rep.contents]
      rfl

theorem Prepend (rep : Represents others a cells m) (free : m.element element = none)
    (item : Option Object) :
    ∃ cells' m', m.Prepend element item = some m' ∧
      Represents others (a.put (a.entry item 0 :: a.present)) cells' m' :=
  ⟨_, _, rep.front element item 0, rep.pushed free item 0 (congrArg _ rep.contents)⟩

omit [DecidableEq Ref] in
/-- The keys in front of the place of a sorted insertion, told by the elements. -/
theorem split_contents (before : List (Ref × ListElement Ref Object))
    (rep : Represents others a (before ++ after) m) (item : Option Object)
    (small : ∀ cell ∈ before, cell.2.key ≤ sortKey) (great : ∀ cell ∈ after.head?, sortKey < cell.2.key) :
    before.map ListElement.told ++ (sortKey, item) :: after.map ListElement.told =
      (a.present.takeWhile (·.key ≤ sortKey) ++ a.entry item sortKey ::
        a.present.dropWhile (·.key ≤ sortKey)).map fun e => (e.key, e.item) := by
  have told := rep.contents
  rw [List.map_append] at told
  have low : ∀ cell ∈ before.map ListElement.told, decide (cell.1 ≤ sortKey) = true := by
    intro cell inside
    obtain ⟨cell, known, rfl⟩ := List.mem_map.mp inside
    exact decide_eq_true (small cell known)
  have stop : (after.map ListElement.told).takeWhile (fun cell => decide (cell.1 ≤ sortKey)) = [] := by
    cases after with
    | nil => rfl
    | cons cell after =>
      exact List.takeWhile_cons_of_neg (by simpa using great cell rfl)
  have taken : (a.present.takeWhile (·.key ≤ sortKey)).map (fun e => (e.key, e.item)) =
      before.map ListElement.told := by
    refine (List.takeWhile_map (p := fun cell : Int × Option Object =>
      decide (cell.1 ≤ sortKey))).symm.trans ?_
    rw [← told, List.takeWhile_append_of_pos low, stop, List.append_nil]
  have dropped : (a.present.dropWhile (·.key ≤ sortKey)).map (fun e => (e.key, e.item)) =
      after.map ListElement.told := by
    refine List.append_cancel_left (show before.map ListElement.told ++ _ = _ ++ _ from ?_)
    rw [← taken, ← List.map_append, List.takeWhile_append_dropWhile, taken, told]
  rw [List.map_append, List.map_cons, taken, dropped]
  rfl

theorem SortedInsert (rep : Represents others a cells m) (free : m.element element = none)
    (item : Option Object) (sortKey : Int) :
    ∃ cells' m', Returns (fun fuel => m.SortedInsert fuel element item sortKey) m' ∧
      Represents others (a.put (a.present.takeWhile (·.key ≤ sortKey) ++
        a.entry item sortKey :: a.present.dropWhile (·.key ≤ sortKey))) cells' m' := by
  have empty : (m.create element item sortKey).IsEmpty = m.IsEmpty := rfl
  cases cells with
  | nil =>
    refine ⟨_, _, .of_eq fun fuel => ?_, rep.pushed free item sortKey
      (split_contents [] rep item ?_ ?_)⟩
    · rw [Memory.SortedInsert, empty, if_pos (rep.isEmpty.mpr rfl), rep.last,
        show m.first = none from rep.chain]
      rfl
    · simp
    · simp
  | cons head cells =>
    have busy : ¬ m.IsEmpty = true := mt rep.isEmpty.mp (List.cons_ne_nil _ _)
    have first : (m.create element item sortKey).first = some head.1 := rep.chain.1
    have apart : head.1 ≠ element := fun same => rep.fresh free |>.1 (same ▸ List.mem_cons_self)
    have found : (m.create element item sortKey).deref (some head.1) = some head.2 :=
      (Function.update_of_ne apart ..).trans rep.chain.2.1
    by_cases less : sortKey < head.2.key
    · refine ⟨_, _, .of_eq fun fuel => ?_, rep.pushed free item sortKey
      (split_contents [] rep item ?_ ?_)⟩
      · have put := rep.front element item sortKey
        rw [empty, if_neg busy] at put
        rw [first] at put
        rw [Memory.SortedInsert, empty, if_neg busy, first, found]
        simpa [less] using put
      · simp
      · simpa using less
    · obtain ⟨before, cell, after, shape, small, great, returns⟩ :=
        Memory.insertBehind_returns [] item free rep.chain rep.last
          (by simpa using less)
      rw [List.nil_append] at shape
      rw [shape] at rep
      refine ⟨_, _, ?_, rep.linked free item sortKey ?_⟩
      · have same : (fun fuel => m.SortedInsert fuel element item sortKey) = fun fuel =>
            (m.create element item sortKey).insertBehind element sortKey fuel (some head.1) := by
          funext fuel
          rw [Memory.SortedInsert, empty, if_neg busy, first, found]
          simp [less]
        rw [same]
        exact returns
      · exact split_contents (before ++ [cell]) (by simpa using rep) item small great

theorem SortedRemove [DecidableEq Place] (rep : Represents others a cells m) (keyPtr : Option Place) :
    ∃ thing cells' m', m.SortedRemove keyPtr = some (thing, m') ∧ (a.take keyPtr).1 = .thing thing ∧
      Represents others (a.take keyPtr).2 cells' m' := by
  cases cells with
  | nil =>
    have present : a.present = [] := List.map_eq_nil_iff.mp rep.contents.symm
    have took : a.take keyPtr = (.thing none, { a with calls := a.calls + 1 }) := by
      rw [Account.take, present]
    refine ⟨none, [], m, ?_, by rw [took], ?_⟩
    · rw [Memory.SortedRemove, if_pos (rep.isEmpty.mpr rfl)]
      rfl
    · rw [took]
      exact ⟨rep.chain, rep.last, rep.contents, rep.elsewhere, rep.own, rep.ints⟩
  | cons cell cells =>
    cases present : a.present with
    | nil => cases rep.contents.trans (congrArg _ present)
    | cons front rest =>
      have took : a.take keyPtr = (.thing front.item, ⟨a.calls + 1, rest,
          a.removed ++ [(a.calls, front)], report a.ints keyPtr front.key⟩) := by
        rw [Account.take, present]
      have told := rep.contents
      rw [present] at told
      obtain ⟨key, thing⟩ := Prod.mk.inj (List.cons.inj told).1
      have busy : ¬ m.IsEmpty = true := mt rep.isEmpty.mp (List.cons_ne_nil _ _)
      have first : m.first = some cell.1 := rep.chain.1
      have found : m.element cell.1 = some cell.2 := rep.chain.2.1
      -- the pointers agree just when nothing is behind the front
      have single : some cell.1 = m.last ↔ cells = [] := by
        rw [rep.last]
        cases cells with
        | nil => simp
        | cons next cells =>
          have apart := (List.nodup_cons.mp rep.chain.nodup).1
          rw [List.getLast?_cons_cons, List.getLast?_eq_some_getLast (List.cons_ne_nil _ _)]
          simp only [Option.map_some, Option.some.injEq, List.cons_ne_nil, iff_false]
          intro same
          rw [same] at apart
          exact apart (List.mem_map_of_mem (List.getLast_mem _))
      rw [took]
      refine ⟨cell.2.item, cells, _, ?_, by rw [thing], rep.behind present⟩
      rw [Memory.SortedRemove, if_neg busy, ← rep.ints, ← key]
      by_cases alone : cells = []
      · have ends : cell.2.next = none := rep.chain.getLast (by rw [alone]; rfl)
        simp [Memory.deref, Memory.delete, first, found, eq_true (single.mpr alone), alone, ends]
      · simp [Memory.deref, Memory.delete, first, found, mt single.mp alone, alone]

/-- A call returns what the account says, and leaves its list. -/
theorem perform [DecidableEq Place] (rep : Represents others a cells m) (free : m.element element = none)
    (call : Call Place Object) :
    ∃ cells' m', Returns (fun fuel => call.perform fuel element m) ((a.after call).1, m') ∧
      Represents others (a.after call).2 cells' m' := by
  cases call with
  | Append item =>
    obtain ⟨cells', m', done, after⟩ := rep.Append free item
    exact ⟨cells', m', .of_eq fun _ => by rw [Call.perform, done]; rfl, after⟩
  | Prepend item =>
    obtain ⟨cells', m', done, after⟩ := rep.Prepend free item
    exact ⟨cells', m', .of_eq fun _ => by rw [Call.perform, done]; rfl, after⟩
  | Remove =>
    obtain ⟨thing, cells', m', done, answer, after⟩ := rep.SortedRemove none
    refine ⟨cells', m', .of_eq fun _ => ?_, after⟩
    rw [Call.perform, Memory.Remove, done, Account.after, answer]
    rfl
  | SortedInsert item sortKey =>
    obtain ⟨cells', m', returns, after⟩ := rep.SortedInsert free item sortKey
    exact ⟨cells', m', returns.map (Answer.nothing, ·), after⟩
  | SortedRemove keyPtr =>
    obtain ⟨thing, cells', m', done, answer, after⟩ := rep.SortedRemove keyPtr
    refine ⟨cells', m', .of_eq fun _ => ?_, after⟩
    rw [Call.perform, done, Account.after, answer]
    rfl

end Represents

/-! ## The order of sorted lists -/

/-- Only these operations are used on a sorted list. -/
def Call.Sorted : Call Place Object → Prop
  | .SortedInsert _ _ => True
  | .SortedRemove _ => True
  | _ => False

namespace Account

/-- Entries stand in order and leave in order: of two that were removed, the one
removed first comes before the other, unless the other was put in only later. -/
structure Ordered (a : Account Place Object) : Prop where
  present : a.present.Pairwise Entry.Before
  removed : a.removed.Pairwise fun x y => x.2.Before y.2 ∨ x.1 < y.2.serial
  known : ∀ entry ∈ a.present, entry.serial < a.calls
  left : ∀ x ∈ a.removed, x.1 < a.calls ∧ ∀ entry ∈ a.present, x.2.Before entry ∨ x.1 < entry.serial

theorem Ordered.new (ints : Place → Int) : (new ints : Account Place Object).Ordered where
  present := .nil
  removed := .nil
  known := by simp [Account.new]
  left := by simp [Account.new]

/-- Behind the place of a sorted insertion all keys are greater. -/
theorem Ordered.behind (ordered : a.Ordered) (sortKey : Int) :
    ∀ entry ∈ a.present.dropWhile (·.key ≤ sortKey), sortKey < entry.key := by
  have sorted := ordered.present
  generalize a.present = present at sorted ⊢
  induction present with
  | nil => simp
  | cons first rest ih =>
    obtain ⟨least, sorted⟩ := List.pairwise_cons.mp sorted
    by_cases small : first.key ≤ sortKey
    · rw [List.dropWhile_cons_of_pos (by simpa using small)]
      exact ih sorted
    · rw [List.dropWhile_cons_of_neg (by simpa using small)]
      intro entry inside
      obtain rfl | inside := List.mem_cons.mp inside
      · exact not_le.mp small
      · obtain less | ⟨same, -⟩ := least entry inside
        · omega
        · omega

theorem Ordered.insert (ordered : a.Ordered) (item : Option Object) (sortKey : Int) :
    (a.put (a.present.takeWhile (·.key ≤ sortKey) ++
      a.entry item sortKey :: a.present.dropWhile (·.key ≤ sortKey))).Ordered := by
  have whole := a.present.takeWhile_append_dropWhile (p := fun entry => decide (entry.key ≤ sortKey))
  have split := ordered.present
  rw [← whole, List.pairwise_append] at split
  obtain ⟨ahead, behind, across⟩ := split
  have inside : ∀ entry, entry ∈ a.present.takeWhile (·.key ≤ sortKey) ++
      a.entry item sortKey :: a.present.dropWhile (·.key ≤ sortKey) →
      entry = a.entry item sortKey ∨ entry ∈ a.present := by
    intro entry inside
    rw [List.mem_append, List.mem_cons] at inside
    obtain early | new | late := inside
    · exact .inr ((List.takeWhile_sublist _).mem early)
    · exact .inl new
    · exact .inr ((List.dropWhile_sublist _).mem late)
  refine ⟨List.pairwise_append.mpr ⟨ahead, List.pairwise_cons.mpr ⟨fun entry late => ?_, behind⟩,
    fun early before other late => ?_⟩, ordered.removed, fun entry now => ?_, fun x gone => ?_⟩
  · exact .inl (ordered.behind sortKey entry late)
  · obtain rfl | late := List.mem_cons.mp late
    · have small : early.key ≤ sortKey := by
        simpa using List.mem_takeWhile_imp before
      obtain less | same := small.lt_or_eq
      · exact .inl less
      · exact .inr ⟨same, ordered.known _ ((List.takeWhile_sublist _).mem before)⟩
    · exact across early before other late
  · obtain rfl | known := inside entry now
    · exact Nat.lt_succ_self _
    · exact (ordered.known entry known).trans (Nat.lt_succ_self _)
  · obtain ⟨early, before⟩ := ordered.left x gone
    refine ⟨early.trans (Nat.lt_succ_self _), fun entry now => ?_⟩
    obtain rfl | known := inside entry now
    · exact .inr early
    · exact before entry known

theorem Ordered.take [DecidableEq Place] (ordered : a.Ordered) (keyPtr : Option Place) :
    (a.take keyPtr).2.Ordered := by
  cases present : a.present with
  | nil =>
    rw [Account.take, present]
    refine ⟨.nil, ordered.removed, by simp, fun x gone => ?_⟩
    exact ⟨(ordered.left x gone).1.trans (Nat.lt_succ_self _), by simp⟩
  | cons front rest =>
    have sorted := ordered.present
    rw [present] at sorted
    obtain ⟨least, sorted⟩ := List.pairwise_cons.mp sorted
    rw [Account.take, present]
    refine ⟨sorted, List.pairwise_append.mpr ⟨ordered.removed, List.pairwise_singleton _ _, ?_⟩,
      fun entry inside => ?_, fun x gone => ?_⟩
    · intro x gone y now
      rw [List.mem_singleton.mp now]
      exact (ordered.left x gone).2 front (present ▸ List.mem_cons_self)
    · exact (ordered.known entry (present ▸ List.mem_cons_of_mem _ inside)).trans (Nat.lt_succ_self _)
    · obtain before | now := List.mem_append.mp gone
      · obtain ⟨early, before⟩ := ordered.left x before
        exact ⟨early.trans (Nat.lt_succ_self _), fun entry inside =>
          before entry (present ▸ List.mem_cons_of_mem _ inside)⟩
      · rw [List.mem_singleton.mp now]
        exact ⟨Nat.lt_succ_self _, fun entry inside => .inl (least entry inside)⟩

theorem Ordered.afterCall [DecidableEq Place] (ordered : a.Ordered) {call : Call Place Object}
    (sorted : call.Sorted) : (a.after call).2.Ordered := by
  cases call with
  | SortedInsert item sortKey => exact ordered.insert item sortKey
  | SortedRemove keyPtr => exact ordered.take keyPtr
  | Append item => exact sorted.elim
  | Prepend item => exact sorted.elim
  | Remove => exact sorted.elim

end Account

/-! ## Whole runs -/

section
variable [DecidableEq Place] {calls : List (Call Place Object)} {call : Call Place Object}

/-- What a call puts on the list. -/
def Call.puts (serial : Nat) : Call Place Object → Option (Entry Object)
  | .Append item => some ⟨serial, 0, item⟩
  | .Prepend item => some ⟨serial, 0, item⟩
  | .Remove => none
  | .SortedInsert item sortKey => some ⟨serial, sortKey, item⟩
  | .SortedRemove _ => none

/-- What the calls put on the list, in their order. -/
def entries (calls : List (Call Place Object)) : List (Entry Object) :=
  calls.zipIdx.filterMap fun (call, serial) => call.puts serial

namespace Account

theorem afterAll_concat (a : Account Place Object) : a.afterAll (calls ++ [call]) =
    ((a.afterAll calls).1 ++ [((a.afterAll calls).2.after call).1],
      ((a.afterAll calls).2.after call).2) := by
  induction calls generalizing a with
  | nil => rfl
  | cons first calls ih =>
    simp only [List.cons_append, afterAll, ih]

theorem take_calls (a : Account Place Object) (keyPtr : Option Place) :
    (a.take keyPtr).2.calls = a.calls + 1 := by
  unfold take
  split <;> rfl

theorem after_calls (a : Account Place Object) (call : Call Place Object) :
    (a.after call).2.calls = a.calls + 1 := by
  cases call with
  | Remove => exact a.take_calls none
  | SortedRemove keyPtr => exact a.take_calls keyPtr
  | Append item => rfl
  | Prepend item => rfl
  | SortedInsert item sortKey => rfl

theorem afterAll_calls (ints : Place → Int) (calls : List (Call Place Object)) :
    ((new ints).afterAll calls).2.calls = calls.length := by
  induction calls using List.reverseRecOn with
  | nil => rfl
  | append_singleton calls call ih => rw [afterAll_concat, after_calls, ih, List.length_append]; rfl

/-- Every entry that was ever on the list, there or removed. -/
def ever (a : Account Place Object) : List (Entry Object) := a.present ++ a.removed.map Prod.snd

theorem take_ever (a : Account Place Object) (keyPtr : Option Place) :
    (a.take keyPtr).2.ever.Perm a.ever := by
  unfold take ever
  cases present : a.present with
  | nil => exact List.Perm.of_eq (by simp)
  | cons front rest =>
    simp only [List.map_append, List.map_cons, List.map_nil, ← List.append_assoc, List.cons_append]
    exact List.perm_append_singleton _ _

omit [DecidableEq Place] in
theorem put_ever (before : List (Entry Object)) {after : List (Entry Object)} (present : a.present = before ++ after)
    (entry : Entry Object) : (a.put (before ++ entry :: after)).ever.Perm (a.ever ++ [entry]) := by
  unfold put ever
  rw [present, List.append_assoc, List.cons_append]
  refine List.perm_middle.trans ((List.perm_append_singleton _ _).symm.trans (.of_eq ?_))
  simp only [List.append_assoc]

/-- A call changes what was ever on the list by what it puts there only. -/
theorem after_ever (a : Account Place Object) (call : Call Place Object) :
    (a.after call).2.ever.Perm (a.ever ++ (call.puts a.calls).toList) := by
  cases call with
  | Remove => exact (a.take_ever none).trans (.of_eq (List.append_nil _).symm)
  | SortedRemove keyPtr => exact (a.take_ever keyPtr).trans (.of_eq (List.append_nil _).symm)
  | Append item => exact put_ever _ (List.append_nil _).symm _
  | Prepend item => exact put_ever [] rfl _
  | SortedInsert item sortKey => exact put_ever _ List.takeWhile_append_dropWhile.symm _

/-- What was ever put on the list is on it, or was removed. -/
theorem afterAll_ever (ints : Place → Int) (calls : List (Call Place Object)) :
    ((new ints).afterAll calls).2.ever.Perm (entries calls) := by
  induction calls using List.reverseRecOn with
  | nil => exact .nil
  | append_singleton calls call ih =>
    rw [afterAll_concat]
    refine (after_ever _ call).trans ?_
    rw [afterAll_calls, entries, List.zipIdx_append, List.filterMap_append]
    refine List.Perm.append ih (.of_eq ?_)
    cases found : call.puts calls.length with
    | none => simp [found]
    | some entry => simp [found]

theorem Ordered.afterAll {a : Account Place Object} (ordered : a.Ordered)
    (sorted : ∀ call ∈ calls, call.Sorted) : (a.afterAll calls).2.Ordered := by
  induction calls generalizing a with
  | nil => exact ordered
  | cons call calls ih =>
    exact ih (ordered.afterCall (sorted call List.mem_cons_self)) fun other inside =>
      sorted other (List.mem_cons_of_mem _ inside)

end Account

/-- What a run leaves: the list the calls account for, with the answers they
account for, and no call that would not return. -/
structure Kept (start m : Memory Ref Place Object) (trace : List (Call Place Object × Answer Object))
    (answers : List (Answer Object)) (account : Account Place Object) : Prop where
  represents : ∃ cells, Represents start.element account cells m
  answers : trace.map Prod.snd = answers
  ever : (account.present ++ account.removed.map Prod.snd).Perm (entries (trace.map Prod.fst))
  ordered : (∀ call ∈ trace.map Prod.fst, call.Sorted) → account.Ordered
  returns : ∀ (call : Call Place Object) (element : Ref), m.element element = none →
    ∃ fuel answer m', call.perform fuel element m = some (answer, m')

theorem run_kept {start m : Memory Ref Place Object} {trace : List (Call Place Object × Answer Object)}
    (first : start.first = none) (last : start.last = none) (run : Runs Step start trace m) :
    Kept start m trace ((Account.new start.ints).afterAll (trace.map Prod.fst)).1
      ((Account.new start.ints).afterAll (trace.map Prod.fst)).2 := by
  have kept : (∃ cells, Represents start.element
      ((Account.new start.ints).afterAll (trace.map Prod.fst)).2 cells m) ∧
      trace.map Prod.snd = ((Account.new start.ints).afterAll (trace.map Prod.fst)).1 := by
    refine run.invariant (P := fun trace m => (∃ cells, Represents start.element
      ((Account.new start.ints).afterAll (trace.map Prod.fst)).2 cells m) ∧
      trace.map Prod.snd = ((Account.new start.ints).afterAll (trace.map Prod.fst)).1)
      ⟨⟨[], .new first last⟩, rfl⟩ ?_
    rintro trace m events m' - ⟨⟨cells, rep⟩, answers⟩ taken
    cases taken with
    | call fuel element free done =>
      rename_i call answer
      obtain ⟨cells', after, returns, rep'⟩ := rep.perform free call
      cases returns.only fuel _ done
      rw [List.map_append, List.map_append, answers, List.map_singleton, List.map_singleton,
        Account.afterAll_concat]
      exact ⟨⟨cells', rep'⟩, rfl⟩
  obtain ⟨⟨cells, rep⟩, answers⟩ := kept
  refine ⟨⟨cells, rep⟩, answers, Account.afterAll_ever _ _, (Account.Ordered.new _).afterAll, ?_⟩
  intro call element free
  obtain ⟨cells', m', ⟨⟨bound, enough⟩, -⟩, -⟩ := rep.perform free call
  exact ⟨bound + 1, _, m', enough _ (Nat.lt_succ_self _)⟩

end

/-- An empty list in a memory without elements. -/
def Memory.empty : Memory Nat Unit Nat where
  first := none
  last := none
  element _ := none
  ints _ := 0

theorem run_kept_sorted : ∃ m, Kept Memory.empty m
    [(.SortedInsert (some 1) 5, .nothing), (.SortedInsert (some 2) 5, .nothing),
      (.SortedInsert (some 3) 4, .nothing), (.SortedRemove (some ()), .thing (some 3))]
    [.nothing, .nothing, .nothing, .thing (some 3)]
    ⟨4, [⟨0, 5, some 1⟩, ⟨1, 5, some 2⟩], [(3, ⟨2, 4, some 3⟩)], report (fun _ => 0) (some ()) 4⟩ :=
  have first : Runs Step Memory.empty [(.SortedInsert (some 1) 5, .nothing)] _ :=
    .single (.call 1 0 rfl rfl)
  have second := first.next
    (show Step _ [(.SortedInsert (some 2) 5, .nothing)] _ from .call 2 1 rfl rfl)
  have third := second.next
    (show Step _ [(.SortedInsert (some 3) 4, .nothing)] _ from .call 2 2 rfl rfl)
  have fourth := third.next
    (show Step _ [(.SortedRemove (some ()), .thing (some 3))] _ from .call 1 3 rfl rfl)
  ⟨_, run_kept rfl rfl fourth⟩

/-- Nothing that `Remove` returns or leaves behind tells the key of the front. -/
theorem Remove_reports_no_key : ¬ ∃ reported : Option (Option Nat × Memory Nat Unit Nat) → Int,
    ∀ trace m front, Runs Step Memory.empty trace m → m.deref m.first = some front →
      reported m.Remove = front.key := by
  rintro ⟨reported, tells⟩
  have insert : ∀ key : Int, Runs Step Memory.empty [(.SortedInsert (some 1) key, .nothing)]
      ⟨some 0, some 0, Function.update (fun _ => none) 0 (some ⟨none, key, some 1⟩), fun _ => 0⟩ :=
    fun key => .single (.call 1 0 rfl rfl)
  have five := tells _ _ ⟨none, 5, some 1⟩ (insert 5) rfl
  have seven := tells _ _ ⟨none, 7, some 1⟩ (insert 7) rfl
  have removed : ∀ key : Int, (Memory.mk (some 0) (some 0)
      (Function.update (fun _ => none) 0 (some ⟨none, key, some 1⟩)) fun _ => 0 :
        Memory Nat Unit Nat).Remove = some (some 1, ⟨none, none, fun _ => none, fun _ => 0⟩) := by
    intro key
    have gone : Function.update (Function.update (fun _ : Nat => none) 0
        (some (⟨none, key, some 1⟩ : ListElement Nat Nat))) 0 none = fun _ => none := by
      rw [Function.update_idem]
      exact Function.update_eq_self 0 _
    simp [Memory.Remove, Memory.SortedRemove, Memory.IsEmpty, Memory.deref, Memory.delete, report, gone]
  rw [removed] at five seven
  cases five.symm.trans seven

end Nachos.LinkedList
