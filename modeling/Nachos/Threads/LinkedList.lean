import Nachos.Effects.Chains
import Nachos.Effects.Runs

/-! The singly linked list of `threads/list.cc`, with the elements at addresses
the allocator chooses. An operation fails when it follows a pointer that is
`NULL` or leads to no live element. Keys are compared only, so they are integers
without a bound. -/
namespace Nachos.LinkedList
open Effects

variable {Ref Place Object : Type}

/-! ## The operations -/

structure ListElement (Ref Object : Type) where
  next : Option Ref
  key : Int
  item : Option Object
deriving DecidableEq

/-- `ListElement::ListElement`. -/
def ListElement.make (itemPtr : Option Object) (sortKey : Int) : ListElement Ref Object where
  item := itemPtr
  key := sortKey
  next := none

/-- A `List`, the live elements, and the integers its callers have keys reported in. -/
structure Memory (Ref Place Object : Type) where
  first : Option Ref
  last : Option Ref
  element : Ref → Option (ListElement Ref Object)
  ints : Place → Int

/-- `*keyPtr = key`, unless `keyPtr` is `NULL`. -/
def report [DecidableEq Place] (ints : Place → Int) (keyPtr : Option Place) (key : Int) : Place → Int :=
  match keyPtr with
  | none => ints
  | some place => Function.update ints place key

namespace Memory
variable [DecidableEq Ref]

/-- The element a pointer leads to. -/
def deref (m : Memory Ref Place Object) (ptr : Option Ref) : Option (ListElement Ref Object) :=
  ptr.bind m.element

/-- `ptr->next = next`. -/
def setNext (m : Memory Ref Place Object) (ptr next : Option Ref) : Option (Memory Ref Place Object) := do
  let ref ← ptr
  let old ← m.element ref
  return { m with element := Function.update m.element ref (some { old with next }) }

/-- `new ListElement(itemPtr, sortKey)` at the address the allocator gives. -/
def create (m : Memory Ref Place Object) (element : Ref) (itemPtr : Option Object) (sortKey : Int) :
    Memory Ref Place Object :=
  { m with element := Function.update m.element element (some (.make itemPtr sortKey)) }

/-- `delete`. -/
def delete (m : Memory Ref Place Object) (ptr : Option Ref) : Option (Memory Ref Place Object) := do
  let ref ← ptr
  return { m with element := Function.update m.element ref none }

/-- `List::IsEmpty`. -/
def IsEmpty (m : Memory Ref Place Object) : Bool := m.first.isNone

/-- `List::Append`, with the address of the new element. -/
def Append (element : Ref) (item : Option Object) (m : Memory Ref Place Object) :
    Option (Memory Ref Place Object) := do
  let m := m.create element item 0
  if m.IsEmpty then
    return { m with first := some element, last := some element }
  else
    let m ← m.setNext m.last (some element)
    return { m with last := some element }

/-- `List::Prepend`. -/
def Prepend (element : Ref) (item : Option Object) (m : Memory Ref Place Object) :
    Option (Memory Ref Place Object) := do
  let m := m.create element item 0
  if m.IsEmpty then
    return { m with first := some element, last := some element }
  else
    let m ← m.setNext (some element) m.first
    return { m with first := some element }

/-- The loop of `List::SortedInsert` from `ptr` on, and what is done behind it:
the new element is put in before the first later one with a greater key, at the
end if there is none. At most `fuel` elements are passed. -/
def insertBehind (element : Ref) (sortKey : Int) :
    Nat → Option Ref → Memory Ref Place Object → Option (Memory Ref Place Object)
  | 0, _, _ => none
  | fuel + 1, ptr, m => do
    let here ← m.deref ptr
    if here.next = none then
      let m ← m.setNext m.last (some element)
      return { m with last := some element }
    else
      let behind ← m.deref here.next
      if sortKey < behind.key then
        let m ← m.setNext (some element) here.next
        m.setNext ptr (some element)
      else
        insertBehind element sortKey fuel here.next m

/-- `List::SortedInsert`. -/
def SortedInsert (fuel : Nat) (element : Ref) (item : Option Object) (sortKey : Int)
    (m : Memory Ref Place Object) : Option (Memory Ref Place Object) := do
  let m := m.create element item sortKey
  if m.IsEmpty then
    return { m with first := some element, last := some element }
  else
    let front ← m.deref m.first
    if sortKey < front.key then
      let m ← m.setNext (some element) m.first
      return { m with first := some element }
    else
      m.insertBehind element sortKey fuel m.first

section
variable [DecidableEq Place]

/-- `List::SortedRemove`. -/
def SortedRemove (keyPtr : Option Place) (m : Memory Ref Place Object) :
    Option (Option Object × Memory Ref Place Object) := do
  let element := m.first
  if m.IsEmpty then
    return (none, m)
  let front ← m.deref m.first
  let thing := front.item
  let m ← if m.first = m.last then
      pure { m with first := none, last := none }
    else do
      let removed ← m.deref element
      pure { m with first := removed.next }
  let removed ← m.deref element
  let m := { m with ints := report m.ints keyPtr removed.key }
  let m ← m.delete element
  return (thing, m)

/-- `List::Remove`. -/
def Remove (m : Memory Ref Place Object) : Option (Option Object × Memory Ref Place Object) :=
  m.SortedRemove none

end

end Memory

/-! ## Runs -/

/-- A call of one of the operations. -/
inductive Call (Place Object : Type) where
  | Append (item : Option Object)
  | Prepend (item : Option Object)
  | Remove
  | SortedInsert (item : Option Object) (sortKey : Int)
  | SortedRemove (keyPtr : Option Place)

/-- What a call gives back: nothing, or the pointer a removal returns. -/
inductive Answer (Object : Type) where
  | nothing
  | thing (item : Option Object)

variable [DecidableEq Ref] [DecidableEq Place]

/-- What a call does, with the address for a new element. -/
def Call.perform (fuel : Nat) (element : Ref) (m : Memory Ref Place Object) :
    Call Place Object → Option (Answer Object × Memory Ref Place Object)
  | .Append item => (m.Append element item).map (.nothing, ·)
  | .Prepend item => (m.Prepend element item).map (.nothing, ·)
  | .Remove => m.Remove.map fun (item, m) => (.thing item, m)
  | .SortedInsert item sortKey => (m.SortedInsert fuel element item sortKey).map (.nothing, ·)
  | .SortedRemove keyPtr => (m.SortedRemove keyPtr).map fun (item, m) => (.thing item, m)

/-- A call that returns. No live element is at the address for a new one. -/
inductive Step (m : Memory Ref Place Object) :
    List (Call Place Object × Answer Object) → Memory Ref Place Object → Prop where
  | call {call answer m'} (fuel : Nat) (element : Ref) (free : m.element element = none)
      (done : call.perform fuel element m = some (answer, m')) : Step m [(call, answer)] m'

/-! ## What the list is for -/

/-- What was put on the list, under which key and by which call. -/
structure Entry (Object : Type) where
  serial : Nat
  key : Int
  item : Option Object

/-- By key, and with the same key in the order of insertion. -/
def Entry.Before (entry other : Entry Object) : Prop :=
  entry.key < other.key ∨ entry.key = other.key ∧ entry.serial < other.serial

/-- A list in its own terms: what is on it from front to end, what was removed
and by which call, and the integers keys are reported in. -/
structure Account (Place Object : Type) where
  calls : Nat
  present : List (Entry Object)
  removed : List (Nat × Entry Object)
  ints : Place → Int

namespace Account

/-- The entry for what the next call puts on the list. -/
def entry (a : Account Place Object) (item : Option Object) (key : Int) : Entry Object :=
  ⟨a.calls, key, item⟩

def put (a : Account Place Object) (present : List (Entry Object)) : Account Place Object :=
  { a with calls := a.calls + 1, present }

/-- The front is taken off, and its key reported if `keyPtr` is not `NULL`. -/
def take (a : Account Place Object) (keyPtr : Option Place) : Answer Object × Account Place Object :=
  match a.present with
  | [] => (.thing none, { a with calls := a.calls + 1 })
  | front :: rest =>
    (.thing front.item, {
      calls := a.calls + 1
      present := rest
      removed := a.removed ++ [(a.calls, front)]
      ints := report a.ints keyPtr front.key })

/-- What one call answers and leaves. A sorted insertion goes before the first
entry with a greater key. -/
def after (a : Account Place Object) : Call Place Object → Answer Object × Account Place Object
  | .Append item => (.nothing, a.put (a.present ++ [a.entry item 0]))
  | .Prepend item => (.nothing, a.put (a.entry item 0 :: a.present))
  | .Remove => a.take none
  | .SortedInsert item sortKey =>
    (.nothing, a.put (a.present.takeWhile (·.key ≤ sortKey) ++
      a.entry item sortKey :: a.present.dropWhile (·.key ≤ sortKey)))
  | .SortedRemove keyPtr => a.take keyPtr

/-- What a sequence of calls answers and leaves. -/
def afterAll (a : Account Place Object) : List (Call Place Object) →
    List (Answer Object) × Account Place Object
  | [] => ([], a)
  | call :: calls =>
    let (answer, a) := a.after call
    let (answers, a) := a.afterAll calls
    (answer :: answers, a)

/-- The empty list. -/
def new (ints : Place → Int) : Account Place Object := ⟨0, [], [], ints⟩

end Account

/-- The memory holds the list of the account, in the given elements: they are
the ones met from `first` on, the last of them is `last`, and where none of them
is, there is what was there before. -/
structure Represents (others : Ref → Option (ListElement Ref Object)) (a : Account Place Object)
    (cells : List (Ref × ListElement Ref Object)) (m : Memory Ref Place Object) : Prop where
  chain : Chain ListElement.next m.element m.first cells none
  last : m.last = cells.getLast?.map Prod.fst
  contents : cells.map (fun cell => (cell.2.key, cell.2.item)) = a.present.map fun e => (e.key, e.item)
  elsewhere : ∀ ref ∉ cells.map Prod.fst, m.element ref = others ref
  own : ∀ ref ∈ cells.map Prod.fst, others ref = none
  ints : m.ints = a.ints

end Nachos.LinkedList
