import Mathlib.Logic.Function.Basic
import Nachos.Effects.Runs

/-! Threads and what synchronises them: `Semaphore`, `Lock` and `Condition`.

Kernel code is cut into the segments that run without an instant at which
interrupts are enabled. `Interrupt::SetLevel` lets time pass only when it turns
interrupts on, so a segment ends with the operation that does so, and within it
no other thread and no interrupt handler runs. Between two segments any thread
that is not asleep may be the next to run. -/
namespace Nachos.Threads

/-! ## Semaphores -/

/-- The value and the threads asleep in `P`, the first to be woken first. -/
structure Semaphore (T : Type) where
  value : Int
  queue : List T

namespace Semaphore

variable {T : Type}

/-- One test of the loop in `Semaphore::P`: `none` when the thread has to sleep,
and then it is at the end of the queue. -/
def P (sem : Semaphore T) (thread : T) : Semaphore T × Option Unit :=
  if sem.value = 0 then ({ sem with queue := sem.queue ++ [thread] }, none)
  else ({ sem with value := sem.value - 1 }, some ())

/-- `Semaphore::V`, with the thread it hands to `ReadyToRun`. -/
def V (sem : Semaphore T) : Semaphore T × Option T :=
  ({ value := sem.value + 1, queue := sem.queue.tail }, sem.queue.head?)

end Semaphore

/-! ## Threads -/

variable {T S L C U W : Type}

/-- A semaphore of the kernel: one it declares, or the one inside a lock. -/
inductive SemId (S L : Type) where
  | plain (s : S)
  | ofLock (l : L)
deriving DecidableEq

/-- Where a thread stands. `next` is the point of its code it goes on from, and
`inWait` the condition whose `Wait` is acquiring its lock again. -/
inductive Phase (S L C U : Type) where
  /-- Created, not forked yet. -/
  | fresh (next : U)
  | running (next : U)
  /-- Asleep in the loop of `P`. -/
  | queued (id : SemId S L) (inWait : Option C) (next : U)
  /-- Made ready by `V`; has not tested the value again. -/
  | woken (id : SemId S L) (inWait : Option C) (next : U)
  /-- Asleep in `Wait`. -/
  | waiting (c : C) (l : L) (next : U)
  /-- Made ready by `Signal` or `Broadcast`; has not called `Acquire` yet. -/
  | signalled (c : C) (l : L) (next : U)
  | finished

namespace Phase

/-- What `ReadyToRun` makes of a thread taken from a queue. -/
def readied : Phase S L C U → Phase S L C U
  | .queued id inWait next => .woken id inWait next
  | .waiting c l next => .signalled c l next
  | phase => phase

end Phase

/-- The operation a segment ends with. -/
inductive Op (T S L C : Type) where
  /-- Interrupts are enabled and nothing else happens. -/
  | tick
  | p (s : S)
  | v (s : S)
  | acquire (l : L)
  | release (l : L)
  | wait (c : C) (l : L)
  | signal (c : C) (l : L)
  | broadcast (c : C) (l : L)
  | fork (child : T)
  | yield
  | finish

/-- What a run reports: the completion of an operation, or the wake-up that is
part of one. -/
inductive Event (T S L C : Type) where
  | p (id : SemId S L) (t : T)
  | v (id : SemId S L) (woken : Option T)
  | acquires (l : L) (t : T)
  | releases (l : L) (t : T)
  | waits (c : C) (l : L) (t : T)
  | wakes (c : C) (t : T)
  | returns (c : C) (l : L) (t : T)
  | forks (child : T)
  | finishes (t : T)
deriving DecidableEq

/-- All threads together with everything they share. -/
structure State (T S L C U W : Type) where
  sem : SemId S L → Semaphore T
  owner : L → Option T
  queue : C → List T
  phase : T → Phase S L C U
  memory : W

/-- The code the threads run and the interrupt handlers. At point `u` a thread
may change the memory, perform an operation, and go on from the next point; a
handler changes the memory and may call `V`. -/
structure Code (T S L C U W : Type) where
  segment : T → U → W → Op T S L C → W → U → Prop
  handler : W → Option S → W → Prop

namespace State

variable [DecidableEq T] [DecidableEq S] [DecidableEq L] [DecidableEq C]

def setPhase (k : State T S L C U W) (t : T) (phase : Phase S L C U) : State T S L C U W :=
  { k with phase := Function.update k.phase t phase }

def setSem (k : State T S L C U W) (id : SemId S L) (sem : Semaphore T) : State T S L C U W :=
  { k with sem := Function.update k.sem id sem }

def setQueue (k : State T S L C U W) (c : C) (queue : List T) : State T S L C U W :=
  { k with queue := Function.update k.queue c queue }

def setOwner (k : State T S L C U W) (l : L) (owner : Option T) : State T S L C U W :=
  { k with owner := Function.update k.owner l owner }

/-- `ReadyToRun` on a thread just removed from a queue. -/
def ready (k : State T S L C U W) (t : T) : State T S L C U W :=
  k.setPhase t (k.phase t).readied

/-- The loop of `P` up to its end or its next sleep. On a lock's semaphore this
is `Acquire`, which records the owner. -/
def P (k : State T S L C U W) (t : T) (id : SemId S L) (inWait : Option C) (next : U) :
    State T S L C U W × List (Event T S L C) :=
  match (k.sem id).P t with
  | (sem, none) => ((k.setSem id sem).setPhase t (.queued id inWait next), [])
  | (sem, some ()) =>
    let taken := (k.setSem id sem).setPhase t (.running next)
    match id with
    | .plain _ => (taken, [.p id t])
    | .ofLock l =>
      (taken.setOwner l (some t),
        [.p id t, .acquires l t] ++ (inWait.map fun c => .returns c l t).toList)

def V (k : State T S L C U W) (id : SemId S L) : State T S L C U W × List (Event T S L C) :=
  let (sem, woken) := (k.sem id).V
  match woken with
  | some t => ((k.setSem id sem).ready t, [.v id (some t)])
  | none => (k.setSem id sem, [.v id none])

/-- `Lock::Release`. -/
def Release (k : State T S L C U W) (t : T) (l : L) :
    State T S L C U W × List (Event T S L C) :=
  let (raised, events) := k.V (.ofLock l)
  (raised.setOwner l none, events ++ [.releases l t])

/-- `Condition::Wait` up to its `Sleep`. -/
def Wait (k : State T S L C U W) (t : T) (c : C) (l : L) (next : U) :
    State T S L C U W × List (Event T S L C) :=
  let (released, events) := k.Release t l
  ((released.setQueue c (released.queue c ++ [t])).setPhase t (.waiting c l next),
    events ++ [.waits c l t])

/-- `Condition::Signal`. -/
def Signal (k : State T S L C U W) (c : C) : State T S L C U W × List (Event T S L C) :=
  match k.queue c with
  | [] => (k, [])
  | t :: rest => ((k.setQueue c rest).ready t, [.wakes c t])

/-- `Condition::Broadcast`: signal while the queue is not empty. -/
def Broadcast (k : State T S L C U W) (c : C) : State T S L C U W × List (Event T S L C) :=
  if (k.queue c).isEmpty then (k, [])
  else
    let rest := (k.Signal c).1.Broadcast c
    (rest.1, (k.Signal c).2 ++ rest.2)
termination_by (k.queue c).length
decreasing_by
  rename_i nonempty
  cases shape : k.queue c with
  | nil => simp [shape] at nonempty
  | cons t rest => simp [Signal, shape, setQueue, ready, setPhase]

/-- `Thread::Fork` by another thread. -/
def Fork (k : State T S L C U W) (child : T) : State T S L C U W × List (Event T S L C) :=
  match k.phase child with
  | .fresh next => (k.setPhase child (.running next), [.forks child])
  | _ => (k, [])

/-- A running thread ends its segment with an operation. -/
def perform (k : State T S L C U W) (t : T) (op : Op T S L C) (next : U) :
    State T S L C U W × List (Event T S L C) :=
  match op with
  | .tick | .yield => (k.setPhase t (.running next), [])
  | .p s => k.P t (.plain s) none next
  | .v s => (k.setPhase t (.running next)).V (.plain s)
  | .acquire l => k.P t (.ofLock l) none next
  | .release l => (k.setPhase t (.running next)).Release t l
  | .wait c l => k.Wait t c l next
  | .signal c _ => (k.setPhase t (.running next)).Signal c
  | .broadcast c _ => (k.setPhase t (.running next)).Broadcast c
  | .fork child => (k.setPhase t (.running next)).Fork child
  | .finish => (k.setPhase t .finished, [.finishes t])

/-- `V` as an interrupt handler calls it, or does not. -/
def interrupt (k : State T S L C U W) : Option S → State T S L C U W × List (Event T S L C)
  | some s => k.V (.plain s)
  | none => (k, [])

end State

section
variable [DecidableEq T] [DecidableEq S] [DecidableEq L] [DecidableEq C]

/-- One uninterrupted stretch of execution: a segment of a running thread, the
rest of a `P` or of a `Wait` by a thread made ready again, or a handler. A
thread is forked only once. -/
inductive Step (code : Code T S L C U W) :
    State T S L C U W → List (Event T S L C) → State T S L C U W → Prop where
  | segment {k : State T S L C U W} {t : T} {u next : U} {op : Op T S L C} {memory : W}
      (stands : k.phase t = .running u) (does : code.segment t u k.memory op memory next)
      (once : ∀ child, op = .fork child → ∃ u, k.phase child = .fresh u) :
      Step code k ({ k with memory := memory }.perform t op next).2
        ({ k with memory := memory }.perform t op next).1
  | retest {k : State T S L C U W} {t : T} {id : SemId S L} {inWait : Option C} {next : U}
      (stands : k.phase t = .woken id inWait next) :
      Step code k (k.P t id inWait next).2 (k.P t id inWait next).1
  | reacquire {k : State T S L C U W} {t : T} {c : C} {l : L} {next : U}
      (stands : k.phase t = .signalled c l next) :
      Step code k (k.P t (.ofLock l) (some c) next).2 (k.P t (.ofLock l) (some c) next).1
  | interrupt {k : State T S L C U W} {raised : Option S} {memory : W}
      (fires : code.handler k.memory raised memory) :
      Step code k ({ k with memory := memory }.interrupt raised).2
        ({ k with memory := memory }.interrupt raised).1

/-- Every semaphore starts with a value of at least zero and every lock free;
no thread is asleep. -/
structure Starts (k : State T S L C U W) : Prop where
  value (id : SemId S L) : 0 ≤ (k.sem id).value
  asleep (id : SemId S L) : (k.sem id).queue = []
  free (l : L) : (k.sem (.ofLock l)).value = 1 ∧ k.owner l = none
  conditions (c : C) : k.queue c = []
  phase (t : T) : ∃ u, k.phase t = .fresh u ∨ k.phase t = .running u

end

end Nachos.Threads
