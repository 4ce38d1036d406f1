import Nachos.Threads.SynchProofs

/-! The scheduler: one processor, the ready list, and the status of each thread
(`threads/scheduler.cc`, `threads/thread.cc`).

A thread gives the processor up by going to sleep, finishing or yielding. From
then until the next thread is dispatched interrupts are off, except that
`Interrupt::Idle` lets handlers run when the ready list is empty. -/
namespace Nachos.Threads
open Effects

variable {T S L C U W : Type}

/-- `ThreadStatus`. -/
inductive Status where
  | JUST_CREATED
  | RUNNING
  | READY
  | BLOCKED
deriving DecidableEq

/-- What the processor is doing. -/
inductive Mode where
  /-- The current thread is not giving the processor up. -/
  | on
  /-- The current thread is looking for the next one, in `Sleep` or `Yield`. -/
  | switching
  /-- It found none and is inside `Interrupt::Idle`. -/
  | idling
deriving DecidableEq

/-- The threads and what the scheduler keeps about them. The last two fields only
record the run. -/
structure Scheduler (T S L C U W : Type) where
  threads : State T S L C U W
  currentThread : T
  readyList : List T
  status : T → Status
  mode : Mode
  /-- `SWITCH` has stored the thread's registers. Until then they are those of
  `StackAllocate` and send the thread to `ThreadRoot`. -/
  saved : T → Bool
  threadToBeDestroyed : Option T
  /-- `ASSERT(this != currentThread)` in `~Thread` failed. -/
  failed : Bool
  deleted : List T
  /-- Threads that were replaced in `threadToBeDestroyed` before they were deleted. -/
  forgotten : List T

/-- What a run of the scheduler reports. -/
inductive Scheduled (T : Type) where
  | readies (t : T)
  | dispatches (t : T)
  | finishes (t : T)
  | deletes (t : T)
deriving DecidableEq

/-- The thread that an event hands to `ReadyToRun`. -/
def Event.readied : Event T S L C → Option T
  | .v _ woken => woken
  | .wakes _ t => some t
  | .forks child => some child
  | _ => none

/-- In the order in which they are handed over. -/
def readiedBy (events : List (Event T S L C)) : List T := events.filterMap Event.readied

namespace Scheduler

variable [DecidableEq T]

def setStatus (s : Scheduler T S L C U W) (t : T) (status : Status) : Scheduler T S L C U W :=
  { s with status := Function.update s.status t status }

/-- `Scheduler::ReadyToRun`. -/
def ReadyToRun (s : Scheduler T S L C U W) (t : T) : Scheduler T S L C U W :=
  { s.setStatus t .READY with readyList := s.readyList ++ [t] }

/-- `Thread::Sleep` up to its loop. -/
def Sleep (s : Scheduler T S L C U W) : Scheduler T S L C U W :=
  { s.setStatus s.currentThread .BLOCKED with mode := .switching }

/-- `Thread::Finish`. -/
def Finish (s : Scheduler T S L C U W) : Scheduler T S L C U W :=
  { s.Sleep with
    threadToBeDestroyed := some s.currentThread
    forgotten := s.forgotten ++ s.threadToBeDestroyed.toList }

/-- `Thread::Yield` up to `FindNextToRun`. -/
def Yield (s : Scheduler T S L C U W) : Scheduler T S L C U W :=
  { s.ReadyToRun s.currentThread with mode := .switching }

/-- `delete threadToBeDestroyed; threadToBeDestroyed = NULL`. -/
def deleteThread (s : Scheduler T S L C U W) (t : T) : Scheduler T S L C U W :=
  { s with
    threadToBeDestroyed := none
    failed := s.failed || decide (t = s.currentThread)
    deleted := s.deleted ++ [t] }

/-- `Scheduler::Run` up to the instruction at which the next thread goes on. -/
def SWITCH (s : Scheduler T S L C U W) (next : T) (rest : List T) : Scheduler T S L C U W :=
  { s.setStatus next .RUNNING with
    readyList := rest
    currentThread := next
    saved := Function.update s.saved s.currentThread true
    mode := .on }

/-- `Scheduler::Run`. A thread whose registers were saved goes on behind `SWITCH`;
one that never ran goes to `ThreadRoot`. -/
def Run (s : Scheduler T S L C U W) (next : T) (rest : List T) :
    Scheduler T S L C U W × List (Scheduled T) :=
  let switched := s.SWITCH next rest
  match switched.saved next, switched.threadToBeDestroyed with
  | true, some t => (switched.deleteThread t, [.dispatches next, .deletes t])
  | _, _ => (switched, [.dispatches next])

/-- The threads have moved on, and some were made ready. -/
def readies (s : Scheduler T S L C U W) (result : State T S L C U W × List (Event T S L C)) :
    Scheduler T S L C U W :=
  (readiedBy result.2).foldl ReadyToRun { s with threads := result.1 }

/-- After an operation of the current thread: it goes on, sleeps or finishes. -/
def goesOn (s : Scheduler T S L C U W) (result : State T S L C U W × List (Event T S L C)) :
    Scheduler T S L C U W × List (Scheduled T) :=
  let events := (readiedBy result.2).map .readies
  match result.1.phase s.currentThread with
  | .queued _ _ _ | .waiting _ _ _ => ((s.readies result).Sleep, events)
  | .finished => ((s.readies result).Finish, events ++ [.finishes s.currentThread])
  | _ => (s.readies result, events)

variable [DecidableEq S] [DecidableEq L] [DecidableEq C]

/-- One stretch of execution on the processor. -/
inductive Step (code : Code T S L C U W) :
    Scheduler T S L C U W → List (Scheduled T) → Scheduler T S L C U W → Prop where
  | segment {s : Scheduler T S L C U W} {u next : U} {op : Op T S L C} {memory : W}
      (on : s.mode = .on) (stands : s.threads.phase s.currentThread = .running u)
      (does : code.segment s.currentThread u s.threads.memory op memory next)
      (once : ∀ child, op = .fork child → ∃ u, s.threads.phase child = .fresh u)
      (goes : op ≠ .yield) :
      Step code s
        (s.goesOn ({ s.threads with memory := memory }.perform s.currentThread op next)).2
        (s.goesOn ({ s.threads with memory := memory }.perform s.currentThread op next)).1
  | yields {s : Scheduler T S L C U W} {u next : U} {memory : W}
      (on : s.mode = .on) (stands : s.threads.phase s.currentThread = .running u)
      (does : code.segment s.currentThread u s.threads.memory .yield memory next) :
      Step code s [.readies s.currentThread]
        { s with
          threads := ({ s.threads with memory := memory }.perform s.currentThread .yield next).1
          }.Yield
  | retest {s : Scheduler T S L C U W} {id : SemId S L} {inWait : Option C} {next : U}
      (on : s.mode = .on) (stands : s.threads.phase s.currentThread = .woken id inWait next) :
      Step code s (s.goesOn (s.threads.P s.currentThread id inWait next)).2
        (s.goesOn (s.threads.P s.currentThread id inWait next)).1
  | reacquire {s : Scheduler T S L C U W} {c : C} {l : L} {next : U}
      (on : s.mode = .on) (stands : s.threads.phase s.currentThread = .signalled c l next) :
      Step code s (s.goesOn (s.threads.P s.currentThread (.ofLock l) (some c) next)).2
        (s.goesOn (s.threads.P s.currentThread (.ofLock l) (some c) next)).1
  /-- The timer's handler has asked for a `Yield`. -/
  | timer {s : Scheduler T S L C U W} (on : s.mode = .on) :
      Step code s [.readies s.currentThread] s.Yield
  | interrupt {s : Scheduler T S L C U W} {raised : Option S} {memory : W}
      (enabled : s.mode = .on ∨ s.mode = .idling)
      (fires : code.handler s.threads.memory raised memory) :
      Step code s
        ((readiedBy ({ s.threads with memory := memory }.interrupt raised).2).map .readies)
        (s.readies ({ s.threads with memory := memory }.interrupt raised))
  | idle {s : Scheduler T S L C U W} (switching : s.mode = .switching) (none : s.readyList = []) :
      Step code s [] { s with mode := .idling }
  | looks {s : Scheduler T S L C U W} (idling : s.mode = .idling) :
      Step code s [] { s with mode := .switching }
  | dispatch {s : Scheduler T S L C U W} {next : T} {rest : List T}
      (switching : s.mode = .switching) (first : s.readyList = next :: rest) :
      Step code s (s.Run next rest).2 (s.Run next rest).1

/-- The kernel has just been started: the main thread runs and nobody else was
forked. -/
structure Boots (s : Scheduler T S L C U W) : Prop extends Starts s.threads where
  main : ∃ u, s.threads.phase s.currentThread = .running u
  others (t : T) : t ≠ s.currentThread → ∃ u, s.threads.phase t = .fresh u
  mode : s.mode = .on
  empty : s.readyList = []
  status (t : T) : s.status t = if t = s.currentThread then .RUNNING else .JUST_CREATED
  unsaved (t : T) : s.saved t = false
  nobody : s.threadToBeDestroyed = none
  fine : s.failed = false
  unrecorded : s.deleted = [] ∧ s.forgotten = []

end Scheduler

end Nachos.Threads
