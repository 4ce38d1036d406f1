import Mathlib.Logic.Function.Basic
import Mathlib.Data.Fin.Basic
import Nachos.Effects.Runs

/-! User threads: the registers and the page table of the machine, the system
calls that start, join and end threads, and what a context switch saves and loads
(`userprog/exception.cc`, `threads/scheduler.cc`, `userprog/addrspace.cc`).

There is one set of user registers and one page table register for all threads.
Which thread is dispatched next is left open. A step is a stretch of kernel or
user code within which no other thread runs. -/
namespace Nachos.Userprog
open Effects

/-! ## The machine -/

/-- `machine->registers`. -/
abbrev Registers := Fin 40 → BitVec 32

def StackReg : Fin 40 := 29
def ResultReg : Fin 40 := 2
def ArgumentReg : Fin 40 := 4
def PCReg : Fin 40 := 34
def NextPCReg : Fin 40 := 35
def PrevPCReg : Fin 40 := 36
def LoadReg : Fin 40 := 37
def LoadValueReg : Fin 40 := 38
def BadVAddrReg : Fin 40 := 39

namespace Registers

/-- `Machine::WriteRegister`. -/
def write (r : Registers) (num : Fin 40) (value : BitVec 32) : Registers :=
  Function.update r num value

/-- `registers[registers[LoadReg]] = registers[LoadValueReg]`. -/
def finishLoad (r : Registers) : Registers :=
  if inside : (r LoadReg).toNat < 40 then r.write ⟨(r LoadReg).toNat, inside⟩ (r LoadValueReg) else r

/-- `Machine::DelayedLoad(0, 0)`. -/
def DelayedLoad (r : Registers) : Registers :=
  ((r.finishLoad.write LoadReg 0).write LoadValueReg 0).write 0 0

/-- `Machine::PCAdvance`. -/
def PCAdvance (r : Registers) : Registers :=
  let r := r.write PrevPCReg (r PCReg)
  let r := r.write PCReg (r PCReg + 4)
  r.write NextPCReg (r NextPCReg + 4)

/-- The registers that `RaiseException` leaves to the handler. -/
def raise (r : Registers) (badVAddr : BitVec 32) : Registers :=
  (r.write BadVAddrReg badVAddr).DelayedLoad

/-- The registers `fork_func` writes. -/
def jump (r : Registers) (pc : BitVec 32) : Registers :=
  (r.write PCReg pc).write NextPCReg (pc + 4)

end Registers

/-- `AddrSpace`: where its page table is and how many pages it has. -/
structure AddrSpace where
  pageTable : BitVec 32
  numPages : BitVec 32
deriving DecidableEq

/-- `AddrSpace::InitRegisters`; the page size is 128. -/
def AddrSpace.InitRegisters (space : AddrSpace) : Registers :=
  let zero : Registers := fun _ => 0
  ((zero.write PCReg 0).write NextPCReg 4).write StackReg (space.numPages * 128 - 16)

/-! ## Threads -/

/-- A `Thread *`; 0 is `NULL`. -/
abbrev Address := BitVec 32

def SC_Exit : BitVec 32 := 1
def SC_Exec : BitVec 32 := 2
def SC_Join : BitVec 32 := 3
def SC_Fork : BitVec 32 := 9
def SC_Yield : BitVec 32 := 10

/-- Where a thread stands. -/
inductive Point where
  | unborn
  /-- At the start of `exec_func` or `StartProcess`, or opening the program. -/
  | exec
  /-- Before `fork_func`, with what it is passed. -/
  | forkFunc (pc : BitVec 32) (space : AddrSpace)
  /-- Executes user instructions. -/
  | user
  /-- Has entered `ExceptionHandler` with a system call. -/
  | trapped
  /-- In `SC_Exec` or `SC_Fork`, about to call `Yield`. -/
  | yielding
  /-- Has yet to call `PCAdvance`. -/
  | advancing
  /-- In a system call that starts, joins or ends no thread, or in a page fault. -/
  | serving
  /-- In the loop of `SC_Join`. -/
  | joining (i : Nat) (id : Address)
  | finished
deriving DecidableEq

/-- The point is one of a thread that runs a user program. -/
def Point.live : Point → Bool
  | .user | .trapped | .yielding | .advancing | .serving | .joining _ _ => true
  | _ => false

structure Thread where
  point : Point
  userRegisters : Registers
  space : Option AddrSpace
  child : Fin 10 → Address
  father : Address

/-- `child[i]` as the loop of `SC_Join` reads it: behind the array stands `father`. -/
def Thread.slot (thread : Thread) (i : Nat) : Address :=
  if inside : i < 10 then thread.child ⟨i, inside⟩ else thread.father

/-- The machine and all threads. The last two fields only record the run: the
registers each thread would have if it had a machine of its own, and what a thread
started by `SC_Fork` should begin with. -/
structure System where
  registers : Registers
  pageTable : BitVec 32
  pageTableSize : BitVec 32
  currentThread : Address
  thread : Address → Thread
  /-- `SWITCH` has stored the thread's own registers; if not, it goes to
  `ThreadRoot`. -/
  saved : Address → Bool
  own : Address → Registers
  inherited : Address → Option (Registers × AddrSpace)

/-- What a run reports. -/
inductive Event where
  /-- `Scheduler::Run`, and whether the thread has an address space. -/
  | dispatches (t : Address) (user : Bool)
  | forks (parent child : Address)
  /-- `fork_func` has set the thread up. -/
  | begins (t : Address)
  /-- `exec_func` or `StartProcess` has set the thread up. -/
  | loads (t : Address)
  /-- The program of an `SC_Exec` cannot be opened. -/
  | fails (t : Address)
  | exits (t : Address)
  /-- `SC_Join` of an id that is not in the table, with what happened to be in
  `found`. -/
  | strays (t : Address) (found : Bool)
deriving DecidableEq

namespace System

def current (s : System) : Thread := s.thread s.currentThread

def setThread (s : System) (t : Address) (thread : Thread) : System :=
  { s with thread := Function.update s.thread t thread }

/-- The current thread changes its registers and goes on. -/
def act (s : System) (change : Registers → Registers) (point : Point) : System :=
  { s.setThread s.currentThread { s.current with point := point } with
    registers := change s.registers
    own := Function.update s.own s.currentThread (change (s.own s.currentThread)) }

/-- The part of `Scheduler::Run` before `SWITCH`. -/
def SaveUserState (s : System) : System :=
  match s.current.space with
  | some _ => s.setThread s.currentThread { s.current with userRegisters := s.registers }
  | none => s

/-- The part of `Scheduler::Run` behind `SWITCH`. -/
def RestoreUserState (s : System) : System :=
  match s.current.space with
  | some space =>
    { s with
      registers := s.current.userRegisters
      pageTable := space.pageTable
      pageTableSize := space.numPages }
  | none => s

/-- The processor goes to another thread. -/
def SWITCH (s : System) (next : Address) : System :=
  { s with currentThread := next, saved := Function.update s.saved s.currentThread true }

/-- `Scheduler::Run`. -/
def Run (s : System) (next : Address) : System :=
  let switched := s.SaveUserState.SWITCH next
  if switched.saved next then switched.RestoreUserState else switched

/-- The new thread of `SC_Exec` and `SC_Fork` in `child[i]`, ready to run. -/
def spawn (s : System) (i : Fin 10) (child : Address) (point : Point) : System :=
  let parent := s.current
  let listed := s.setThread s.currentThread { parent with child := Function.update parent.child i child }
  listed.setThread child
    { point := point
      userRegisters := (s.thread child).userRegisters
      space := none
      child := fun _ => 0
      father := s.currentThread }

/-- `SC_Fork` up to `Thread::Fork`, when `child[i]` is the first free slot. -/
def fork (s : System) (i : Fin 10) (child : Address) (space : AddrSpace) : System :=
  let pc := s.registers 4
  let called := s.act (·.write 2 child) .yielding
  { called.spawn i child (.forkFunc pc space) with
    own := Function.update called.own child (called.registers.jump pc)
    inherited := Function.update called.inherited child (some (called.registers, space)) }

/-- `exec_func` and `StartProcess` once the program is open. -/
def load (s : System) (space : AddrSpace) : System :=
  { s.setThread s.currentThread { s.current with point := .user, space := some space } with
    registers := space.InitRegisters
    pageTable := space.pageTable
    pageTableSize := space.numPages
    own := Function.update s.own s.currentThread space.InitRegisters }

/-- `fork_func`: the registers and the page table are those the machine has. -/
def fork_func (s : System) (pc : BitVec 32) (space : AddrSpace) : System :=
  let registers := s.registers.jump pc
  { s.setThread s.currentThread
      { s.current with point := .user, space := some space, userRegisters := registers } with
    registers := registers }

/-- `SC_Exit`: the first slot of the father that holds the thread is cleared, if
there is one, and the thread finishes. -/
def exit (s : System) : System :=
  let father := s.thread s.current.father
  let slots := match (List.finRange 10).find? fun i => father.child i = s.currentThread with
    | some i => Function.update father.child i 0
    | none => father.child
  let cleared := s.setThread s.current.father { father with child := slots }
  cleared.setThread s.currentThread { cleared.current with point := .finished }

/-- `child[i]` is the first slot of the current thread that holds `id`. -/
def FirstSlot (s : System) (id : Address) (i : Fin 10) : Prop :=
  s.current.child i = id ∧ ∀ j, j < i → s.current.child j ≠ id

/-- The thread was forked and has not finished. -/
def Runnable (s : System) (t : Address) : Prop :=
  (s.thread t).point ≠ .unborn ∧ (s.thread t).point ≠ .finished

/-- What `Run` reports. -/
def dispatch (s : System) (next : Address) : Event :=
  .dispatches next (s.thread next).space.isSome

/-- One stretch of user or kernel code. -/
inductive Step : System → List Event → System → Prop where
  | instruction {s} (change : Registers → Registers) (stands : s.current.point = .user) :
      Step s [] (s.act change .user)
  | trap {s} (stands : s.current.point = .user) : Step s [] (s.act (·.raise 0) .trapped)
  | pageFault {s} (badVAddr : BitVec 32) (stands : s.current.point = .user) :
      Step s [] (s.act (·.raise badVAddr) .serving)
  | exec {s i child} (stands : s.current.point = .trapped) (call : s.registers 2 = SC_Exec)
      (free : s.FirstSlot 0 i) (nonnull : child ≠ 0) (new : (s.thread child).point = .unborn) :
      Step s [] ((s.act (·.write 2 child) .yielding).spawn i child .exec)
  | fork {s i child space} (stands : s.current.point = .trapped) (call : s.registers 2 = SC_Fork)
      (free : s.FirstSlot 0 i) (nonnull : child ≠ 0) (new : (s.thread child).point = .unborn)
      (has : s.current.space = some space) :
      Step s [.forks s.currentThread child] (s.fork i child space)
  | full {s} (stands : s.current.point = .trapped)
      (call : s.registers 2 = SC_Exec ∨ s.registers 2 = SC_Fork)
      (none : ∀ i, s.current.child i ≠ 0) : Step s [] (s.act (·.PCAdvance) .user)
  | yields {s next} (stands : s.current.point = .yielding) (runnable : s.Runnable next) :
      Step s [s.dispatch next] ((s.act id .advancing).Run next)
  | advance {s} (stands : s.current.point = .advancing) : Step s [] (s.act (·.PCAdvance) .user)
  | yield {s next} (stands : s.current.point = .trapped) (call : s.registers 2 = SC_Yield)
      (runnable : s.Runnable next) :
      Step s [s.dispatch next] ((s.act (·.PCAdvance) .user).Run next)
  | join {s} {i : Fin 10} (stands : s.current.point = .trapped) (call : s.registers 2 = SC_Join)
      (listed : s.FirstSlot (s.registers 4) i) : Step s [] (s.act id (.joining i (s.registers 4)))
  | stray {s} (found : Bool) (stands : s.current.point = .trapped) (call : s.registers 2 = SC_Join)
      (unlisted : ∀ i, s.current.child i ≠ s.registers 4) :
      Step s [.strays s.currentThread found]
        (if found then s.act id (.joining 10 (s.registers 4)) else s.act (·.PCAdvance) .user)
  | waits {s i id next} (stands : s.current.point = .joining i id) (present : s.current.slot i ≠ 0)
      (runnable : s.Runnable next) : Step s [s.dispatch next] (s.Run next)
  | joined {s i id} (stands : s.current.point = .joining i id) (gone : s.current.slot i = 0) :
      Step s [] (s.act (·.PCAdvance) .user)
  | exitMain {s} (stands : s.current.point = .trapped) (call : s.registers 2 = SC_Exit)
      (orphan : s.current.father = s.currentThread) : Step s [] (s.act (·.PCAdvance) .user)
  | exit {s} (stands : s.current.point = .trapped) (call : s.registers 2 = SC_Exit)
      (child : s.current.father ≠ s.currentThread) : Step s [.exits s.currentThread] s.exit
  /-- The handler itself touches a page that is not there. -/
  | fault {s} (badVAddr : BitVec 32)
      (stands : s.current.point = .trapped ∨ s.current.point = .serving) :
      Step s [] (s.act (·.raise badVAddr) s.current.point)
  | serve {s} (stands : s.current.point = .trapped)
      (other : s.registers 2 ∉ [SC_Exit, SC_Exec, SC_Join, SC_Fork, SC_Yield]) :
      Step s [] (s.act id .serving)
  | result {s} (value : BitVec 32) (stands : s.current.point = .serving) :
      Step s [] (s.act (·.write 2 value) .serving)
  | served {s} (advances : Bool) (stands : s.current.point = .serving) :
      Step s [] (s.act (fun r => if advances then r.PCAdvance else r) .user)
  | opens {s} (space : AddrSpace) (stands : s.current.point = .exec) :
      Step s [.loads s.currentThread] (s.load space)
  | fails {s} (stands : s.current.point = .exec) :
      Step s [.fails s.currentThread] (s.setThread s.currentThread { s.current with point := .finished })
  | begins {s pc space} (stands : s.current.point = .forkFunc pc space) :
      Step s [.begins s.currentThread] (s.fork_func pc space)
  /-- A handler is called. -/
  | interrupt {s} : Step s [] (s.act (·.DelayedLoad) s.current.point)
  /-- The timer takes the processor from a user program. -/
  | preempts {s next} (stands : s.current.point = .user) (runnable : s.Runnable next) :
      Step s [s.dispatch next] ((s.act (·.DelayedLoad) .user).Run next)
  /-- The kernel code of a thread sleeps, yields or has finished. -/
  | switches {s next} (kernel : s.current.point ≠ .user) (runnable : s.Runnable next) :
      Step s [s.dispatch next] (s.Run next)

/-- The main thread is about to start a program, and there are no other threads. -/
structure Boots (s : System) : Prop where
  main : s.current.point = .exec
  nonnull : s.currentThread ≠ 0
  alone (t : Address) : t ≠ s.currentThread → (s.thread t).point = .unborn
  unborn (t : Address) : (s.thread t).space = none ∧ (∀ i, (s.thread t).child i = 0) ∧
    (s.thread t).father = t
  unsaved (t : Address) : s.saved t = false

end System

end Nachos.Userprog
