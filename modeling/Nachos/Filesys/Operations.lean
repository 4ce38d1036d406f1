import Nachos.Filesys.KernelLogic

/-! Runs of the file system. A session keeps the file system and the handles a
single thread has opened; each call runs to completion on the cached disk
before the next one starts. A run starts with formatting a disk whose cache is
empty and whose open counters are zero. -/
namespace Nachos
open Effects

/-- The calls a program makes. Handles are numbered in the order of opening. -/
inductive Call where
  | create (name : Name) (initialSize : Int)
  | openFile (name : Name)
  | read (handle : Nat) (into : Memory) (numBytes : Int)
  | write (handle : Nat) (source : Memory) (numBytes : Int)
  | seek (handle : Nat) (position : Int)
  | close (handle : Nat)
  | remove (name : Name)
  | writepipe (data : Memory) (size : Int) (name : Name)
  | readpipe (buffer : Memory) (name : Name)

/-- What a call returns, buffers included. -/
inductive Reply where
  | flag (success : Bool)
  | handle (opened : Option Nat)
  | count (n : Int)
  | bytes (n : Int) (buffer : Memory)
  | nothing

/-- The file system and the handles opened so far; a closed one is `none`. -/
structure Session where
  fs : FileSystem
  handles : List (Option OpenFile)

namespace Session

def file (session : Session) (handle : Nat) : Option OpenFile := (session.handles[handle]?).join

def setFile (session : Session) (handle : Nat) (file : Option OpenFile) : Session :=
  { session with handles := session.handles.set handle file }

/-- Use an open handle. Going through one that was never opened, or is already
deleted, is undefined. -/
def through {A : Type} (session : Session) (handle : Nat) (use : OpenFile → Kernel A) : Kernel A :=
  match session.file handle with
  | some file => use file
  | none => undefinedBehaviour

end Session

/-- One call, from its start to its return. -/
def Call.perform (session : Session) : Call → Kernel (Reply × Session)
  | .create name initialSize => do
    let (success, fs) ← session.fs.Create name initialSize
    return (.flag success, { session with fs := fs })
  | .openFile name => do
    match ← session.fs.Open name with
    | (some file, fs) =>
      return (.handle (some session.handles.length),
        { fs := fs, handles := session.handles ++ [some file] })
    | (none, fs) => return (.handle none, { session with fs := fs })
  | .read handle into numBytes =>
    session.through handle fun file => do
      let (count, buffer, file) ← file.Read into numBytes
      return (.bytes count buffer, session.setFile handle (some file))
  | .write handle source numBytes =>
    session.through handle fun file => do
      let (count, file) ← file.Write source numBytes
      return (.count count, session.setFile handle (some file))
  | .seek handle position =>
    session.through handle fun file =>
      return (.nothing, session.setFile handle (some (file.Seek position)))
  | .close handle =>
    session.through handle fun file => do
      file.delete
      return (.nothing, session.setFile handle none)
  | .remove name => do
    let (success, fs) ← session.fs.Remove name
    return (.flag success, { session with fs := fs })
  | .writepipe data size name => do
    let (count, fs) ← session.fs.Writepipe data size name
    return (.count count, { session with fs := fs })
  | .readpipe buffer name => do
    let (count, buffer, fs) ← session.fs.Readpipe buffer name
    return (.bytes count buffer, { session with fs := fs })

/-- The kernel between two calls. -/
structure System where
  session : Session
  machine : SynchDisk

namespace System

def disk (system : System) : Disk := system.machine.disk

def counters (system : System) : Counters := system.machine.visNum

/-- One completed call. -/
def Step (system : System) (call : Call) (reply : Reply) (after : System) : Prop :=
  (call.perform system.session).run SynchDisk.handle system.machine =
    .done (reply, after.session) after.machine

/-- A machine on which nothing has run: no cache line is valid and no handle is
counted. The sectors, the other cache fields and the uninitialised storage are
arbitrary. -/
structure Blank (machine : SynchDisk) : Prop where
  cache : ∀ i, (machine.cache i).valid = false
  counters : ∀ s, machine.visNum s = 0

/-- `Runs allowed trace system`: formatting a blank machine and then making the
calls of `trace`, each allowed where it was made and with its reply, leads to
`system`. -/
inductive Runs (allowed : System → Call → Reply → Prop) : List (Call × Reply) → System → Prop where
  | boot {machine after : SynchDisk} {fs : FileSystem} (blank : Blank machine)
      (formatted : FileSystem.format.run SynchDisk.handle machine = .done fs after) :
      Runs allowed [] { session := { fs := fs, handles := [] }, machine := after }
  | step {trace : List (Call × Reply)} {system after : System} {call : Call} {reply : Reply}
      (before : Runs allowed trace system) (permitted : allowed system call reply)
      (taken : system.Step call reply after) : Runs allowed (trace ++ [(call, reply)]) after

end System

/-- What kernel code does over the plain store it does over the cached disk, and
the cache stays coherent. -/
theorem wp_on_machine {A : Type} {program : Kernel A} {post : A → Disk → Counters → Prop}
    {fault : Fault → Prop} {machine : SynchDisk}
    (coherent : machine.cache.Coherent machine.disk)
    (holds : Program.wp Store.handle program (fun value after => post value after.disk after.visNum)
      (fun reason _ => fault reason)
      { disk := machine.disk, visNum := machine.visNum, supply := machine.supply }) :
    match program.run SynchDisk.handle machine with
    | .done value after => post value after.disk after.visNum ∧ after.cache.Coherent after.disk
    | .stopped reason _ => fault reason := by
  have represents : machine.Represents
      { disk := machine.disk, visNum := machine.visNum, supply := machine.supply } :=
    ⟨rfl, rfl, rfl, coherent⟩
  have same := Program.run_simulates cached_simulates_store program represents
  unfold Program.wp at holds
  cases answer : program.run SynchDisk.handle machine with
  | done value after =>
    cases expected : program.run Store.handle
        { disk := machine.disk, visNum := machine.visNum, supply := machine.supply } with
    | done value' after' =>
      rw [answer, expected] at same
      rw [expected] at holds
      obtain ⟨rfl, still⟩ := same
      dsimp only at holds ⊢
      rw [still.disk, still.visNum]
      exact ⟨holds, still.coherent⟩
    | stopped reason after' =>
      rw [answer, expected] at same
      exact same.elim
  | stopped reason after =>
    cases expected : program.run Store.handle
        { disk := machine.disk, visNum := machine.visNum, supply := machine.supply } with
    | done value' after' =>
      rw [answer, expected] at same
      exact same.elim
    | stopped reason' after' =>
      rw [answer, expected] at same
      rw [expected] at holds
      dsimp only at holds ⊢
      rw [same.1]
      exact holds

theorem ensures_on_machine {A : Type} {program : Kernel A} {post : A → Disk → Counters → Prop}
    {fault : Fault → Prop} {machine : SynchDisk}
    (coherent : machine.cache.Coherent machine.disk)
    (holds : Ensures program post fault machine.disk machine.visNum) :
    match program.run SynchDisk.handle machine with
    | .done value after => post value after.disk after.visNum ∧ after.cache.Coherent after.disk
    | .stopped reason _ => fault reason :=
  wp_on_machine coherent (ensures_iff.mp holds machine.supply)

/-- Code that may not stop returns. -/
theorem ensures_returns {A : Type} {program : Kernel A} {post : A → Disk → Counters → Prop}
    {machine : SynchDisk} (coherent : machine.cache.Coherent machine.disk)
    (holds : Ensures program post (fun _ => False) machine.disk machine.visNum) :
    ∃ value after, program.run SynchDisk.handle machine = .done value after ∧
      post value after.disk after.visNum ∧ after.cache.Coherent after.disk := by
  have result := ensures_on_machine coherent holds
  cases ended : program.run SynchDisk.handle machine with
  | done value after =>
    rw [ended] at result
    exact ⟨value, after, rfl, result⟩
  | stopped reason after =>
    rw [ended] at result
    exact result.elim

/-- A completed run satisfies its postcondition. -/
theorem ensures_done {A : Type} {program : Kernel A} {post : A → Disk → Counters → Prop}
    {fault : Fault → Prop} {machine after : SynchDisk} {value : A}
    (coherent : machine.cache.Coherent machine.disk)
    (ended : program.run SynchDisk.handle machine = .done value after)
    (holds : Ensures program post fault machine.disk machine.visNum) :
    post value after.disk after.visNum ∧ after.cache.Coherent after.disk := by
  have result := ensures_on_machine coherent holds
  rw [ended] at result
  exact result

end Nachos
