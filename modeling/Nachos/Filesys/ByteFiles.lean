import Nachos.Filesys.Operations

/-! What the file system is for: a finite map from names to byte strings, with
handles that carry a position. The state is a function of the calls and replies
seen so far (`next`); `Allows` says which replies a user of such a map may get.
Bytes nobody has written since the file was created are unconstrained. -/
namespace Nachos.ByteFiles
open Effects

/-- A byte string of which only the written bytes are known. -/
structure File where
  length : Nat
  written : Nat → Option UInt8

/-- The files by name, and the name and position of every handle opened so far;
a closed one is `none`. -/
structure State where
  files : Name → Option File
  handles : List (Option (Name × Nat))

def empty : State where
  files := fun _ => none
  handles := []

namespace File

def created (size : Nat) : File where
  length := size
  written := fun _ => none

/-- `count` bytes of `source` are written at `pos`. -/
def store (file : File) (pos count : Nat) (source : Memory) : File where
  length := if 0 < count then max file.length (pos + count) else file.length
  written := fun o => if pos ≤ o ∧ o < pos + count then some (source (o - pos)) else file.written o

end File

namespace State

def handle (state : State) (i : Nat) : Option (Name × Nat) := (state.handles[i]?).join

def setHandle (state : State) (i : Nat) (slot : Option (Name × Nat)) : State :=
  { state with handles := state.handles.set i slot }

/-- The name and position of an open handle, and its file. -/
def At (state : State) (i : Nat) (name : Name) (pos : Nat) (file : File) : Prop :=
  state.handle i = some (name, pos) ∧ state.files name = some file

/-- Some handle is open on the name. -/
def Busy (state : State) (name : Name) : Prop := ∃ i pos, state.handle i = some (name, pos)

end State

/-- The effect of a call that returned with this reply. -/
def next (state : State) : Call → Reply → State
  | .create name size, .flag true =>
    { state with files := Function.update state.files name (some (.created size.toNat)) }
  | .openFile name, .handle (some _) =>
    { state with handles := state.handles ++ [some (name, 0)] }
  | .read i _ _, .bytes count _ =>
    match state.handle i with
    | some (name, pos) => state.setHandle i (some (name, pos + count.toNat))
    | none => state
  | .write i source n, .count _ =>
    match state.handle i with
    | some (name, pos) =>
      { state.setHandle i (some (name, pos + n.toNat)) with
        files := Function.update state.files name
          ((state.files name).map fun file => file.store pos n.toNat source) }
    | none => state
  | .seek i position, _ =>
    match state.handle i with
    | some (name, _) => state.setHandle i (some (name, position.toNat))
    | none => state
  | .close i, _ => state.setHandle i none
  | .remove name, .flag true => { state with files := Function.update state.files name none }
  | _, _ => state

/-- The replies a call may get. `Create` may always refuse; `Remove` succeeds
exactly on files that are not open. -/
def Allows (state : State) : Call → Reply → Prop
  | .create name _, .flag success => success = true → state.files name = none
  | .openFile name, .handle opened =>
    opened = if (state.files name).isSome then some state.handles.length else none
  | .read i into n, .bytes count buffer => ∃ name pos file, state.At i name pos file ∧
      count = (min n.toNat (file.length - pos) : Nat) ∧
      (∀ j b, j < count.toNat → file.written (pos + j) = some b → buffer j = b) ∧
      ∀ j, count.toNat ≤ j → buffer j = into j
  | .write i _ n, .count count => (∃ name pos file, state.At i name pos file) ∧ count = n.toNat
  | .seek i _, .nothing => ∃ name pos file, state.At i name pos file
  | .close i, .nothing => ∃ name pos file, state.At i name pos file
  | .remove name, .flag success => success = true ↔
      (state.files name).isSome ∧ ¬ state.Busy name
  | _, _ => False

/-- The calls and replies a user of the map can see, and the state they lead to. -/
inductive Runs : List (Call × Reply) → State → Prop where
  | start : Runs [] empty
  | step {trace : List (Call × Reply)} {state : State} {call : Call} {reply : Reply}
      (before : Runs trace state) (allowed : Allows state call reply) :
      Runs (trace ++ [(call, reply)]) (next state call reply)

end Nachos.ByteFiles
