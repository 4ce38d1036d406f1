import Mathlib.Logic.Function.Basic
import Mathlib.Data.Fin.Basic
import Nachos.Effects.Bytes

/-! User memory: translation with a page table and no TLB
(`machine/translate.cc`), and the bitmap of physical frames
(`machine/machine.cc`). -/
namespace Nachos.Machine
open Effects

abbrev PageSize : Nat := 128
abbrev NumPhysPages : Nat := 64
abbrev MemorySize : Nat := NumPhysPages * PageSize

inductive ExceptionType where
  | SyscallException | PageFaultException | ReadOnlyException | BusErrorException
  | AddressErrorException | OverflowException | IllegalInstrException
deriving DecidableEq, Repr

/-- How a call ends; `aborts` is a failed `ASSERT`. -/
inductive Outcome (α : Type) where
  | done (result : α)
  | raises (exception : ExceptionType)
  | aborts
deriving DecidableEq, Repr

structure TranslationEntry where
  virtualPage : BitVec 32
  physicalPage : BitVec 32
  valid : Bool
  readOnly : Bool
  use : Bool
  dirty : Bool

/-- `AddrSpace` makes every table as long as there are frames. -/
abbrev PageTable := Fin NumPhysPages → TranslationEntry

/-- The loop of `Translate`: the last entry for the page. -/
def PageTable.search (table : PageTable) (vpn : Nat) : Option (Fin NumPhysPages) :=
  (List.finRange NumPhysPages).foldl
    (fun pos i => if (table i).virtualPage.toNat = vpn then some i else pos) none

/-- `Machine::Translate`: the physical address, and the table with the bits of the
entry set. -/
def Translate (table : PageTable) (pageTableSize virtAddr : BitVec 32) (size : Nat) (writing : Bool) :
    Outcome (Nat × PageTable) :=
  if (size = 4 ∧ virtAddr &&& 3 ≠ 0) ∨ (size = 2 ∧ virtAddr &&& 1 ≠ 0) then
    .raises .AddressErrorException
  else
    let vpn := virtAddr.toNat / PageSize
    let offset := virtAddr.toNat % PageSize
    if pageTableSize.toNat ≤ vpn then .raises .AddressErrorException
    else
      match table.search vpn with
      | none => .raises .PageFaultException
      | some pos =>
        let entry := table pos
        if entry.readOnly && writing then .raises .ReadOnlyException
        else if NumPhysPages ≤ entry.physicalPage.toNat then .raises .BusErrorException
        else
          let physAddr := entry.physicalPage.toNat * PageSize + offset
          if physAddr + size ≤ MemorySize then
            .done (physAddr, Function.update table pos
              { entry with use := true, dirty := entry.dirty || writing })
          else .aborts

/-- The value at an address as `ReadMem` extends it: a `char` is signed, an
`unsigned short` is not. -/
def fetch (memory : Memory) (i : Nat) : Nat → Option (BitVec 32)
  | 1 => some ((memory i).toBitVec.signExtend 32)
  | 2 => some (((memory (i + 1)).toBitVec ++ (memory i).toBitVec).setWidth 32)
  | 4 => some (memory.word i)
  | _ => none

/-- What `WriteMem` stores at an address. -/
def store (memory : Memory) (i : Nat) (value : BitVec 32) : Nat → Option Memory
  | 1 => some (memory.splice i 1 (Memory.wordByte value))
  | 2 => some (memory.splice i 2 (Memory.wordByte value))
  | 4 => some (memory.setWord i value)
  | _ => none

/-- `Machine::ReadMem`. -/
def ReadMem (mainMemory : Memory) (table : PageTable) (pageTableSize addr : BitVec 32) (size : Nat) :
    Outcome (BitVec 32 × PageTable) :=
  match Translate table pageTableSize addr size false with
  | .raises exception => .raises exception
  | .aborts => .aborts
  | .done (physicalAddress, table) =>
    match fetch mainMemory physicalAddress size with
    | some value => .done (value, table)
    | none => .aborts

/-- `Machine::WriteMem`. -/
def WriteMem (mainMemory : Memory) (table : PageTable) (pageTableSize addr : BitVec 32) (size : Nat)
    (value : BitVec 32) : Outcome (Memory × PageTable) :=
  match Translate table pageTableSize addr size true with
  | .raises exception => .raises exception
  | .aborts => .aborts
  | .done (physicalAddress, table) =>
    match store mainMemory physicalAddress value size with
    | some mainMemory => .done (mainMemory, table)
    | none => .aborts

/-- `Bitmap`: the frames that are taken. -/
abbrev Bitmap := Fin NumPhysPages → Bool

/-- `Bitmap::find`; `none` is -1. -/
def Bitmap.find (map : Bitmap) : Option (Fin NumPhysPages) × Bitmap :=
  match (List.finRange NumPhysPages).find? fun i => !map i with
  | some out => (some out, Function.update map out true)
  | none => (none, map)

end Nachos.Machine
