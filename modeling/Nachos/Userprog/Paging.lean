import Nachos.Machine.Translate

/-! Demand paging without a TLB: the address space of a program
(`userprog/addrspace.cc`) and the page fault handler
(`userprog/exception.cc`). The file `virtual_memory` is a byte array that can grow
at its end. -/
namespace Nachos.Paging
open Effects Machine

/-- The file `virtual_memory`. -/
structure BackingFile where
  length : Nat
  bytes : Memory

namespace BackingFile

/-- `ReadAt(&into[start], numBytes, position)`. -/
def ReadAt (file : BackingFile) (into : Memory) (start numBytes position : Nat) : Memory :=
  if file.length < position then into
  else into.splice start (min numBytes (file.length - position)) fun k => file.bytes (position + k)

/-- `WriteAt(source, numBytes, position)`. -/
def WriteAt (file : BackingFile) (source : Memory) (numBytes position : Nat) : BackingFile :=
  if numBytes = 0 ∨ file.length < position then file
  else
    { length := max file.length (position + numBytes)
      bytes := file.bytes.splice position numBytes source }

end BackingFile

structure AddrSpace where
  pageTable : PageTable
  numPages : BitVec 32

/-- The table a new address space starts with. -/
def blankTable : PageTable := fun i =>
  { virtualPage := -1, physicalPage := BitVec.ofNat 32 i, valid := false, readOnly := false
    use := false, dirty := false }

/-! ## The page fault handler -/

/-- The entry that the eviction loop stops at. -/
def AddrSpace.victim (space : AddrSpace) : Option (Fin NumPhysPages) :=
  (List.finRange NumPhysPages).find? fun j => decide (j.val < space.numPages.toNat) &&
    decide ((space.pageTable j).physicalPage = 0) && (space.pageTable j).dirty

/-- No frame is free: frame 0 is taken, and written back if it is dirty. -/
def evict (space : AddrSpace) (mainMemory : Memory) (file : BackingFile) : AddrSpace × BackingFile :=
  match space.victim with
  | some j =>
    ({ space with
        pageTable := Function.update space.pageTable j { space.pageTable j with valid := false } },
      file.WriteAt mainMemory PageSize ((space.pageTable j).virtualPage.toNat * PageSize))
  | none => (space, file)

/-- The page is read into the frame. -/
def fill (mainMemory : Memory) (file : BackingFile) (vpn : Nat) (pos : Fin NumPhysPages) : Memory :=
  file.ReadAt mainMemory (pos * PageSize) PageSize (vpn * PageSize)

/-- The entry of the frame is set. -/
def AddrSpace.mapPage (space : AddrSpace) (vpn : Nat) (pos : Fin NumPhysPages) : AddrSpace :=
  { space with
    pageTable := Function.update space.pageTable pos
      { space.pageTable pos with
        valid := true, virtualPage := BitVec.ofNat 32 vpn, use := false, dirty := false
        readOnly := false } }

/-- One address space on the machine. -/
structure Paged where
  mainMemory : Memory
  bitmap : Bitmap
  space : AddrSpace
  file : BackingFile

namespace Paged

/-- `ExceptionHandler(PageFaultException)`, without a TLB. -/
def PageFault (m : Paged) (badVAddr : BitVec 32) : Paged :=
  let vpn := badVAddr.toNat / PageSize
  match m.bitmap.find with
  | (some pos, bitmap) =>
    { m with
      mainMemory := fill m.mainMemory m.file vpn pos
      bitmap := bitmap
      space := m.space.mapPage vpn pos }
  | (none, bitmap) =>
    let (space, file) := evict m.space m.mainMemory m.file
    { mainMemory := fill m.mainMemory file vpn 0
      bitmap := bitmap
      space := space.mapPage vpn 0
      file := file }

end Paged

/-! ## Accesses -/

inductive Access where
  | read (addr : BitVec 32) (size : Nat)
  | write (addr : BitVec 32) (size : Nat) (value : BitVec 32)

def Access.addr : Access → BitVec 32
  | .read addr _ | .write addr _ _ => addr

def Access.size : Access → Nat
  | .read _ size | .write _ size _ => size

/-- What the caller of `ReadMem` or `WriteMem` gets. -/
inductive Reply where
  | value (value : BitVec 32)
  | stored
  | raised (exception : ExceptionType)
  | aborted
deriving DecidableEq, Repr

namespace Paged

/-- One call of `ReadMem` or `WriteMem`. -/
def attempt (m : Paged) : Access → Reply × Paged
  | .read addr size =>
    match ReadMem m.mainMemory m.space.pageTable m.space.numPages addr size with
    | .done (value, table) => (.value value, { m with space := { m.space with pageTable := table } })
    | .raises exception => (.raised exception, m)
    | .aborts => (.aborted, m)
  | .write addr size value =>
    match WriteMem m.mainMemory m.space.pageTable m.space.numPages addr size value with
    | .done (mainMemory, table) =>
      (.stored, { m with mainMemory := mainMemory, space := { m.space with pageTable := table } })
    | .raises exception => (.raised exception, m)
    | .aborts => (.aborted, m)

/-- The access is tried so many times, with the page fault handler in between; `none`
if it still faults. -/
def perform (m : Paged) (access : Access) : Nat → Option (Reply × Paged)
  | 0 => none
  | tries + 1 =>
    match m.attempt access with
    | (.raised .PageFaultException, m) => (m.PageFault access.addr).perform access tries
    | answered => some answered

/-- A sequence of accesses, each tried so many times. -/
def performAll (tries : Nat) (m : Paged) : List Access → Option (List Reply × Paged)
  | [] => some ([], m)
  | access :: rest => do
    let (reply, m) ← m.perform access tries
    let (replies, m) ← performAll tries m rest
    return (reply :: replies, m)

/-- A program is loaded on a machine that has just booted. -/
structure Fresh (m : Paged) : Prop where
  bitmap (i : Fin NumPhysPages) : m.bitmap i = false
  table : m.space.pageTable = blankTable
  fits : m.space.numPages.toNat ≤ NumPhysPages
  file : m.file.length = m.space.numPages.toNat * PageSize

end Paged

/-! ## A flat memory -/

/-- The address is not a multiple of the size, or lies outside the memory. -/
def Access.Illegal (access : Access) (length : Nat) : Prop :=
  access.addr.toNat % access.size ≠ 0 ∨ length ≤ access.addr.toNat

instance (access : Access) (length : Nat) : Decidable (access.Illegal length) :=
  inferInstanceAs (Decidable (_ ∨ _))

/-- An access to a byte array. -/
def flatAccess (length : Nat) (bytes : Memory) (access : Access) : Reply × Memory :=
  if access.Illegal length then (.raised .AddressErrorException, bytes)
  else
    match access with
    | .read addr size =>
      match fetch bytes addr.toNat size with
      | some value => (.value value, bytes)
      | none => (.aborted, bytes)
    | .write addr size value =>
      match store bytes addr.toNat value size with
      | some bytes => (.stored, bytes)
      | none => (.aborted, bytes)

def flatAccesses (length : Nat) (bytes : Memory) : List Access → List Reply × Memory
  | [] => ([], bytes)
  | access :: rest =>
    let (reply, bytes) := flatAccess length bytes access
    let (replies, bytes) := flatAccesses length bytes rest
    (reply :: replies, bytes)

end Nachos.Paging
