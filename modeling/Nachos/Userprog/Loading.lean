import Nachos.Filesys.FileSystem
import Nachos.Userprog.Paging

/-! The constructor of `AddrSpace` (`userprog/addrspace.cc`): it sizes the address
space from the header of a NOFF file (`bin/noff.h`) and copies two segments of that
file, a byte at a time, into the file `virtual_memory`. The host is little-endian:
`WordToHost` is the identity there and `SwapHeader` never runs. -/
namespace Nachos.Loading
open Effects Machine
open Paging (AddrSpace BackingFile blankTable)

structure Segment where
  virtualAddr : BitVec 32
  inFileAddr : BitVec 32
  size : BitVec 32
deriving DecidableEq

structure NoffHeader where
  noffMagic : BitVec 32
  code : Segment
  initData : Segment
  uninitData : Segment
deriving DecidableEq

/-- `sizeof(NoffHeader)`. -/
def noffSize : Nat := 40

def NOFFMAGIC : BitVec 32 := 0xbadfad

/-- `#define UserStackSize 1024`. -/
def UserStackSize : Nat := 1024

/-- A `Segment` in the bytes of a file. -/
def Segment.ofBytes (bytes : Memory) (start : Nat) : Segment where
  virtualAddr := bytes.word start
  inFileAddr := bytes.word (start + 4)
  size := bytes.word (start + 8)

def NoffHeader.ofBytes (bytes : Memory) : NoffHeader where
  noffMagic := bytes.word 0
  code := .ofBytes bytes 4
  initData := .ofBytes bytes 16
  uninitData := .ofBytes bytes 28

/-- The sum of the sizes and the stack, in unsigned arithmetic. -/
def NoffHeader.size (noffH : NoffHeader) : BitVec 32 :=
  noffH.code.size + noffH.initData.size + noffH.uninitData.size + BitVec.ofNat 32 UserStackSize

/-- `divRoundUp(size, PageSize)`. -/
def NoffHeader.numPages (noffH : NoffHeader) : BitVec 32 :=
  noffH.size / 128 + if 0 < noffH.size % 128 then 1 else 0

/-- The name `"virtual_memory"`. -/
def virtualMemory : Name :=
  [118, 105, 114, 116, 117, 97, 108, 95, 109, 101, 109, 111, 114, 121]

/-- The loop that copies a segment: `pos1++` and `pos2++` are `int`s, and neither
result is looked at. -/
def copySegment (executable openfile : OpenFile) (segment : Segment) : Kernel (OpenFile × OpenFile) :=
  if 0 < segment.size.toInt then do
    let currentChar ← uninitialized
    let (executable, openfile, _) ← Program.loop segment.size.toNat
      (fun j (executable, openfile, currentChar) => do
        let (_, currentChar, executable) ←
          executable.ReadAt currentChar 1 (segment.inFileAddr + BitVec.ofNat 32 j).toInt
        let (_, openfile) ← openfile.WriteAt currentChar 1 (segment.virtualAddr + BitVec.ofNat 32 j).toInt
        return (executable, openfile, currentChar))
      (executable, openfile, currentChar)
    return (executable, openfile)
  else return (executable, openfile)

/-- The part of the constructor that fills `virtual_memory`. -/
def loadSegments (fs : FileSystem) (executable : OpenFile) (noffH : NoffHeader) :
    Kernel (OpenFile × FileSystem) := do
  match ← fs.Open virtualMemory with
  | (none, _) => .stop .assertion
  | (some openfile, fs) =>
    let (executable, openfile) ← copySegment executable openfile noffH.code
    let (executable, openfile) ← copySegment executable openfile noffH.initData
    openfile.delete
    return (executable, fs)

/-- `AddrSpace::AddrSpace`. Whether `Create` made a file is not looked at. -/
def newAddrSpace (fs : FileSystem) (executable : OpenFile) :
    Kernel (AddrSpace × OpenFile × FileSystem) := do
  let storage ← uninitialized
  let (_, bytes, executable) ← executable.ReadAt storage noffSize 0
  let noffH := NoffHeader.ofBytes bytes
  ASSERT (noffH.noffMagic == NOFFMAGIC)
  ASSERT (decide (noffH.numPages ≤ BitVec.ofNat 32 NumPhysPages))
  let (_, fs) ← fs.Create virtualMemory (noffH.numPages * 128).toInt
  let (executable, fs) ← loadSegments fs executable noffH
  return ({ pageTable := blankTable, numPages := noffH.numPages }, executable, fs)

/-- `virtual_memory` as a page fault opens it, and one byte of it. -/
def readBack (fs : FileSystem) (position : Nat) : Kernel (Int × UInt8) := do
  match ← fs.Open virtualMemory with
  | (none, _) => .stop .assertion
  | (some openfile, _) =>
    let storage ← uninitialized
    let (count, bytes, openfile) ← openfile.ReadAt storage 1 position
    openfile.delete
    return (count, bytes 0)

end Nachos.Loading
