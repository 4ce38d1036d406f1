import Nachos.Filesys.BitMap

/-! `FileHeader` (`filesys/filehdr.cc`): the i-node. The object is exactly one
sector and is read and written as raw bytes, so it is modelled by those bytes
with a named accessor for each field:

    offset   0  numBytes          offset  49  create_time[25]
    offset   4  numSectors        offset  74  last_v_time[25]
    offset   8  dataSectors[9]    offset  99  last_m_time[25]
    offset  44  type[5]           offset 124  sectorNumber

An index past the end of one field therefore lands in the next one, as it does
in the compiled object. -/
namespace Nachos
open Effects

/-- `#define NumDirect ((SectorSize - 2 * sizeof(int) - 84) / sizeof(int))`. -/
@[simp] def NumDirect : Nat := (SectorSize - 2 * 4 - 84) / 4

/-- Conversion to the unsigned type `NumDirect` has. -/
def toUnsigned (n : Int) : Nat := (n % 4294967296).toNat

structure FileHeader where
  raw : Sector

namespace FileHeader

def mem (hdr : FileHeader) : Memory := hdr.raw.mem

def field (hdr : FileHeader) (offset : Nat) : Int := (hdr.mem.word offset).toInt

def setField (hdr : FileHeader) (offset : Nat) (value : Int) : FileHeader :=
  ⟨.of (hdr.mem.setWord offset (BitVec.ofInt 32 value))⟩

def splice (hdr : FileHeader) (offset count : Nat) (source : Memory) : FileHeader :=
  ⟨.of (hdr.mem.splice offset count source)⟩

def numBytes (hdr : FileHeader) : Int := hdr.field 0

def numSectors (hdr : FileHeader) : Int := hdr.field 4

def dataSectors (hdr : FileHeader) (i : Nat) : Int := hdr.field (8 + 4 * i)

def sectorNumber (hdr : FileHeader) : Int := hdr.field 124

def setNumBytes (hdr : FileHeader) (n : Int) : FileHeader := hdr.setField 0 n

def setNumSectors (hdr : FileHeader) (n : Int) : FileHeader := hdr.setField 4 n

/-- `dataSectors[i] = sector`, for any `i` that stays inside the object. -/
def setDataSectors (hdr : FileHeader) (i : Nat) (sector : Int) : FileHeader :=
  hdr.setField (8 + 4 * i) sector

def setSectorNumber (hdr : FileHeader) (sector : Int) : FileHeader := hdr.setField 124 sector

/-- `new FileHeader`: nothing is initialised. -/
def new : Kernel FileHeader := do
  let storage ← uninitialized
  return ⟨.of storage⟩

def FetchFrom (sector : Int) : Kernel FileHeader := do
  let raw ← ReadSector sector
  return ⟨raw⟩

def WriteBack (hdr : FileHeader) (sector : Int) : Kernel Unit := WriteSector sector hdr.raw

def FileLength (hdr : FileHeader) : Int := hdr.numBytes

def SetLength (hdr : FileHeader) (size : Int) : FileHeader := hdr.setNumBytes size

/-- The three clock texts of a header. -/
inductive TimeMode where
  | create
  | visit
  | modify

def TimeMode.offset : TimeMode → Nat
  | .create => 49
  | .visit => 74
  | .modify => 99

/-- `SetTime`: 24 characters of `asctime` and a terminator. -/
def SetTime (hdr : FileHeader) (mode : TimeMode) : Kernel FileHeader := do
  let text ← uninitialized
  return hdr.splice mode.offset 25 fun k => if k < 24 then text k else 0

/-- `for (i = first; i < first + count; i++) dataSectors[i] = bitmap->Find();`
Slot 30 and up lie outside the object. -/
def takeSectors (hdr : FileHeader) (bitmap : BitMap) (first count : Nat) :
    Except Fault (FileHeader × BitMap) :=
  (List.range count).foldlM (fun (hdr, bitmap) i => do
    let (sector, bitmap) ← bitmap.Find
    if first + i < 30 then return (hdr.setDataSectors (first + i) sector, bitmap)
    else throw .undefined) (hdr, bitmap)

/-- The loop that fills `int indirect_idx[32]`. -/
def takeIndirect (indirect : Memory) (bitmap : BitMap) (count : Nat) :
    Except Fault (Memory × BitMap) :=
  (List.range count).foldlM (fun (indirect, bitmap) i => do
    let (sector, bitmap) ← bitmap.Find
    return (indirect.setWord (4 * i) (BitVec.ofInt 32 sector), bitmap)) (indirect, bitmap)

/-- `FileHeader::Allocate`. Only the data sectors are checked for, not the
indirect block a file of nine or more sectors also needs. -/
def Allocate (hdr : FileHeader) (freeMap : BitMap) (fileSize : Int) :
    Kernel (Bool × FileHeader × BitMap) := do
  let numSectors := divRoundUp fileSize SectorSize
  let hdr := (hdr.setNumBytes fileSize).setNumSectors numSectors
  if (← checked freeMap.NumClear) < numSectors then
    return (false, hdr, freeMap)
  if toUnsigned numSectors < NumDirect then
    let (bigBlock, freeMap) ← checked (freeMap.myFind numSectors)
    if bigBlock ≠ -1 then
      let hdr := (List.range numSectors.toNat).foldl
        (fun hdr i => hdr.setDataSectors i (bigBlock + i)) hdr
      return (true, hdr, freeMap)
    else
      let (hdr, freeMap) ← checked (hdr.takeSectors freeMap 0 numSectors.toNat)
      return (true, hdr, freeMap)
  else
    let (hdr, freeMap) ← checked (hdr.takeSectors freeMap 0 NumDirect)
    let count := toUnsigned (numSectors - NumDirect + 1)
    if 32 < count then
      undefinedBehaviour
    else
      let indirectIdx ← uninitialized
      let (indirectIdx, freeMap) ← checked (takeIndirect indirectIdx freeMap count)
      WriteSector (hdr.dataSectors (NumDirect - 1)) (.of indirectIdx)
      return (true, hdr, freeMap)

/-- `FileHeader::Deallocate`. The indirect block is read as `char`s, so only
the low byte of each entry is looked at, with its sign. -/
def Deallocate (hdr : FileHeader) (freeMap : BitMap) : Kernel BitMap := do
  if toUnsigned hdr.numSectors < NumDirect then
    checked <| (List.range hdr.numSectors.toNat).foldlM (fun freeMap i => do
      if ← freeMap.Test (hdr.dataSectors i) then freeMap.Clear (hdr.dataSectors i)
      else throw .assertion) freeMap
  else
    let indirectIdx ← ReadSector (hdr.dataSectors (NumDirect - 1))
    let count := toUnsigned (hdr.numSectors - NumDirect + 1)
    if 32 < count then
      undefinedBehaviour
    else
      let freeMap ← checked <| (List.range count).foldlM
        (fun freeMap i => freeMap.Clear (signedChar (indirectIdx.mem (i * 4)))) freeMap
      checked <| (List.range NumDirect).foldlM
        (fun freeMap i => freeMap.Clear (hdr.dataSectors i)) freeMap

/-- `FileHeader::ByteToSector`, with the unsigned comparison the code makes. -/
def ByteToSector (hdr : FileHeader) (offset : Int) : Kernel Int := do
  if toUnsigned offset < (NumDirect - 1) * SectorSize then
    return hdr.dataSectors (offset.toNat / SectorSize)
  else
    let tmpOffset := (toUnsigned offset - (NumDirect - 1) * SectorSize) / SectorSize
    let indirectIdx ← ReadSector (hdr.dataSectors (NumDirect - 1))
    if tmpOffset * 4 < SectorSize then return signedChar (indirectIdx.mem (tmpOffset * 4))
    else undefinedBehaviour

/-- `FileHeader::Extend`: the new length is recorded before the space for it
is known to exist, and new sectors always go into `dataSectors`. A length that
no `int` holds is undefined behaviour. -/
def Extend (hdr : FileHeader) (bitmap : BitMap) (size : Int) :
    Except Fault (Bool × FileHeader × BitMap) := do
  let numBytes := hdr.numBytes + size
  if 2147483648 ≤ numBytes then
    throw .undefined
  let oldSectors := hdr.numSectors
  let numSectors := divRoundUp numBytes SectorSize
  let hdr := (hdr.setNumBytes numBytes).setNumSectors numSectors
  if oldSectors = numSectors then
    return (true, hdr, bitmap)
  if (← bitmap.NumClear) < numSectors - oldSectors then
    return (false, hdr, bitmap)
  if oldSectors < 0 then
    throw .undefined
  let (hdr, bitmap) ← hdr.takeSectors bitmap oldSectors.toNat (numSectors - oldSectors).toNat
  return (true, hdr, bitmap)

end FileHeader
end Nachos
