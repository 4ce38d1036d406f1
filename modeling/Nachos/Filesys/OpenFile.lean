import Nachos.Filesys.FileHeader

/-! `OpenFile` (`filesys/openfile.cc`) and the `BitMap` operations that go
through a file. An open file keeps a private copy of the header; both `ReadAt`
and `WriteAt` write that copy back to the header's own sector. Offsets and
sizes are `int`s: the sum of an access that does not fit one is undefined
behaviour. -/
namespace Nachos
open Effects

structure OpenFile where
  hdr : FileHeader
  seekPosition : Int

namespace OpenFile

/-- The constructor: fetch the header, count the handle. -/
def new (sector : Int) : Kernel OpenFile := do
  let hdr ← FileHeader.FetchFrom sector
  let count ← visNum hdr.sectorNumber
  setVisNum hdr.sectorNumber (count + 1)
  return { hdr := hdr, seekPosition := 0 }

/-- The destructor. -/
def delete (file : OpenFile) : Kernel Unit := do
  let count ← visNum file.hdr.sectorNumber
  setVisNum file.hdr.sectorNumber (count - 1)

def Length (file : OpenFile) : Int := file.hdr.FileLength

def Seek (file : OpenFile) (position : Int) : OpenFile := { file with seekPosition := position }

/-- Read sectors `first .. first + count - 1` of the file into `buf`. -/
def readSectors (hdr : FileHeader) (first : Int) (count : Nat) (buf : Memory) : Kernel Memory :=
  Program.loop count (fun i buf => do
    let sector ← hdr.ByteToSector ((first + i) * SectorSize)
    let data ← ReadSector sector
    return buf.splice (i * SectorSize) SectorSize data.mem) buf

/-- Write `buf` over sectors `first .. first + count - 1` of the file. -/
def writeSectors (hdr : FileHeader) (first : Int) (count : Nat) (buf : Memory) : Kernel Unit :=
  Program.loop count (fun i _ => do
    let sector ← hdr.ByteToSector ((first + i) * SectorSize)
    WriteSector sector (.of fun j => buf (i * SectorSize + j))) ()

/-- `OpenFile::ReadAt`: the count, the caller's buffer and the handle with its
header's visit time set. A negative position would copy from before `buf`. Where
`position + numBytes` overflows, the compiled sum is negative and nothing is
clipped: the read runs off the file or dies in `new char[]`. -/
def ReadAt (file : OpenFile) (into : Memory) (numBytes position : Int) :
    Kernel (Int × Memory × OpenFile) := do
  let fileLength := file.hdr.FileLength
  if numBytes ≤ 0 ∨ position > fileLength then
    return (0, into, file)
  if position < 0 ∨ 2147483648 ≤ position + numBytes then
    undefinedBehaviour
  else
    let numBytes := if position + numBytes > fileLength then fileLength - position else numBytes
    let firstSector := divRoundDown position SectorSize
    let lastSector := divRoundDown (position + numBytes - 1) SectorSize
    let numSectors := 1 + lastSector - firstSector
    let buf ← uninitialized
    let buf ← readSectors file.hdr firstSector numSectors.toNat buf
    let start := (position - firstSector * SectorSize).toNat
    let into := into.splice 0 numBytes.toNat fun j => buf (start + j)
    let hdr ← file.hdr.SetTime .visit
    hdr.WriteBack hdr.sectorNumber
    return (numBytes, into, { file with hdr := hdr })

end OpenFile

namespace BitMap

/-- `new BitMap(nitems)` on fresh storage. -/
def create (nitems : Nat) : Kernel BitMap := do
  let storage ← uninitialized
  checked (BitMap.new (fun i => storage.word (4 * i)) nitems)

def numWords (bitmap : BitMap) : Int := divRoundUp bitmap.numBits BitsInWord

def FetchFrom (bitmap : BitMap) (file : OpenFile) : Kernel (BitMap × OpenFile) := do
  let (_, bytes, file) ← file.ReadAt bitmap.bytes (bitmap.numWords * 4) 0
  return (bitmap.ofBytes bytes, file)

end BitMap

namespace OpenFile

/-- How deep `WriteAt` may call itself through the write-back of the free map
before the kernel stack is taken to overflow. -/
def writeDepth : Nat := 8

/-- `ReadAt(&buf[start], SectorSize, sector * SectorSize)`, when the sector is
to be modified only in part. -/
def fetchPartial (file : OpenFile) (needed : Bool) (buf : Memory) (start : Nat) (sector : Int) :
    Kernel (Memory × OpenFile) :=
  if needed then do
    let (_, part, file) ← file.ReadAt (fun j => buf (start + j)) SectorSize (sector * SectorSize)
    return (buf.splice start SectorSize part, file)
  else pure (buf, file)

/-- The second half of `OpenFile::WriteAt`: fetch the sectors that are only
partly covered, copy the new bytes in, and write every covered sector back. -/
def writeBlocks (file : OpenFile) (source : Memory) (numBytes position : Int) :
    Kernel (Int × OpenFile) := do
  let firstSector := divRoundDown position SectorSize
  let lastSector := divRoundDown (position + numBytes - 1) SectorSize
  let numSectors := 1 + lastSector - firstSector
  let buf ← uninitialized
  let firstAligned := position == firstSector * SectorSize
  let lastAligned := position + numBytes == (lastSector + 1) * SectorSize
  let (buf, file) ← file.fetchPartial (!firstAligned) buf 0 firstSector
  let (buf, file) ← file.fetchPartial
    (!lastAligned && (firstSector != lastSector || firstAligned)) buf
    ((lastSector - firstSector) * SectorSize).toNat lastSector
  let buf := buf.splice (position - firstSector * SectorSize).toNat numBytes.toNat source
  writeSectors file.hdr firstSector numSectors.toNat buf
  let hdr ← file.hdr.SetTime .modify
  hdr.WriteBack hdr.sectorNumber
  return (numBytes, { file with hdr := hdr })

/-- `OpenFile::WriteAt`. Growing the file fetches its own copy of the free map
through a second handle on sector 0, ignores the result of `Extend`, and
writes that copy back, which is again a `WriteAt`. Where `position + numBytes`
overflows, the file would not be grown and the blocks behind it be written. -/
def writeAt : (depth : Nat) → OpenFile → (source : Memory) → (numBytes position : Int) →
    Kernel (Int × OpenFile)
  | 0, _, _, _, _ => undefinedBehaviour
  | depth + 1, file, source, numBytes, position => do
    let fileLength := file.hdr.FileLength
    if numBytes ≤ 0 ∨ position > fileLength then
      return (0, file)
    if position < 0 ∨ 2147483648 ≤ position + numBytes then
      undefinedBehaviour
    else if position + numBytes > fileLength then
      let freeMapFile ← OpenFile.new 0
      let freeMap ← BitMap.create NumSectors
      let (freeMap, freeMapFile) ← freeMap.FetchFrom freeMapFile
      let (_, hdr, freeMap) ←
        checked (file.hdr.Extend freeMap (position + numBytes - fileLength))
      hdr.WriteBack hdr.sectorNumber
      let (_, freeMapFile) ← writeAt depth freeMapFile freeMap.bytes (freeMap.numWords * 4) 0
      freeMapFile.delete
      writeBlocks { file with hdr := hdr } source numBytes position
    else writeBlocks file source numBytes position

def WriteAt (file : OpenFile) (source : Memory) (numBytes position : Int) :
    Kernel (Int × OpenFile) :=
  writeAt writeDepth file source numBytes position

/-- `OpenFile::Read`. The reader count and mutex of the header's sector are
only indexed here; with one thread they never block. -/
def Read (file : OpenFile) (into : Memory) (numBytes : Int) : Kernel (Int × Memory × OpenFile) := do
  if ValidSector file.hdr.sectorNumber then
    let (result, into, file) ← file.ReadAt into numBytes file.seekPosition
    return (result, into, { file with seekPosition := file.seekPosition + result })
  else undefinedBehaviour

/-- `OpenFile::Write`, under the same proviso. -/
def Write (file : OpenFile) (source : Memory) (numBytes : Int) : Kernel (Int × OpenFile) := do
  if ValidSector file.hdr.sectorNumber then
    let (result, file) ← file.WriteAt source numBytes file.seekPosition
    return (result, { file with seekPosition := file.seekPosition + result })
  else undefinedBehaviour

end OpenFile

def BitMap.WriteBack (bitmap : BitMap) (file : OpenFile) : Kernel OpenFile := do
  let (_, file) ← file.WriteAt bitmap.bytes (bitmap.numWords * 4) 0
  return file

end Nachos
