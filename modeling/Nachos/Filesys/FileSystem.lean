import Nachos.Filesys.Directory

/-! `FileSystem` (`filesys/filesys.cc`): naming on top of open files. The free
map and the root directory are files whose headers live in sectors 0 and 1;
their handles stay open for as long as the kernel runs. -/
namespace Nachos
open Effects

@[simp] def FreeMapSector : Int := 0

@[simp] def DirectorySector : Int := 1

@[simp] def FreeMapFileSize : Nat := NumSectors / BitsInByte

structure FileSystem where
  freeMapFile : OpenFile
  directoryFile : OpenFile

namespace FileHeader

/-- The text after the first `'.'` of a path, as `Create` records it in `type`.
Text past `type` runs into the fields behind it, and past the object is out of
bounds. -/
def setType (hdr : FileHeader) (name : Name) : Except Fault FileHeader :=
  let extension : Name := name.drop (name.findIdx (· == dot) + 1)
  if 44 + extension.length < SectorSize then
    .ok (hdr.splice 44 (extension.length + 1) extension.chars)
  else .error .undefined

/-- `SetTime('c'); SetTime('v'); SetTime('m'); sectorNumber = sector;` -/
def stamp (hdr : FileHeader) (sector : Int) : Kernel FileHeader := do
  let hdr ← hdr.SetTime .create
  let hdr ← hdr.SetTime .visit
  let hdr ← hdr.SetTime .modify
  return hdr.setSectorNumber sector

end FileHeader

namespace FileSystem

/-- `FileSystem::FileSystem(TRUE)`: format the disk. -/
def format : Kernel FileSystem := do
  let freeMap ← BitMap.create NumSectors
  let directory ← Directory.new NumDirEntries
  let mapHdr ← FileHeader.new
  let dirHdr ← FileHeader.new
  let freeMap ← checked (freeMap.Mark FreeMapSector)
  let freeMap ← checked (freeMap.Mark DirectorySector)
  let (allocated, mapHdr, freeMap) ← mapHdr.Allocate freeMap FreeMapFileSize
  ASSERT allocated
  let (allocated, dirHdr, freeMap) ← dirHdr.Allocate freeMap DirectoryFileSize
  ASSERT allocated
  let mapHdr := mapHdr.setSectorNumber FreeMapSector
  let dirHdr := dirHdr.setSectorNumber DirectorySector
  mapHdr.WriteBack FreeMapSector
  dirHdr.WriteBack DirectorySector
  let freeMapFile ← OpenFile.new FreeMapSector
  let directoryFile ← OpenFile.new DirectorySector
  let freeMapFile ← freeMap.WriteBack freeMapFile
  let directoryFile ← directory.WriteBack directoryFile
  return { freeMapFile := freeMapFile, directoryFile := directoryFile }

/-- `FileSystem::FileSystem(FALSE)`. -/
def mount : Kernel FileSystem := do
  let freeMapFile ← OpenFile.new FreeMapSector
  let directoryFile ← OpenFile.new DirectorySector
  return { freeMapFile := freeMapFile, directoryFile := directoryFile }

/-- The directory part and the last name of a path, as `Create` and `Open`
split it. A name without a `'/'` past its first character is looked up in `"."`. -/
def splitPath (name : Name) : Name × Name :=
  if name.absPath then (name.getAbsDir, name.getRealName) else ([dot], name)

/-- The branch of `Create` that makes a directory. The handle on the new
header's sector is opened before the new header is written there. -/
def createDirectory (fs : FileSystem) (hdr : FileHeader) (freeMap : BitMap) (sector dirSector : Int)
    (dir : Directory) (dirFile : OpenFile) : Kernel (Bool × OpenFile × FileSystem) := do
  let (allocated, hdr, freeMap) ← hdr.Allocate freeMap DirectoryFileSize
  if !allocated then
    return (false, dirFile, fs)
  let hdr ← hdr.stamp sector
  let newDirFile ← OpenFile.new sector
  let newDir ← Directory.newIn NumDirEntries sector dirSector
  hdr.WriteBack sector
  let dirFile ← dir.WriteBack dirFile
  let newDirFile ← newDir.WriteBack newDirFile
  let freeMapFile ← freeMap.WriteBack fs.freeMapFile
  newDirFile.delete
  return (true, dirFile, { fs with freeMapFile := freeMapFile })

/-- The branch of `Create` that makes a file. -/
def createFile (fs : FileSystem) (hdr : FileHeader) (freeMap : BitMap) (sector : Int) (name : Name)
    (initialSize : Int) (dir : Directory) (dirFile : OpenFile) :
    Kernel (Bool × OpenFile × FileSystem) := do
  let (allocated, hdr, freeMap) ← hdr.Allocate freeMap initialSize
  if !allocated then
    return (false, dirFile, fs)
  let hdr ← checked (hdr.setType name)
  let hdr ← hdr.stamp sector
  hdr.WriteBack sector
  let dirFile ← dir.WriteBack dirFile
  let freeMapFile ← freeMap.WriteBack fs.freeMapFile
  return (true, dirFile, { fs with freeMapFile := freeMapFile })

/-- The part of `Create` after the name was found to be new. -/
def createEntry (fs : FileSystem) (name realName : Name) (initialSize dirSector : Int)
    (dir : Directory) (dirFile : OpenFile) : Kernel (Bool × OpenFile × FileSystem) := do
  let freeMap ← BitMap.create NumSectors
  let (freeMap, freeMapFile) ← freeMap.FetchFrom fs.freeMapFile
  let fs := { fs with freeMapFile := freeMapFile }
  let (sector, freeMap) ← checked freeMap.Find
  if sector = -1 then
    return (false, dirFile, fs)
  let (added, dir) ← dir.Add realName sector (if initialSize = -1 then 0 else 1)
  if !added then
    return (false, dirFile, fs)
  let hdr ← FileHeader.new
  if initialSize = -1 then
    createDirectory fs hdr freeMap sector dirSector dir dirFile
  else
    createFile fs hdr freeMap sector name initialSize dir dirFile

/-- A name that is already in the directory is refused. -/
def createIfAbsent (fs : FileSystem) (present : Int) (name realName : Name)
    (initialSize dirSector : Int) (dir : Directory) (dirFile : OpenFile) :
    Kernel (Bool × OpenFile × FileSystem) :=
  if present ≠ -1 then pure (false, dirFile, fs)
  else createEntry fs name realName initialSize dirSector dir dirFile

/-- `FileSystem::Create`; `initialSize == -1` asks for a directory. -/
def Create (fs : FileSystem) (name : Name) (initialSize : Int) : Kernel (Bool × FileSystem) := do
  let (absDir, realName) := splitPath name
  let directory ← Directory.new NumDirEntries
  let (directory, directoryFile) ← directory.FetchFrom fs.directoryFile
  let fs := { fs with directoryFile := directoryFile }
  let dirSector ← directory.Find absDir
  let dirFile ← OpenFile.new dirSector
  let dir ← Directory.new NumDirEntries
  let (dir, dirFile) ← dir.FetchFrom dirFile
  let present ← dir.Find realName
  let (success, dirFile, fs) ←
    createIfAbsent fs present name realName initialSize dirSector dir dirFile
  dirFile.delete
  return (success, fs)

/-- `FileSystem::Open`; the handle on the parent directory is never closed. -/
def Open (fs : FileSystem) (name : Name) : Kernel (Option OpenFile × FileSystem) := do
  let directory ← Directory.new NumDirEntries
  let (absDir, realName) := splitPath name
  let (directory, directoryFile) ← directory.FetchFrom fs.directoryFile
  let fs := { fs with directoryFile := directoryFile }
  let dirSector ← directory.Find absDir
  let dirFile ← OpenFile.new dirSector
  let dir ← Directory.new NumDirEntries
  let (dir, _) ← dir.FetchFrom dirFile
  let sector ← dir.Find realName
  if sector ≥ 0 then
    let openFile ← OpenFile.new sector
    return (some openFile, fs)
  else return (none, fs)

/-- `FileSystem::Remove`; the whole path is looked up in the root's table. -/
def Remove (fs : FileSystem) (name : Name) : Kernel (Bool × FileSystem) := do
  let directory ← Directory.new NumDirEntries
  let (directory, directoryFile) ← directory.FetchFrom fs.directoryFile
  let fs := { fs with directoryFile := directoryFile }
  let sector ← directory.Find name
  if sector = -1 then
    return (false, fs)
  if (← visNum sector) ≠ 0 then
    return (false, fs)
  let fileHdr ← FileHeader.FetchFrom sector
  let freeMap ← BitMap.create NumSectors
  let (freeMap, freeMapFile) ← freeMap.FetchFrom fs.freeMapFile
  let freeMap ← fileHdr.Deallocate freeMap
  let freeMap ← checked (freeMap.Clear sector)
  let (_, directory) ← directory.Remove name
  let freeMapFile ← freeMap.WriteBack freeMapFile
  let directoryFile ← directory.WriteBack fs.directoryFile
  return (true, { freeMapFile := freeMapFile, directoryFile := directoryFile })

/-- `FileSystem::Writepipe`. -/
def Writepipe (fs : FileSystem) (data : Memory) (size : Int) (name : Name) :
    Kernel (Int × FileSystem) := do
  let (created, fs) ← fs.Create name 0
  if !created then
    return (-1, fs)
  match ← fs.Open name with
  | (none, _) => undefinedBehaviour
  | (some pipefile, fs) =>
    let (size, pipefile) ← pipefile.Write data size
    let hdr := pipefile.hdr.SetLength size
    hdr.WriteBack hdr.sectorNumber
    OpenFile.delete { pipefile with hdr := hdr }
    return (size, fs)

/-- `FileSystem::Readpipe`: the count, the caller's buffer, the file system. -/
def Readpipe (fs : FileSystem) (buffer : Memory) (name : Name) :
    Kernel (Int × Memory × FileSystem) := do
  match ← fs.Open name with
  | (none, fs) => return (-1, buffer, fs)
  | (some pipefile, fs) =>
    let size := pipefile.hdr.FileLength
    if size = 0 then
      pipefile.delete
      return (0, buffer, fs)
    else
      let (size, buffer, pipefile) ← (pipefile.Seek 0).Read buffer size
      pipefile.delete
      let (_, fs) ← fs.Remove name
      return (size, buffer, fs)

end FileSystem
end Nachos
