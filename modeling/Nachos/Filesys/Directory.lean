import Nachos.Filesys.OpenFile

/-! `Directory` (`filesys/directory.cc`, `directory.h`): a table of fixed-size
entries, kept in memory and on disk as the same raw bytes. An entry takes 36
bytes: `inUse` at 0, `sector` at 4, `name[21]` at 8 and `type` at 32. Lookup
follows a path through nested directories. -/
namespace Nachos
open Effects

@[simp] def NumDirEntries : Nat := 10

@[simp] def FileNameMaxLen : Nat := 20

/-- `sizeof(DirectoryEntry)`. -/
@[simp] def entrySize : Nat := 36

@[simp] def DirectoryFileSize : Nat := entrySize * NumDirEntries

@[simp] def rootSector : Int := 1

/-- A C string without its terminator. -/
abbrev Name := List UInt8

/-- The character `'/'`. -/
@[simp] def slash : UInt8 := 47

/-- The character `'.'`. -/
@[simp] def dot : UInt8 := 46

namespace Name

/-- The characters with the terminator behind them. -/
def chars (name : Name) : Memory := fun i => name.getD i 0

/-- `strncmp(a, b, count) == 0`. -/
def strncmpEq (a b : Memory) : (count : Nat) → Bool
  | 0 => true
  | count + 1 => a 0 == b 0 && (a 0 == 0 || strncmpEq (fun i => a (i + 1)) (fun i => b (i + 1)) count)

/-- The last `'/'` past the first character. -/
def lastSlash (name : Name) : Option Nat :=
  ((List.range name.length).filter fun i => 0 < i && name.getD i 0 == slash).getLast?

/-- `Directory::absPath`: a `'/'` somewhere past the first character. -/
def absPath (name : Name) : Bool := name.lastSlash.isSome

/-- `Directory::getAbsDir`, for a name with `absPath`. -/
def getAbsDir (name : Name) : Name := name.take (name.lastSlash.getD 0)

/-- `Directory::getRealName`. -/
def getRealName (name : Name) : Name :=
  match name.lastSlash with
  | some i => name.drop (i + 1)
  | none => name

/-- The first `'/'`, where `FindIndex` splits a path. -/
def firstSlash (name : Name) : Option Nat := name.findIdx? (· == slash)

end Name

structure Directory where
  tableSize : Nat
  table : Memory

namespace Directory

def inUse (dir : Directory) (i : Nat) : Bool := dir.table (entrySize * i) != 0

def sector (dir : Directory) (i : Nat) : Int := (dir.table.word (entrySize * i + 4)).toInt

/-- `table[i].name`; the array is followed by whatever the object holds. -/
def name (dir : Directory) (i : Nat) : Memory := fun k => dir.table (entrySize * i + 8 + k)

def type (dir : Directory) (i : Nat) : Int := (dir.table.word (entrySize * i + 32)).toInt

def setInUse (dir : Directory) (i : Nat) (used : Bool) : Directory :=
  { dir with table := dir.table.splice (entrySize * i) 1 fun _ => if used then 1 else 0 }

def setSector (dir : Directory) (i : Nat) (sector : Int) : Directory :=
  { dir with table := dir.table.setWord (entrySize * i + 4) (BitVec.ofInt 32 sector) }

def setType (dir : Directory) (i : Nat) (type : Int) : Directory :=
  { dir with table := dir.table.setWord (entrySize * i + 32) (BitVec.ofInt 32 type) }

/-- `strcpy(table[i].name, text)`: the text and its terminator. -/
def strcpyName (dir : Directory) (i : Nat) (text : Name) : Directory :=
  { dir with table := dir.table.splice (entrySize * i + 8) (text.length + 1) text.chars }

/-- `strncpy(table[i].name, text, FileNameMaxLen)`, padded with zeros. -/
def strncpyName (dir : Directory) (i : Nat) (text : Name) : Directory :=
  { dir with table := dir.table.splice (entrySize * i + 8) FileNameMaxLen text.chars }

/-- `Directory::Directory(size, sector, dad_sector)`: entries 0 and 1 name the
directory and its parent; nothing but `inUse` is set in the others. -/
def make (storage : Memory) (size : Nat) (sector dadSector : Int) : Directory :=
  let dir : Directory := { tableSize := size, table := storage }
  let dir := ((dir.setInUse 0 true).setType 0 0).setSector 0 sector
  let dir := ((dir.setInUse 1 true).setType 1 0).setSector 1 dadSector
  let dir := (dir.strcpyName 0 [dot]).strcpyName 1 [dot, dot]
  (List.range (size - 2)).foldl (fun dir i => dir.setInUse (i + 2) false) dir

/-- `Directory::Directory(size)`. -/
def new (size : Nat) : Kernel Directory := do
  let storage ← uninitialized
  return make storage size rootSector rootSector

def newIn (size : Nat) (sector dadSector : Int) : Kernel Directory := do
  let storage ← uninitialized
  return make storage size sector dadSector

def FetchFrom (dir : Directory) (file : OpenFile) : Kernel (Directory × OpenFile) := do
  let (_, table, file) ← file.ReadAt dir.table (dir.tableSize * entrySize : Nat) 0
  return ({ dir with table := table }, file)

def WriteBack (dir : Directory) (file : OpenFile) : Kernel OpenFile := do
  let (_, file) ← file.WriteAt dir.table (dir.tableSize * entrySize : Nat) 0
  return file

/-- The last used directory entry called `dirName`. -/
def subdirectory (dir : Directory) (dirName : Memory) : Option Nat :=
  ((List.range dir.tableSize).filter fun i =>
    dir.inUse i && dir.type i == 0 && Name.strncmpEq (dir.name i) dirName FileNameMaxLen).getLast?

/-- The first used entry called `name`. -/
def entryIndex (dir : Directory) (name : Name) : Option Nat :=
  (List.range dir.tableSize).find? fun i =>
    dir.inUse i && Name.strncmpEq (dir.name i) name.chars FileNameMaxLen

/-- `Directory::FindIndex`. The directory part of a path is copied without a
terminator, so what follows it is whatever the storage held; a part that names
no directory indexes the table at -1. `depth` bounds the path's length. -/
def findIndex : (depth : Nat) → Directory → Name → Kernel Int
  | 0, _, _ => undefinedBehaviour
  | depth + 1, dir, name =>
    match name.firstSlash with
    | some strP => do
      let storage ← uninitialized
      let dirName := storage.splice 0 strP name.chars
      match dir.subdirectory dirName with
      | none => undefinedBehaviour
      | some dirIdx => do
        let nextDir ← OpenFile.new (dir.sector dirIdx)
        let nextDirFile ← Directory.new NumDirEntries
        let (nextDirFile, nextDir) ← nextDirFile.FetchFrom nextDir
        let resIdx ← findIndex depth nextDirFile (name.drop (strP + 1))
        nextDir.delete
        return resIdx
    | none =>
      match dir.entryIndex name with
      | some i => return (i : Int)
      | none => return -1

def FindIndex (dir : Directory) (name : Name) : Kernel Int :=
  findIndex (name.length + 1) dir name

/-- `Directory::Find`: the index comes from `FindIndex`, the sector always from
this table. -/
def Find (dir : Directory) (name : Name) : Kernel Int := do
  let i ← dir.FindIndex name
  if i ≠ -1 then return dir.sector i.toNat else return -1

/-- `Directory::Add`. -/
def Add (dir : Directory) (name : Name) (newSector type : Int) : Kernel (Bool × Directory) := do
  if (← dir.FindIndex name) ≠ -1 then
    return (false, dir)
  match (List.range dir.tableSize).find? fun i => !dir.inUse i with
  | some i =>
    let dir := (dir.setInUse i true).strncpyName i name.getRealName
    return (true, (dir.setSector i newSector).setType i type)
  | none => return (false, dir)

/-- `Directory::Remove`: the index from `FindIndex` is used in this table. -/
def Remove (dir : Directory) (name : Name) : Kernel (Bool × Directory) := do
  let i ← dir.FindIndex name
  if i = -1 then
    return (false, dir)
  return (true, dir.setInUse i.toNat false)

end Directory
end Nachos
