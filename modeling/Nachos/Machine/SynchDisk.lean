import Mathlib.Logic.Function.Basic
import Nachos.Effects.Program
import Nachos.Effects.Bytes

/-! The disk as the kernel uses it (`machine/disk.h`, `filesys/synchdisk.cc`).

Kernel code asks for whole sectors, for the per-sector open counters and for
the contents of storage nobody has initialised. `Store` answers from a plain
array of sectors; `SynchDisk` answers through the four-line cache of
`SynchDisk::ReadSector` and `WriteSector`. `cached_simulates_store` says no
single-threaded kernel program can tell the two apart. -/
namespace Nachos
open Effects

/-- Bytes in a disk sector (`disk.h`). -/
@[simp] def SectorSize : Nat := 128

@[simp] def SectorsPerTrack : Nat := 32

@[simp] def NumTracks : Nat := 32

@[simp] def NumSectors : Nat := SectorsPerTrack * NumTracks

/-- `#define cache_size 4` (`synchdisk.h`). -/
abbrev cacheSize : Nat := 4

abbrev Sector := Block SectorSize

/-- Why kernel code stopped: a failed `ASSERT`, or a step whose effect C++
leaves undefined, such as an index outside an array. -/
inductive Fault where
  | assertion
  | undefined
  deriving DecidableEq, Repr

/-- What sequential kernel code asks of the machine. `uninitialized` stands
both for fresh storage from `new` and for the text of the wall clock: bytes
the code does not determine. -/
inductive KernelRequest where
  | readSector (sectorNumber : Int)
  | writeSector (sectorNumber : Int) (data : Sector)
  | visNum (sector : Int)
  | setVisNum (sector : Int) (count : Int)
  | uninitialized

@[reducible] def KernelRequest.Reply : KernelRequest → Type
  | .readSector _ => Sector
  | .writeSector _ _ => Unit
  | .visNum _ => Int
  | .setVisNum _ _ => Unit
  | .uninitialized => Memory

abbrev kernel : Signature where
  Request := KernelRequest
  Reply := KernelRequest.Reply

abbrev Kernel (A : Type) := Program kernel Fault A

/-- A sector number the disk accepts. -/
def ValidSector (s : Int) : Prop := 0 ≤ s ∧ s < NumSectors

instance (s : Int) : Decidable (ValidSector s) := inferInstanceAs (Decidable (_ ∧ _))

section Requests

/-- `SynchDisk::ReadSector`. -/
def ReadSector (sectorNumber : Int) : Kernel Sector :=
  Program.ask (E := kernel) (.readSector sectorNumber)

/-- `SynchDisk::WriteSector`. -/
def WriteSector (sectorNumber : Int) (data : Sector) : Kernel Unit :=
  Program.ask (E := kernel) (.writeSector sectorNumber data)

/-- `synchDisk->vis_num[sector]`. -/
def visNum (sector : Int) : Kernel Int := Program.ask (E := kernel) (.visNum sector)

def setVisNum (sector count : Int) : Kernel Unit :=
  Program.ask (E := kernel) (.setVisNum sector count)

def uninitialized : Kernel Memory := Program.ask (E := kernel) .uninitialized

def ASSERT (condition : Bool) : Kernel Unit :=
  if condition then pure () else .stop .assertion

def undefinedBehaviour {A : Type} : Kernel A := .stop .undefined

/-- Lift a computation that touches no sector but may fail an `ASSERT`. -/
def checked {A : Type} : Except Fault A → Kernel A
  | .ok value => pure value
  | .error fault => .stop fault

end Requests

/-! ## The plain store of sectors -/

/-- A disk without a cache, the open counters, and the successive contents
handed out for uninitialised storage. -/
structure Store where
  disk : Int → Sector
  visNum : Int → Int
  supply : Nat → Memory

def Store.handle : Handler kernel Fault Store
  | .readSector s, store =>
    if ValidSector s then .done (store.disk s) store else .stopped .assertion store
  | .writeSector s data, store =>
    if ValidSector s then .done () { store with disk := Function.update store.disk s data }
    else .stopped .assertion store
  | .visNum s, store =>
    if ValidSector s then .done (store.visNum s) store else .stopped .undefined store
  | .setVisNum s count, store =>
    if ValidSector s then .done () { store with visNum := Function.update store.visNum s count }
    else .stopped .undefined store
  | .uninitialized, store =>
    .done (store.supply 0) { store with supply := fun n => store.supply (n + 1) }

/-! ## The cached disk -/

/-- One line of `SynchDisk::cache`. -/
structure Cache where
  valid : Bool
  dirty : Bool
  sector : Int
  cnt : Int
  data : Sector

/-- The cache lines in index order. -/
abbrev Lines := Fin cacheSize → Cache

namespace Lines

/-- The first loop of `ReadSector`: the lowest valid line holding the sector. -/
def findPos (lines : Lines) (sectorNumber : Int) : Option (Fin cacheSize) :=
  (List.finRange cacheSize).find? fun i => (lines i).valid && (lines i).sector == sectorNumber

/-- The line with the least `cnt`, the first one among equals. -/
def leastRecent (lines : Lines) : Fin cacheSize :=
  (List.finRange cacheSize).foldl
    (fun minPos i => if (lines i).cnt < (lines minPos).cnt then i else minPos) 0

/-- The line a miss overwrites: the first *valid* line if there is one,
otherwise the least recently used. -/
def swap (lines : Lines) : Fin cacheSize :=
  ((List.finRange cacheSize).find? fun i => (lines i).valid).getD lines.leastRecent

/-- Overwrite the chosen line after a miss. -/
def fill (lines : Lines) (sectorNumber totalTicks : Int) (data : Sector) : Lines :=
  Function.update lines lines.swap
    { valid := true, dirty := false, sector := sectorNumber, cnt := totalTicks, data := data }

/-- A hit only refreshes the line's time stamp. -/
def touch (lines : Lines) (i : Fin cacheSize) (totalTicks : Int) : Lines :=
  Function.update lines i { lines i with cnt := totalTicks }

/-- The loop `WriteSector` runs after releasing the lock. -/
def invalidate (lines : Lines) (sectorNumber : Int) : Lines :=
  fun i => if (lines i).sector = sectorNumber then { lines i with valid := false } else lines i

end Lines

/-- The synchronous disk: raw sectors, cache lines, open counters. `ticks`
lists the values `stats->totalTicks` takes at successive reads. -/
structure SynchDisk where
  disk : Int → Sector
  cache : Lines
  visNum : Int → Int
  supply : Nat → Memory
  ticks : Nat → Int

/-- The locked section of `ReadSector`: what it returns and the lines it
leaves. A miss goes to the raw disk, which accepts only valid sectors. -/
def cachedRead (disk : Int → Sector) (lines : Lines) (sectorNumber totalTicks : Int) :
    Option (Sector × Lines) :=
  match lines.findPos sectorNumber with
  | some i => some ((lines i).data, lines.touch i totalTicks)
  | none =>
    if ValidSector sectorNumber then
      some (disk sectorNumber, lines.fill sectorNumber totalTicks (disk sectorNumber))
    else none

def SynchDisk.handle : Handler kernel Fault SynchDisk
  | .readSector s, machine =>
    match cachedRead machine.disk machine.cache s (machine.ticks 0) with
    | some (data, lines) =>
      .done data { machine with cache := lines, ticks := fun n => machine.ticks (n + 1) }
    | none => .stopped .assertion machine
  | .writeSector s data, machine =>
    if ValidSector s then
      .done () { machine with
        disk := Function.update machine.disk s data
        cache := machine.cache.invalidate s }
    else .stopped .assertion machine
  | .visNum s, machine =>
    if ValidSector s then .done (machine.visNum s) machine else .stopped .undefined machine
  | .setVisNum s count, machine =>
    if ValidSector s then
      .done () { machine with visNum := Function.update machine.visNum s count }
    else .stopped .undefined machine
  | .uninitialized, machine =>
    .done (machine.supply 0) { machine with supply := fun n => machine.supply (n + 1) }

namespace Lines

/-- Every valid line holds a real sector's current contents. -/
def Coherent (lines : Lines) (disk : Int → Sector) : Prop :=
  ∀ i, (lines i).valid = true →
    ValidSector (lines i).sector ∧ (lines i).data = disk (lines i).sector

theorem findPos_some {lines : Lines} {s : Int} {i : Fin cacheSize}
    (found : lines.findPos s = some i) : (lines i).valid = true ∧ (lines i).sector = s := by
  have holds := List.find?_some found
  simpa using holds

theorem findPos_none {lines : Lines} {s : Int} (missing : lines.findPos s = none)
    (i : Fin cacheSize) (valid : (lines i).valid = true) : (lines i).sector ≠ s := by
  have absent := List.find?_eq_none.mp missing i (List.mem_finRange i)
  simpa [valid] using absent

theorem coherent_touch {lines : Lines} {disk : Int → Sector} (coherent : lines.Coherent disk)
    (i : Fin cacheSize) (ticks : Int) : (lines.touch i ticks).Coherent disk := by
  intro j valid
  by_cases same : j = i
  · subst same
    simp only [touch, Function.update_self] at valid ⊢
    exact coherent j valid
  · simp only [touch, Function.update_of_ne same] at valid ⊢
    exact coherent j valid

theorem coherent_fill {lines : Lines} {disk : Int → Sector} (coherent : lines.Coherent disk)
    {s : Int} (inRange : ValidSector s) (ticks : Int) :
    (lines.fill s ticks (disk s)).Coherent disk := by
  intro j valid
  by_cases same : j = lines.swap
  · subst same
    simp only [fill, Function.update_self]
    exact ⟨inRange, trivial⟩
  · simp only [fill, Function.update_of_ne same] at valid ⊢
    exact coherent j valid

theorem coherent_invalidate {lines : Lines} {disk : Int → Sector}
    (coherent : lines.Coherent disk) (s : Int) (data : Sector) :
    (lines.invalidate s).Coherent (Function.update disk s data) := by
  intro j valid
  by_cases same : (lines j).sector = s
  · simp [invalidate, same] at valid
  · simp only [invalidate, same, if_false] at valid ⊢
    obtain ⟨inRange, current⟩ := coherent j valid
    exact ⟨inRange, current.trans (Function.update_of_ne same _ _).symm⟩

end Lines

/-- The cached machine stands for the store with the same sectors. -/
structure SynchDisk.Represents (machine : SynchDisk) (store : Store) : Prop where
  disk : machine.disk = store.disk
  visNum : machine.visNum = store.visNum
  supply : machine.supply = store.supply
  coherent : machine.cache.Coherent store.disk

/-- A coherent cache returns the sector on disk and stays coherent. -/
theorem cachedRead_coherent {disk : Int → Sector} {lines : Lines}
    (coherent : lines.Coherent disk) (s ticks : Int) :
    if ValidSector s then
      ∃ after, cachedRead disk lines s ticks = some (disk s, after) ∧ after.Coherent disk
    else cachedRead disk lines s ticks = none := by
  unfold cachedRead
  cases found : lines.findPos s with
  | some i =>
    obtain ⟨valid, rfl⟩ := Lines.findPos_some found
    obtain ⟨inRange, current⟩ := coherent i valid
    rw [if_pos inRange, ← current]
    exact ⟨_, rfl, Lines.coherent_touch coherent i ticks⟩
  | none =>
    split
    · rename_i inRange
      exact ⟨_, by simp, Lines.coherent_fill coherent inRange ticks⟩
    · simp

/-- Sequential kernel code gets the same replies from the cached disk as from
the plain store of sectors. -/
theorem cached_simulates_store :
    Program.Simulates SynchDisk.Represents SynchDisk.handle Store.handle := by
  intro r machine store rep
  obtain ⟨disk, cache, vis, supply, ticks⟩ := machine
  obtain ⟨rfl, rfl, rfl, coherent⟩ := rep
  cases r with
  | readSector s =>
    have read := cachedRead_coherent coherent s (ticks 0)
    simp only [SynchDisk.handle, Store.handle]
    split at read
    · rename_i inRange
      obtain ⟨after, answer, coherent⟩ := read
      rw [answer, if_pos inRange]
      exact ⟨rfl, rfl, rfl, rfl, coherent⟩
    · rename_i outOfRange
      rw [read, if_neg outOfRange]
      exact ⟨rfl, rfl, rfl, rfl, coherent⟩
  | writeSector s data =>
    by_cases inRange : ValidSector s
    · simp only [SynchDisk.handle, Store.handle, if_pos inRange]
      exact ⟨trivial, rfl, rfl, rfl, Lines.coherent_invalidate coherent s data⟩
    · simp only [SynchDisk.handle, Store.handle, if_neg inRange]
      exact ⟨trivial, rfl, rfl, rfl, coherent⟩
  | visNum s =>
    by_cases inRange : ValidSector s
    · simp only [SynchDisk.handle, Store.handle, if_pos inRange]
      exact ⟨trivial, rfl, rfl, rfl, coherent⟩
    · simp only [SynchDisk.handle, Store.handle, if_neg inRange]
      exact ⟨trivial, rfl, rfl, rfl, coherent⟩
  | setVisNum s count =>
    by_cases inRange : ValidSector s
    · simp only [SynchDisk.handle, Store.handle, if_pos inRange]
      exact ⟨trivial, rfl, rfl, rfl, coherent⟩
    · simp only [SynchDisk.handle, Store.handle, if_neg inRange]
      exact ⟨trivial, rfl, rfl, rfl, coherent⟩
  | uninitialized => exact ⟨rfl, rfl, rfl, rfl, coherent⟩

end Nachos
