import Nachos.Effects.Runs
import Nachos.Filesys.Beside
import Nachos.Filesys.Layout

/-! Several threads in `OpenFile::Write`, each through a handle of its own on a file
of its own. Every thread holds the mutex of its file, and the free map has none: the
copy of it that a growing file takes its sectors from may be out of date when it is
written back. -/
namespace Nachos.Growth
open Effects FileHeader OpenFile

variable {T : Type}

/-- Where a call of `WriteAt` stands. -/
inductive Call where
  /-- In the extension of the file; the write is yet to come. -/
  | growing (source : Memory) (numBytes position : Int) (rest : Kernel OpenFile)
  | writing (rest : Kernel (Int × OpenFile))

namespace Call

/-- What is left of the call. -/
def program : Call → Kernel (Int × OpenFile)
  | .growing source numBytes position rest =>
    rest >>= fun file => file.writeBlocks source numBytes position
  | .writing rest => rest

def isGrowing : Call → Bool
  | .growing .. => true
  | .writing _ => false

/-- The beginning of `WriteAt`, at the handle's position. -/
def start (file : OpenFile) (source : Memory) (numBytes : Int) : Call :=
  let position := file.seekPosition
  let fileLength := file.hdr.FileLength
  if numBytes ≤ 0 ∨ position > fileLength then .writing (pure (0, file))
  else if position < 0 ∨ 2147483648 ≤ position + numBytes then .writing undefinedBehaviour
  else if position + numBytes > fileLength then
    .growing source numBytes position (file.grow (position + numBytes - fileLength))
  else .writing (file.writeBlocks source numBytes position)

/-- The two parts are `WriteAt`. -/
theorem program_start (file : OpenFile) (source : Memory) (numBytes : Int) :
    (start file source numBytes).program = file.WriteAt source numBytes file.seekPosition := by
  unfold start WriteAt writeDepth writeAt
  simp only
  split
  · rfl
  split
  · rfl
  split
  · simp only [program, grow, fetchMap, takeFrom, Program.bind_assoc]
    rfl
  · rfl

/-- A call that begins with an extension writes past the end of its file. -/
theorem growing_start {file : OpenFile} {source : Memory} {numBytes : Int}
    (grows : (start file source numBytes).isGrowing = true) : 0 < numBytes ∧
      file.seekPosition ≤ file.hdr.numBytes ∧ file.hdr.numBytes < file.seekPosition + numBytes := by
  have length : file.hdr.FileLength = file.hdr.numBytes := rfl
  unfold start at grows
  dsimp only at grows
  split at grows
  · cases grows
  split at grows
  · cases grows
  split at grows
  · omega
  · cases grows

end Call

/-- One thread: its handle, the calls of `Write` it is yet to make, and the one it is in. -/
structure Writer where
  file : OpenFile
  pending : List (Memory × Int)
  call : Option Call

def Writer.growing (writer : Writer) : Prop := ∃ call, writer.call = some call ∧ call.isGrowing = true

theorem Writer.not_growing {writer : Writer} (calm : ∀ call, writer.call = some call → call.isGrowing = false) :
    ¬ writer.growing := by
  rintro ⟨call, stands, grows⟩
  rw [calm call stands] at grows
  cases grows

/-- A thread that writes, or is in no call, is in no extension. -/
theorem Writer.not_growing_writing {writer : Writer} {rest : Kernel (Int × OpenFile)}
    (stands : writer.call = some (.writing rest)) : ¬ writer.growing := by
  refine not_growing fun call stands' => ?_
  rw [stands] at stands'
  cases stands'
  rfl

theorem Writer.not_growing_idle {writer : Writer} (idle : writer.call = none) : ¬ writer.growing := by
  refine not_growing fun call stands => ?_
  rw [idle] at stands
  cases stands

/-- The disk, the mutexes of the files by the sectors of their headers, and the threads. -/
structure System (T : Type) where
  store : Store
  mutex : Int → Nat
  writer : T → Writer

def System.disk (s : System T) : Disk := s.store.disk

/-- The handles of all threads. -/
def System.file (s : System T) (t : T) : OpenFile := (s.writer t).file

section
variable [DecidableEq T]

/-- One thread goes on, by at most one sector. -/
inductive Step (t : T) : System T → System T → Prop where
  /-- `WriteBegin`, and `WriteAt` up to its first request. -/
  | begins {s : System T} {source : Memory} {numBytes : Int} {rest : List (Memory × Int)}
      (idle : (s.writer t).call = none) (next : (s.writer t).pending = (source, numBytes) :: rest)
      (free : s.mutex (s.file t).hdr.sectorNumber ≠ 0) :
      Step t s
        { s with
          mutex := Function.update s.mutex (s.file t).hdr.sectorNumber
            (s.mutex (s.file t).hdr.sectorNumber - 1)
          writer := Function.update s.writer t
            { file := s.file t, pending := rest
              call := some (.start (s.file t) source numBytes) } }
  | grows {s : System T} {source : Memory} {numBytes position : Int} {p p' : Kernel OpenFile} {store : Store}
      (stands : (s.writer t).call = some (.growing source numBytes position p))
      (advances : Program.Advances Store.handle p s.store p' store) :
      Step t s
        { s with
          store := store
          writer := Function.update s.writer t
            { s.writer t with call := some (.growing source numBytes position p') } }
  /-- The extension is over. -/
  | grown {s : System T} {source : Memory} {numBytes position : Int} {file : OpenFile}
      (stands : (s.writer t).call = some (.growing source numBytes position (.pure file))) :
      Step t s
        { s with
          writer := Function.update s.writer t
            { s.writer t with
              file := file
              call := some (.writing (file.writeBlocks source numBytes position)) } }
  | writes {s : System T} {p p' : Kernel (Int × OpenFile)} {store : Store}
      (stands : (s.writer t).call = some (.writing p))
      (advances : Program.Advances Store.handle p s.store p' store) :
      Step t s
        { s with
          store := store
          writer := Function.update s.writer t { s.writer t with call := some (.writing p') } }
  /-- The rest of `Write`, with `WriteDone`. -/
  | returns {s : System T} {result : Int} {file : OpenFile}
      (stands : (s.writer t).call = some (.writing (.pure (result, file)))) :
      Step t s
        { s with
          mutex := Function.update s.mutex file.hdr.sectorNumber (s.mutex file.hdr.sectorNumber + 1)
          writer := Function.update s.writer t
            { file := { file with seekPosition := file.seekPosition + result }
              pending := (s.writer t).pending, call := none } }

/-- Any thread may go on; the trace is the schedule. -/
def Moves (s : System T) (schedule : List T) (s' : System T) : Prop :=
  ∃ t, schedule = [t] ∧ Step t s s'

/-- If the thread begins to write past the end of its file, no other thread is extending
one, the file stays within eight sectors, and the map on disk has the sectors. -/
def Careful (s : System T) (t : T) : Prop :=
  ∀ source numBytes rest, (s.writer t).call = none → (s.writer t).pending = (source, numBytes) :: rest →
    0 < numBytes → (s.file t).seekPosition ≤ (s.file t).hdr.numBytes →
    (s.file t).hdr.numBytes < (s.file t).seekPosition + numBytes →
    (∀ t', t' ≠ t → ¬ (s.writer t').growing) ∧
    (s.file t).seekPosition + numBytes ≤ 1024 ∧
    sectorsFor ((s.file t).seekPosition + numBytes).toNat -
      sectorsFor (s.file t).hdr.numBytes.toNat ≤ (diskMap s.disk).freeCount

def CarefulMoves (s : System T) (schedule : List T) (s' : System T) : Prop :=
  ∃ t, schedule = [t] ∧ Step t s s' ∧ Careful s t

end

/-! ## What belongs to whom -/

/-- How many data sectors the handle's header names. -/
def sectorCount (file : OpenFile) : Nat := file.hdr.numSectors.toNat

/-- A handle on the file with its header in sector `h`. -/
structure Sized (h : Int) (file : OpenFile) : Prop where
  number : file.hdr.sectorNumber = h
  length : ∃ len : Nat, file.hdr.numBytes = len ∧ file.hdr.numSectors = sectorsFor len ∧ len ≤ 1024
  position : 0 ≤ file.seekPosition

/-- Files of at most eight sectors, all marked in the map on disk and none used twice. -/
structure Laid (home : T → Int) (file : T → OpenFile) (disk : Disk) : Prop where
  map : IsMapHeader (headerAt disk 0)
  system : (diskMap disk).Marked 0 ∧ (diskMap disk).Marked 2
  homes : ∀ t, (diskMap disk).Marked (home t) ∧ home t ≠ 0 ∧ home t ≠ 2
  apart : Function.Injective home
  sized : ∀ t, Sized (home t) (file t)
  marked : ∀ t k, k < sectorCount (file t) → (diskMap disk).Marked ((file t).hdr.dataSectors k)
  own : ∀ t t' k, k < sectorCount (file t) → (file t).hdr.dataSectors k ≠ home t' ∧
    (file t).hdr.dataSectors k ≠ 0 ∧ (file t).hdr.dataSectors k ≠ 2
  distinct : ∀ t t' k k', k < sectorCount (file t) → k' < sectorCount (file t') →
    (file t).hdr.dataSectors k = (file t').hdr.dataSectors k' → t = t' ∧ k = k'

theorem Sized.agrees {h : Int} {file file' : OpenFile} (sized : Sized h file) (agrees : Agrees file'.hdr file.hdr)
    (position : 0 ≤ file'.seekPosition) : Sized h file' := by
  obtain ⟨len, length, sectors, bound⟩ := sized.length
  exact ⟨agrees.sectorNumber.trans sized.number,
    ⟨len, agrees.numBytes.trans length, agrees.numSectors.trans sectors, bound⟩, position⟩

theorem Sized.count {h : Int} {file : OpenFile} (sized : Sized h file) : sectorCount file ≤ 8 := by
  obtain ⟨len, -, sectors, bound⟩ := sized.length
  unfold sectorCount
  rw [sectors, Int.toNat_natCast]
  unfold sectorsFor
  omega

theorem sectorCount_agrees {file file' : OpenFile} (agrees : Agrees file'.hdr file.hdr) :
    sectorCount file' = sectorCount file := congrArg Int.toNat agrees.numSectors

/-- A sector is part of the free map, a header, or a data sector of one of the files. -/
def InUse (home : T → Int) (file : T → OpenFile) (s : Int) : Prop :=
  s = 0 ∨ s = 2 ∨ (∃ t, s = home t) ∨ ∃ t k, k < sectorCount (file t) ∧ s = (file t).hdr.dataSectors k

/-- The clock texts of a header do not matter. -/
theorem InUse.stamped {home : T → Int} {file file' : T → OpenFile} {s : Int} (used : InUse home file' s)
    (agrees : ∀ t, Agrees (file' t).hdr (file t).hdr) (small : ∀ t, sectorCount (file t) ≤ 8) :
    InUse home file s := by
  obtain map | data | header | ⟨t, k, bound, rfl⟩ := used
  · exact .inl map
  · exact .inr (.inl data)
  · exact .inr (.inr (.inl header))
  · rw [sectorCount_agrees (agrees t)] at bound
    have := small t
    exact .inr (.inr (.inr ⟨t, k, bound, (agrees t).dataSectors (by omega)⟩))

namespace Laid

variable {home : T → Int} {file file' : T → OpenFile} {disk disk' : Disk}

theorem inUse_marked (laid : Laid home file disk) {s : Int} (used : InUse home file s) :
    (diskMap disk).Marked s := by
  rcases used with rfl | rfl | ⟨t, rfl⟩ | ⟨t, k, bound, rfl⟩
  · exact laid.system.1
  · exact laid.system.2
  · exact (laid.homes t).1
  · exact laid.marked t k bound

/-- Handles on different files of a consistent disk. -/
theorem of_sheltered {layout : Layout} (sheltered : Sheltered layout disk)
    (known : ∀ t, home t ∈ layout.files) (apart : Function.Injective home)
    (short : ∀ t, ∃ len, Headed disk (home t) len ∧ len ≤ 1024)
    (current : ∀ t, Agrees (file t).hdr (headerAt disk (home t))) (position : ∀ t, 0 ≤ (file t).seekPosition) :
    Laid home file disk := by
  have head : ∀ t, layout.Head (home t) := fun t => .inr (.inr (known t))
  have sized : ∀ t, Sized (home t) (file t) := by
    intro t
    obtain ⟨len, headed, bound⟩ := short t
    exact ⟨(current t).sectorNumber.trans headed.number,
      ⟨len, (current t).numBytes.trans headed.length, (current t).numSectors.trans headed.sectors, bound⟩,
      position t⟩
  have claims : ∀ t k, k < sectorCount (file t) →
      Claims layout disk (home t, .data k) ((file t).hdr.dataSectors k) := by
    intro t k bound
    have small := (sized t).count
    refine ⟨head t, ?_, ?_⟩
    · have same := (current t).numSectors
      unfold sectorCount at bound
      rw [same] at bound
      exact Int.lt_toNat.mp bound
    · rw [dataSector_direct (by omega), (current t).dataSectors (by omega)]
  have zero : Claims layout disk (0, .header) 0 := ⟨.inl rfl, rfl⟩
  have two : Claims layout disk (0, .data 0) 2 := ⟨.inl rfl, sheltered.map_data⟩
  have header : ∀ t, Claims layout disk (home t, .header) (home t) := fun t => ⟨head t, rfl⟩
  have notMap : ∀ t, home t ≠ 0 := fun t same => sheltered.mapAlone.2 (same ▸ known t)
  refine ⟨sheltered.map, ⟨sheltered.storage.marked_of_owns zero, sheltered.storage.marked_of_owns two⟩,
    fun t => ⟨sheltered.storage.marked_of_owns (header t), notMap t, fun same => ?_⟩, apart, sized,
    fun t k bound => sheltered.storage.marked_of_owns (claims t k bound), ?_, ?_⟩
  · exact sheltered.two_not_head (same ▸ head t)
  · intro t t' k bound
    have mine := claims t k bound
    refine ⟨fun same => ?_, fun same => ?_, fun same => ?_⟩ <;> rw [same] at mine
    · have single := sheltered.storage.single _ _ _ mine (header t')
      exact absurd (congrArg Prod.snd single) (by simp)
    · have single := sheltered.storage.single _ _ _ mine zero
      exact absurd (congrArg Prod.snd single) (by simp)
    · have single := sheltered.storage.single _ _ _ mine two
      exact notMap t (congrArg Prod.fst single)
  · intro t t' k k' bound bound' same
    have mine := claims t k bound
    rw [same] at mine
    have single := sheltered.storage.single _ _ _ mine (claims t' k' bound')
    obtain ⟨first, second⟩ := Prod.mk.inj single
    cases second
    exact ⟨apart first, rfl⟩

/-- The disk changes, and the map only gets more marks. -/
theorem on (laid : Laid home file disk) (map : IsMapHeader (headerAt disk' 0))
    (more : ∀ s, (diskMap disk).Marked s → (diskMap disk').Marked s) : Laid home file disk' :=
  { laid with
    map := map
    system := ⟨more 0 laid.system.1, more 2 laid.system.2⟩
    homes := fun t => ⟨more _ (laid.homes t).1, (laid.homes t).2⟩
    marked := fun t k bound => more _ (laid.marked t k bound) }

/-- The handles change in their clock texts and positions. -/
theorem stamped (laid : Laid home file disk) (agrees : ∀ t, Agrees (file' t).hdr (file t).hdr)
    (position : ∀ t, 0 ≤ (file' t).seekPosition) : Laid home file' disk := by
  have slot : ∀ t k, k < sectorCount (file' t) → k < sectorCount (file t) ∧
      (file' t).hdr.dataSectors k = (file t).hdr.dataSectors k := by
    intro t k bound
    rw [sectorCount_agrees (agrees t)] at bound
    have small := (laid.sized t).count
    exact ⟨bound, (agrees t).dataSectors (by omega)⟩
  refine { laid with sized := ?_, marked := ?_, own := ?_, distinct := ?_ }
  · exact fun t => (laid.sized t).agrees (agrees t) (position t)
  · intro t k bound
    obtain ⟨bound, same⟩ := slot t k bound
    rw [same]
    exact laid.marked t k bound
  · intro t t' k bound
    obtain ⟨bound, same⟩ := slot t k bound
    rw [same]
    exact laid.own t t' k bound
  · intro t t' k k' bound bound' same
    obtain ⟨bound, same₁⟩ := slot t k bound
    obtain ⟨bound', same₂⟩ := slot t' k' bound'
    rw [same₁, same₂] at same
    exact laid.distinct t t' k k' bound bound' same

end Laid

/-- What an extension leaves behind, if `old` was the map when it began. -/
structure Grown (h : Int) (old : BitMap) (file file' : OpenFile) (disk' : Disk) : Prop where
  sized : Sized h file'
  longer : sectorCount file ≤ sectorCount file'
  slots : ∀ k, k < sectorCount file → file'.hdr.dataSectors k = file.hdr.dataSectors k
  taken : old.Takes (file'.hdr.slots (sectorCount file) (sectorCount file' - sectorCount file)) (diskMap disk')
  map : IsMapHeader (headerAt disk' 0)
  header : disk' h = file'.hdr.raw

/-- The file of one thread has grown. -/
theorem Laid.grown [DecidableEq T] {home : T → Int} {file : T → OpenFile} {disk : Disk} {old : BitMap} {t : T}
    {file' : OpenFile} (laid : Laid home file disk) (known : ∀ s, InUse home file s → old.Marked s)
    (grown : Grown (home t) old (file t) file' disk) :
    Laid home (Function.update file t file') disk := by
  have count := grown.sized.count
  -- a slot is an old one of the same thread, or fresh
  have slot : ∀ t' k, k < sectorCount (Function.update file t file' t') →
      (k < sectorCount (file t') ∧
        (Function.update file t file' t').hdr.dataSectors k = (file t').hdr.dataSectors k) ∨
      (t' = t ∧ sectorCount (file t) ≤ k ∧ k < sectorCount file' ∧
        (Function.update file t file' t').hdr.dataSectors k = file'.hdr.dataSectors k ∧
        ¬ old.Marked (file'.hdr.dataSectors k) ∧ (diskMap disk).Marked (file'.hdr.dataSectors k)) := by
    intro t' k bound
    by_cases own : t' = t
    · subst own
      rw [Function.update_self] at bound ⊢
      by_cases before : k < sectorCount (file t')
      · exact .inl ⟨before, grown.slots k before⟩
      · have new : file'.hdr.dataSectors k ∈
            file'.hdr.slots (sectorCount (file t')) (sectorCount file' - sectorCount (file t')) :=
          mem_slots.mpr ⟨k - sectorCount (file t'), by omega, by congr 1; omega⟩
        exact .inr ⟨rfl, by omega, bound, rfl, (grown.taken.fresh _ new).2.2,
          (grown.taken.exactly _).mpr (.inr new)⟩
    · rw [Function.update_of_ne own] at bound ⊢
      exact .inl ⟨bound, rfl⟩
  refine { laid with sized := ?_, marked := ?_, own := ?_, distinct := ?_ }
  · intro t'
    by_cases own : t' = t
    · subst own
      rw [Function.update_self]
      exact grown.sized
    · rw [Function.update_of_ne own]
      exact laid.sized t'
  · intro t' k bound
    rcases slot t' k bound with ⟨bound, same⟩ | ⟨-, -, -, same, -, marked⟩
    · rw [same]
      exact laid.marked t' k bound
    · rw [same]
      exact marked
  · intro t' t'' k bound
    rcases slot t' k bound with ⟨bound, same⟩ | ⟨-, -, -, same, fresh, -⟩
    · rw [same]
      exact laid.own t' t'' k bound
    · rw [same]
      refine ⟨fun here => fresh (known _ (.inr (.inr (.inl ⟨t'', here⟩)))), fun here => ?_, fun here => ?_⟩
      · exact fresh (known _ (.inl here))
      · exact fresh (known _ (.inr (.inl here)))
  · intro t₁ t₂ k₁ k₂ bound₁ bound₂ same
    rcases slot t₁ k₁ bound₁ with ⟨old₁, same₁⟩ | ⟨rfl, low₁, high₁, same₁, fresh₁, -⟩ <;>
      rcases slot t₂ k₂ bound₂ with ⟨old₂, same₂⟩ | ⟨rfl, low₂, high₂, same₂, fresh₂, -⟩ <;>
      rw [same₁, same₂] at same
    · exact laid.distinct t₁ t₂ k₁ k₂ old₁ old₂ same
    · rw [← same] at fresh₂
      exact absurd (known _ (.inr (.inr (.inr ⟨t₁, k₁, old₁, rfl⟩)))) fresh₂
    · rw [same] at fresh₁
      exact absurd (known _ (.inr (.inr (.inr ⟨t₂, k₂, old₂, rfl⟩)))) fresh₁
    · exact ⟨rfl, slot_inj grown.taken.distinct ⟨low₁, by omega⟩ ⟨low₂, by omega⟩ same⟩

/-! ## What a call may still do -/

/-- The sectors an extension relies on. -/
def Needs (h : Int) (s : Int) : Prop := s = 0 ∨ s = 2 ∨ s = h

/-- The writes of an extension: the header, the header of the map, and the map with
more marks. -/
def MayGrow (h : Int) (disk : Disk) (s : Int) (data : Sector) : Prop :=
  s = h ∨ (s = 0 ∧ IsMapHeader ⟨data⟩) ∨
    (s = 2 ∧ ∀ x, (diskMap disk).Marked x → (diskMap (Function.update disk 2 data)).Marked x)

/-- The writes of a call inside its file. -/
def MayWrite (file : OpenFile) (_ : Disk) (s : Int) (data : Sector) : Prop :=
  (s = file.hdr.sectorNumber ∧ Agrees ⟨data⟩ file.hdr) ∨
    ∃ k, k < sectorCount file ∧ s = file.hdr.dataSectors k

/-- The call goes on as it should, from these sectors. -/
def Goes (h : Int) (used : Int → Prop) (file : OpenFile) (disk : Disk) : Option Call → Prop
  | none => True
  | some (.growing _ numBytes position p) => 0 < numBytes ∧ 0 ≤ position ∧
    ∃ old, (∀ s, used s → BitMap.Marked old s) ∧
      ∀ disk', Intact (Needs h) disk disk' → Beside (Needs h) (MayGrow h) p
        (fun file' disk'' => Grown h old file file' disk'' ∧ position + numBytes ≤ file'.hdr.numBytes) disk'
  | some (.writing p) => ∀ disk', Beside (fun _ => False) (MayWrite file) p
      (fun result _ => Agrees result.2.hdr file.hdr ∧ result.2.seekPosition = file.seekPosition ∧
        0 ≤ result.1) disk'

theorem Sized.direct {h : Int} {file : OpenFile} (sized : Sized h file)
    (valid : ∀ k, k < sectorCount file → ValidSector (file.hdr.dataSectors k)) {len : Nat}
    (length : file.hdr.numBytes = len) : Direct file.hdr 0 (sectorsFor len) := by
  obtain ⟨len', length', sectors, bound⟩ := sized.length
  have same : len' = len := by
    rw [length] at length'
    omega
  subst same
  have count : sectorCount file = sectorsFor len' := by
    unfold sectorCount
    rw [sectors, Int.toNat_natCast]
  have small := sized.count
  intro k _ high
  exact ⟨by omega, valid k (by omega)⟩

/-- The write itself. -/
theorem goes_writeBlocks {h : Int} {used : Int → Prop} {file : OpenFile} {disk : Disk} {source : Memory}
    {numBytes position : Int} (sized : Sized h file) (home : ValidSector h)
    (valid : ∀ k, k < sectorCount file → ValidSector (file.hdr.dataSectors k)) (positive : 0 < numBytes)
    (nonneg : 0 ≤ position) (inside : position + numBytes ≤ file.hdr.numBytes) :
    Goes h used file disk (some (.writing (file.writeBlocks source numBytes position))) := by
  obtain ⟨len, length, sectors, -⟩ := sized.length
  obtain ⟨n, rfl⟩ := Int.eq_ofNat_of_zero_le (Int.le_of_lt positive)
  obtain ⟨pos, rfl⟩ := Int.eq_ofNat_of_zero_le nonneg
  intro disk'
  refine beside_writeBlocks length (by omega) (by omega) (by rw [sized.number]; exact home)
    (sized.direct valid length) ?_ ?_ ?_
  · exact fun _ stamped agrees => .inl ⟨rfl, agrees⟩
  · intro k _ _ bound
    refine .inr ⟨k, ?_, rfl⟩
    unfold sectorCount
    rw [sectors, Int.toNat_natCast]
    exact bound
  · intro hdr' _ agrees
    exact ⟨agrees, rfl, by omega⟩

/-- What `Extend` makes of the handle and of a copy of the map that has the sectors. -/
structure Extended (h : Int) (file file' : OpenFile) (fetched after : BitMap) (total : Int) : Prop where
  sized : Sized h file'
  length : file'.hdr.numBytes = total
  longer : sectorCount file ≤ sectorCount file'
  slots : ∀ k, k < sectorCount file → file'.hdr.dataSectors k = file.hdr.dataSectors k
  taken : fetched.Takes (file'.hdr.slots (sectorCount file) (sectorCount file' - sectorCount file)) after
  least : sectorCount file < sectorCount file' → ∀ s, 0 ≤ s →
    s < file'.hdr.dataSectors (sectorCount file) → fetched.Marked s

theorem Sized.extends {h : Int} {file : OpenFile} {fetched : BitMap} {total : Int} (sized : Sized h file)
    (bits : fetched.numBits = 1024) (more : file.hdr.numBytes < total) (small : total ≤ 1024)
    (enough : sectorsFor total.toNat - sectorsFor file.hdr.numBytes.toNat ≤ fetched.freeCount) :
    ∃ hdr' after, file.hdr.Extend fetched (total - file.hdr.numBytes) = .ok (true, hdr', after) ∧
      Extended h file { file with hdr := hdr' } fetched after total := by
  obtain ⟨len, length, sectors, bound⟩ := sized.length
  obtain ⟨n, rfl⟩ := Int.eq_ofNat_of_zero_le (show 0 ≤ total by omega)
  rw [length, Int.toNat_natCast, Int.toNat_natCast] at enough
  have count : sectorCount file = sectorsFor len := by
    unfold sectorCount
    rw [sectors, Int.toNat_natCast]
  have total : file.hdr.numBytes + ((n : Int) - file.hdr.numBytes) = n := by omega
  have fits : sectorsFor n ≤ 8 ∧ sectorsFor len ≤ sectorsFor n := by
    unfold sectorsFor
    omega
  obtain ⟨hdr', after, computed, length', sectors', taken, rest, least⟩ :=
    extend_ok file.hdr bits sectors total (by omega) (.inl (by omega)) enough
  have count' : sectorCount { file with hdr := hdr' } = sectorsFor n := by
    unfold sectorCount
    dsimp only
    rw [sectors', Int.toNat_natCast]
  refine ⟨hdr', after, computed, ⟨⟨?_, ⟨n, length', sectors', by omega⟩, sized.position⟩, length', ?_, ?_, ?_, ?_⟩⟩
  · refine Eq.trans (congrArg BitVec.toInt (Memory.word_congr fun k less => ?_)) sized.number
    exact rest _ (by omega) (by omega)
  · omega
  · intro k before
    refine congrArg BitVec.toInt (Memory.word_congr fun j less => rest _ (by omega) (.inl ?_))
    omega
  · rw [count, count']
    exact taken
  · rw [count, count']
    exact least

/-- The extension, from a state in which no other is under way. -/
theorem goes_grow {home : T → Int} {file : T → OpenFile} {disk : Disk} {t : T} {source : Memory}
    {numBytes position : Int} (laid : Laid home file disk) (positive : 0 < numBytes) (nonneg : 0 ≤ position)
    (more : (file t).hdr.numBytes < position + numBytes) (small : position + numBytes ≤ 1024)
    (enough : sectorsFor (position + numBytes).toNat - sectorsFor (file t).hdr.numBytes.toNat ≤
      (diskMap disk).freeCount) :
    Goes (home t) (InUse home file) (file t) disk
      (some (.growing source numBytes position ((file t).grow (position + numBytes - (file t).hdr.numBytes)))) := by
  obtain ⟨marked, notMap, notTwo⟩ := laid.homes t
  refine ⟨positive, nonneg, diskMap disk, fun s used => laid.inUse_marked used, fun disk' kept => ?_⟩
  have same' : diskMap disk' = diskMap disk := by
    unfold diskMap
    rw [kept 2 (.inr (.inl rfl))]
  have map' : IsMapHeader (headerAt disk' 0) := by
    unfold headerAt
    rw [kept 0 (.inl rfl)]
    exact laid.map
  have clock : ∀ disk stamped, IsMapHeader stamped → MayGrow (home t) disk 0 stamped.raw :=
    fun _ _ map => .inr (.inl ⟨rfl, map⟩)
  apply beside_bind
  refine beside_fetchMap ⟨.inl rfl, .inr (.inl rfl)⟩ map' clock ?_
  intro fetched mapFile disk₁ same mapHeader _ two
  rw [same'] at same
  obtain ⟨hdr', after, computed, extended⟩ := (laid.sized t).extends same.size more small
    (by rw [same.freeCount]; exact enough)
  refine beside_takeFrom computed (extended.taken.size.trans same.size) mapHeader extended.sized.number
    ⟨marked.1, marked.2.1⟩ ⟨notMap, notTwo⟩ ⟨.inl rfl, .inr (.inl rfl), .inr (.inr rfl)⟩
    (fun _ => .inl rfl) clock ?_ ?_
  · intro disk₂ data unchanged stored
    refine .inr (.inr ⟨rfl, fun x set => ?_⟩)
    have old : diskMap disk₂ = diskMap disk := by
      rw [← same']
      unfold diskMap
      rw [unchanged, two]
    rw [old] at set
    exact (stored.marks x).mpr ((extended.taken.exactly x).mpr (.inl ((same.marks x).mpr set)))
  · intro disk₂ map₂ same₂ header
    exact ⟨⟨extended.sized, extended.longer, extended.slots, extended.taken.congr same.symm same₂, map₂, header⟩,
      Int.le_of_eq extended.length.symm⟩

/-- The steps of the others do not matter, if they leave an extension its sectors. -/
theorem Goes.carry {h : Int} {used used' : Int → Prop} {file : OpenFile} {disk disk' : Disk}
    {call : Option Call} (goes : Goes h used file disk call)
    (still : ∀ c, call = some c → c.isGrowing = true → Intact (Needs h) disk disk' ∧ ∀ s, used' s → used s) :
    Goes h used' file disk' call := by
  match call, goes, still with
  | none, _, _ => exact trivial
  | some (.writing p), goes, _ => exact goes
  | some (.growing source numBytes position p), goes, still =>
    obtain ⟨kept, fewer⟩ := still _ rfl rfl
    obtain ⟨positive, nonneg, old, known, goes⟩ := goes
    exact ⟨positive, nonneg, old, fun s used => known s (fewer s used),
      fun disk'' kept' => goes disk'' (kept.trans kept')⟩

/-! ## Every step -/

/-- What every state of a careful run has. -/
structure Sound (home : T → Int) (s : System T) : Prop where
  laid : Laid home s.file s.disk
  alone : ∀ t t', (s.writer t).growing → (s.writer t').growing → t = t'
  current : ∀ t, ¬ (s.writer t).growing → Agrees (headerAt s.disk (home t)) (s.file t).hdr
  goes : ∀ t, Goes (home t) (InUse home s.file) (s.file t) s.disk (s.writer t).call

/-- A write of an extension. -/
theorem writes_grow {h : Int} {disk disk' : Disk} (wrote : Writes (MayGrow h) disk disk')
    (apart : h ≠ 0 ∧ h ≠ 2) (map : IsMapHeader (headerAt disk 0)) :
    IsMapHeader (headerAt disk' 0) ∧ (∀ x, (diskMap disk).Marked x → (diskMap disk').Marked x) ∧
      ∀ x, x ≠ 0 → x ≠ 2 → x ≠ h → disk' x = disk x := by
  obtain rfl | ⟨s, data, rfl | ⟨rfl, header⟩ | ⟨rfl, marks⟩, rfl⟩ := wrote
  · exact ⟨map, fun _ set => set, fun _ _ _ _ => rfl⟩
  · refine ⟨?_, fun x set => ?_, fun x _ _ other => Function.update_of_ne other _ _⟩
    · unfold headerAt
      rw [Function.update_of_ne (Ne.symm apart.1)]
      exact map
    · unfold diskMap
      rw [Function.update_of_ne (Ne.symm apart.2)]
      exact set
  · refine ⟨?_, fun x set => ?_, fun x other _ _ => Function.update_of_ne other _ _⟩
    · unfold headerAt
      rw [Function.update_self]
      exact header
    · unfold diskMap
      rw [Function.update_of_ne (by decide)]
      exact set
  · refine ⟨?_, marks, fun x _ other _ => Function.update_of_ne other _ _⟩
    unfold headerAt
    rw [Function.update_of_ne (by decide)]
    exact map

/-- A write inside a file. -/
theorem writes_own {file : OpenFile} {disk disk' : Disk} (wrote : Writes (MayWrite file) disk disk') :
    (∀ x, x ≠ file.hdr.sectorNumber → (∀ k, k < sectorCount file → x ≠ file.hdr.dataSectors k) →
        disk' x = disk x) ∧
      ((∀ k, k < sectorCount file → file.hdr.sectorNumber ≠ file.hdr.dataSectors k) →
        Agrees (headerAt disk file.hdr.sectorNumber) file.hdr →
        Agrees (headerAt disk' file.hdr.sectorNumber) file.hdr) := by
  obtain rfl | ⟨s, data, ⟨rfl, agrees⟩ | ⟨k, bound, rfl⟩, rfl⟩ := wrote
  · exact ⟨fun _ _ _ => rfl, fun _ same => same⟩
  · refine ⟨fun x other _ => Function.update_of_ne other _ _, fun _ _ => ?_⟩
    unfold headerAt
    rw [Function.update_self]
    exact agrees
  · refine ⟨fun x _ other => Function.update_of_ne (other k bound) _ _, fun other same => ?_⟩
    unfold headerAt
    rw [Function.update_of_ne (other k bound)]
    exact same

namespace Sound

variable {home : T → Int} {s : System T} {t : T}

/-- The valid sectors of a thread. -/
theorem valid (sound : Sound home s) (t : T) : ValidSector (home t) ∧
    ∀ k, k < sectorCount (s.file t) → ValidSector ((s.file t).hdr.dataSectors k) := by
  obtain ⟨⟨low, high, -⟩, -⟩ := sound.laid.homes t
  refine ⟨⟨low, high⟩, fun k bound => ?_⟩
  obtain ⟨low, high, -⟩ := sound.laid.marked t k bound
  exact ⟨low, high⟩

variable [DecidableEq T]

/-- One thread goes on; the others keep their headers and, if one of them is in an
extension, the sectors it needs. -/
theorem change (sound : Sound home s) {w : Writer} {store : Store} {mutex : Int → Nat}
    (laid : Laid home (Function.update s.file t w.file) store.disk)
    (alone : w.growing → ∀ t', t' ≠ t → ¬ (s.writer t').growing)
    (headers : ∀ t', t' ≠ t → store.disk (home t') = s.disk (home t'))
    (current : ¬ w.growing → Agrees (headerAt store.disk (home t)) w.file.hdr)
    (kept : ∀ t', t' ≠ t → (s.writer t').growing → Intact (Needs (home t')) s.disk store.disk ∧
      ∀ x, InUse home (Function.update s.file t w.file) x → InUse home s.file x)
    (goes : Goes (home t) (InUse home (Function.update s.file t w.file)) w.file store.disk w.call) :
    Sound home { store := store, mutex := mutex, writer := Function.update s.writer t w } := by
  have own : Function.update s.writer t w t = w := Function.update_self _ _ _
  have others : ∀ t', t' ≠ t → Function.update s.writer t w t' = s.writer t' :=
    fun t' other => Function.update_of_ne other _ _
  have files : System.file { store := store, mutex := mutex, writer := Function.update s.writer t w } =
      Function.update s.file t w.file := by
    funext t'
    show (Function.update s.writer t w t').file = _
    by_cases same : t' = t
    · subst same
      rw [own, Function.update_self]
    · rw [others t' same, Function.update_of_ne same]
      rfl
  constructor
  · rw [files]
    exact laid
  · intro t₁ t₂ grows₁ grows₂
    dsimp only at grows₁ grows₂
    by_cases first : t₁ = t
    · by_cases second : t₂ = t
      · rw [first, second]
      · rw [first, own] at grows₁
        rw [others t₂ second] at grows₂
        exact absurd grows₂ (alone grows₁ t₂ second)
    · rw [others t₁ first] at grows₁
      by_cases second : t₂ = t
      · rw [second, own] at grows₂
        exact absurd grows₁ (alone grows₂ t₁ first)
      · rw [others t₂ second] at grows₂
        exact sound.alone t₁ t₂ grows₁ grows₂
  · intro t' calm
    rw [files]
    dsimp only at calm
    by_cases same : t' = t
    · subst same
      rw [own] at calm
      rw [Function.update_self]
      exact current calm
    · rw [others t' same] at calm
      rw [Function.update_of_ne same]
      have header : headerAt store.disk (home t') = headerAt s.disk (home t') :=
        congrArg FileHeader.mk (headers t' same)
      exact (congrArg (Agrees · (s.file t').hdr) header).mpr (sound.current t' calm)
  · intro t'
    rw [files]
    dsimp only
    by_cases same : t' = t
    · subst same
      rw [own, Function.update_self]
      exact goes
    · rw [others t' same, Function.update_of_ne same]
      exact (sound.goes t').carry fun c stands grows => kept t' same ⟨c, stands, grows⟩

/-- The handle stays as it is. -/
theorem change_call (sound : Sound home s) {w : Writer} {store : Store} {mutex : Int → Nat}
    (same : w.file = s.file t) (laid : Laid home s.file store.disk)
    (alone : w.growing → ∀ t', t' ≠ t → ¬ (s.writer t').growing)
    (headers : ∀ t', t' ≠ t → store.disk (home t') = s.disk (home t'))
    (current : ¬ w.growing → Agrees (headerAt store.disk (home t)) (s.file t).hdr)
    (kept : ∀ t', t' ≠ t → (s.writer t').growing → Intact (Needs (home t')) s.disk store.disk)
    (goes : Goes (home t) (InUse home s.file) (s.file t) store.disk w.call) :
    Sound home { store := store, mutex := mutex, writer := Function.update s.writer t w } := by
  have files : Function.update s.file t w.file = s.file := by rw [same, Function.update_eq_self]
  refine sound.change (by rw [files]; exact laid) alone headers (by rw [same]; exact current) ?_ ?_
  · intro t' other grows
    rw [files]
    exact ⟨kept t' other grows, fun _ used => used⟩
  · rw [files, same]
    exact goes

theorem begins (sound : Sound home s) (careful : Careful s t) {source : Memory} {numBytes : Int}
    {rest : List (Memory × Int)} {mutex : Int → Nat} (idle : (s.writer t).call = none)
    (next : (s.writer t).pending = (source, numBytes) :: rest) :
    Sound home
      { store := s.store
        mutex := mutex
        writer := Function.update s.writer t
          { file := s.file t, pending := rest, call := some (.start (s.file t) source numBytes) } } := by
  have careful := careful source numBytes rest idle next
  have calm := Writer.not_growing_idle idle
  have sized := sound.laid.sized t
  obtain ⟨home_valid, slots_valid⟩ := sound.valid t
  refine sound.change_call rfl sound.laid ?_ (fun _ _ => rfl) (fun _ => sound.current t calm)
    (fun _ _ _ => Intact.refl _ _) ?_
  · rintro ⟨c, stands, grows⟩
    cases stands
    obtain ⟨something, reached, past⟩ := Call.growing_start grows
    exact (careful something reached past).1
  · have length : (s.file t).hdr.FileLength = (s.file t).hdr.numBytes := rfl
    have nonneg := sized.position
    obtain ⟨len, measured, -, short⟩ := sized.length
    unfold Call.start
    dsimp only
    split
    · exact fun _ => beside_pure ⟨Agrees.refl _, rfl, Int.le_refl 0⟩
    · by_cases past : (s.file t).hdr.numBytes < (s.file t).seekPosition + numBytes
      · obtain ⟨-, small, enough⟩ := careful (by omega) (by omega) past
        rw [if_neg (by omega), if_pos (by omega)]
        exact goes_grow sound.laid (by omega) (by omega) (by omega) small enough
      · rw [if_neg (by omega), if_neg (by omega)]
        exact goes_writeBlocks sized home_valid slots_valid (by omega) (by omega) (by omega)

theorem grows (sound : Sound home s) {source : Memory} {numBytes position : Int} {p p' : Kernel OpenFile}
    {store : Store} (stands : (s.writer t).call = some (.growing source numBytes position p))
    (advances : Program.Advances Store.handle p s.store p' store) :
    Sound home
      { s with
        store := store
        writer := Function.update s.writer t
          { s.writer t with call := some (.growing source numBytes position p') } } := by
  have growing : (s.writer t).growing := ⟨_, stands, rfl⟩
  have others : ∀ t', t' ≠ t → ¬ (s.writer t').growing := fun t' other grows =>
    other (sound.alone t' t grows growing)
  have goes := sound.goes t
  rw [stands] at goes
  obtain ⟨positive, nonneg, old, known, goes⟩ := goes
  obtain ⟨wrote, goes⟩ := (goes s.disk (Intact.refl _ _)).advances advances
  obtain ⟨-, notMap, notTwo⟩ := sound.laid.homes t
  obtain ⟨map, more, rest⟩ := writes_grow wrote ⟨notMap, notTwo⟩ sound.laid.map
  refine sound.change_call rfl (sound.laid.on map more) (fun _ => others) ?_ ?_ ?_ ?_
  · intro t' other
    obtain ⟨-, notMap', notTwo'⟩ := sound.laid.homes t'
    exact rest _ notMap' notTwo' fun same => other (sound.laid.apart same)
  · exact fun calm => absurd ⟨_, rfl, rfl⟩ calm
  · exact fun t' other grows => absurd grows (others t' other)
  · exact ⟨positive, nonneg, old, known, goes⟩

theorem grown (sound : Sound home s) {source : Memory} {numBytes position : Int} {file : OpenFile}
    (stands : (s.writer t).call = some (.growing source numBytes position (.pure file))) :
    Sound home
      { s with
        writer := Function.update s.writer t
          { s.writer t with
            file := file
            call := some (.writing (file.writeBlocks source numBytes position)) } } := by
  have growing : (s.writer t).growing := ⟨_, stands, rfl⟩
  have goes := sound.goes t
  rw [stands] at goes
  obtain ⟨positive, nonneg, old, known, goes⟩ := goes
  obtain ⟨grown, inside⟩ := (goes s.disk (Intact.refl _ _)).value
  have laid := sound.laid.grown known grown
  refine sound.change laid ?_ (fun _ _ => rfl) (fun _ => ?_) ?_ ?_
  · exact fun grows => absurd grows (Writer.not_growing_writing rfl)
  · unfold headerAt
    rw [show s.store.disk (home t) = file.hdr.raw from grown.header]
    exact Agrees.refl _
  · exact fun t' other grows => absurd (sound.alone t' t grows growing) other
  · refine goes_writeBlocks grown.sized (sound.valid t).1 (fun k bound => ?_) positive nonneg inside
    have marked := laid.marked t k
    rw [Function.update_self] at marked
    obtain ⟨low, high, -⟩ := marked bound
    exact ⟨low, high⟩

theorem writes (sound : Sound home s) {p p' : Kernel (Int × OpenFile)} {store : Store}
    (stands : (s.writer t).call = some (.writing p))
    (advances : Program.Advances Store.handle p s.store p' store) :
    Sound home
      { s with
        store := store
        writer := Function.update s.writer t { s.writer t with call := some (.writing p') } } := by
  have calm := Writer.not_growing_writing stands
  have goes := sound.goes t
  rw [stands] at goes
  obtain ⟨wrote, goes⟩ := (goes s.disk).advances advances
  have number := (sound.laid.sized t).number
  obtain ⟨rest, header⟩ := writes_own wrote
  rw [number] at rest header
  have own : ∀ k, k < sectorCount (s.file t) → home t ≠ (s.file t).hdr.dataSectors k :=
    fun k bound => Ne.symm (sound.laid.own t t k bound).1
  obtain ⟨-, notMap, notTwo⟩ := sound.laid.homes t
  have zero : store.disk 0 = s.disk 0 :=
    rest 0 (Ne.symm notMap) fun k bound => Ne.symm (sound.laid.own t t k bound).2.1
  have two : store.disk 2 = s.disk 2 :=
    rest 2 (Ne.symm notTwo) fun k bound => Ne.symm (sound.laid.own t t k bound).2.2
  have headers : ∀ t', t' ≠ t → store.disk (home t') = s.disk (home t') := fun t' other =>
    rest _ (fun same => other (sound.laid.apart same)) fun k bound => Ne.symm (sound.laid.own t t' k bound).1
  refine sound.change_call rfl (sound.laid.on ?_ ?_) ?_ headers ?_ ?_ ?_
  · unfold headerAt
    rw [zero]
    exact sound.laid.map
  · intro x set
    unfold diskMap
    rw [two]
    exact set
  · exact fun grows => absurd grows (Writer.not_growing_writing rfl)
  · exact fun _ => header own (sound.current t calm)
  · rintro t' other - x (rfl | rfl | rfl)
    · exact zero
    · exact two
    · exact headers t' other
  · exact fun disk' => goes disk' fun x never => never.elim

theorem returns (sound : Sound home s) {result : Int} {file : OpenFile} {mutex : Int → Nat}
    (stands : (s.writer t).call = some (.writing (.pure (result, file)))) :
    Sound home
      { s with
        mutex := mutex
        writer := Function.update s.writer t
          { file := { file with seekPosition := file.seekPosition + result }
            pending := (s.writer t).pending, call := none } } := by
  have calm := Writer.not_growing_writing stands
  have goes := sound.goes t
  rw [stands] at goes
  obtain ⟨agrees, position, nonneg⟩ := (goes s.disk).value
  dsimp only at agrees position nonneg
  have start := (sound.laid.sized t).position
  have same : ∀ t', Agrees
      (Function.update s.file t { file with seekPosition := file.seekPosition + result } t').hdr
      (s.file t').hdr := by
    intro t'
    by_cases own : t' = t
    · subst own
      rw [Function.update_self]
      exact agrees
    · rw [Function.update_of_ne own]
      exact Agrees.refl _
  refine sound.change (sound.laid.stamped same fun t' => ?_)
    (fun grows => absurd grows (Writer.not_growing_idle rfl)) (fun _ _ => rfl)
    (fun _ => (sound.current t calm).trans agrees.symm)
    (fun t' _ _ => ⟨Intact.refl _ _, fun x used => used.stamped same fun t => (sound.laid.sized t).count⟩) trivial
  by_cases own : t' = t
  · subst own
    rw [Function.update_self]
    dsimp only
    omega
  · rw [Function.update_of_ne own]
    exact (sound.laid.sized t').position

theorem step (sound : Sound home s) {s' : System T} (step : Step t s s') (careful : Careful s t) :
    Sound home s' := by
  cases step with
  | begins idle next free => exact sound.begins careful idle next
  | grows stands advances => exact sound.grows stands advances
  | grown stands => exact sound.grown stands
  | writes stands advances => exact sound.writes stands advances
  | returns stands => exact sound.returns stands

end Sound

/-- The threads are between two calls, and their handles are up to date. -/
structure Begins (home : T → Int) (s : System T) : Prop where
  laid : Laid home s.file s.disk
  idle : ∀ t, (s.writer t).call = none
  current : ∀ t, Agrees (headerAt s.disk (home t)) (s.file t).hdr

theorem Begins.sound {home : T → Int} {s : System T} (begins : Begins home s) : Sound home s where
  laid := begins.laid
  alone := fun t _ grows _ => absurd grows (Writer.not_growing_idle (begins.idle t))
  current := fun t _ => begins.current t
  goes := fun t => by
    rw [begins.idle t]
    exact trivial

/-- As long as no two extensions overlap and each finds its sectors, every sector of every
file is marked in the map on disk and belongs to one place of one file. -/
theorem growth_takes_fresh_sectors [DecidableEq T] {home : T → Int} {start s : System T} {schedule : List T}
    (begins : Begins home start) (run : Runs CarefulMoves start schedule s) :
    (∀ t k, k < sectorCount (s.file t) → (diskMap s.disk).Marked ((s.file t).hdr.dataSectors k)) ∧
      (∀ t t' k k', k < sectorCount (s.file t) → k' < sectorCount (s.file t') →
        (s.file t).hdr.dataSectors k = (s.file t').hdr.dataSectors k' → t = t' ∧ k = k') ∧
      ∀ t, ¬ (s.writer t).growing → Agrees (headerAt s.disk (home t)) (s.file t).hdr := by
  have sound : Sound home s := by
    refine run.invariant_state begins.sound ?_
    rintro s schedule s' sound ⟨t, -, step, careful⟩
    exact sound.step step careful
  exact ⟨sound.laid.marked, sound.laid.distinct, sound.current⟩

/-! ## Runs -/

section
variable [DecidableEq T] {s : System T} {t : T} {source : Memory} {numBytes position : Int}

/-- A part of an extension that nobody disturbs comes to its end. -/
theorem runs_grow {A : Type} {p : Kernel A} {f : Kernel A → Kernel OpenFile} {keep : Int → Prop}
    {may : Disk → Int → Sector → Prop} {post : A → Disk → Prop}
    (within : ∀ {p w p' w'}, Program.Advances Store.handle p w p' w' →
      Program.Advances Store.handle (f p) w (f p') w')
    (stands : (s.writer t).call = some (.growing source numBytes position (f p)))
    (holds : Beside keep may p post s.disk) :
    ∃ schedule value s', Runs CarefulMoves s schedule s' ∧ post value s'.disk ∧ s'.mutex = s.mutex ∧
      s'.writer t = { s.writer t with call := some (.growing source numBytes position (f (.pure value))) } ∧
      ∀ t', t' ≠ t → s'.writer t' = s.writer t' := by
  let reaches : Kernel A → Store → Prop := fun p store => ∃ schedule s',
    Runs CarefulMoves s schedule s' ∧ s'.store = store ∧ s'.mutex = s.mutex ∧
      s'.writer t = { s.writer t with call := some (.growing source numBytes position (f p)) } ∧
      ∀ t', t' ≠ t → s'.writer t' = s.writer t'
  have goes : ∀ {p w p' w'}, reaches p w → Program.Advances Store.handle p w p' w' → reaches p' w' := by
    rintro p w p' w' ⟨schedule, s', run, rfl, mutex, writer, others⟩ advances
    have call : (s'.writer t).call = some (.growing source numBytes position (f p)) := by rw [writer]
    refine ⟨_, _, run.next ⟨t, rfl, .grows call (within advances), ?_⟩, rfl, mutex, ?_, ?_⟩
    · intro source numBytes rest idle
      rw [call] at idle
      cases idle
    · dsimp only
      rw [Function.update_self, writer]
    · intro t' other
      dsimp only
      rw [Function.update_of_ne other, others t' other]
  have here : reaches p s.store := ⟨[], s, .start, rfl, rfl, by rw [← stands], fun _ _ => rfl⟩
  obtain ⟨value, store, ⟨schedule, s', run, rfl, kept⟩, done⟩ := holds.returns here goes
  exact ⟨schedule, value, s', run, done, kept⟩

end

/-- A disk with two empty files, with their headers in sectors 3 and 4. -/
def twoFilesDisk : Disk := fun s =>
  if s = 0 then fun i => if i.val = 0 then 128 else if i.val = 4 then 1 else if i.val = 8 then 2 else 0
  else if s = 2 then fun i => if i.val = 0 then 29 else 0
  else if s = 3 then fun i => if i.val = 124 then 3 else 0
  else if s = 4 then fun i => if i.val = 124 then 4 else 0
  else fun _ => 0

def headerSector : Bool → Int
  | false => 3
  | true => 4

/-- Two threads that are to write one byte each. -/
def twoFiles : System Bool where
  store := { disk := twoFilesDisk, visNum := fun _ => 0, supply := fun _ _ => 0 }
  mutex _ := 1
  writer t :=
    { file := { hdr := headerAt twoFilesDisk (headerSector t), seekPosition := 0 }
      pending := [(fun _ => 7, 1)]
      call := none }

theorem twoFiles_begins : Begins headerSector twoFiles := by
  have count : ∀ t, sectorCount (twoFiles.file t) = 0 := by decide
  refine ⟨⟨⟨by decide, by decide, by decide⟩, by decide, by decide, ?_, ?_, ?_, ?_, ?_⟩, fun _ => rfl,
    fun t => Agrees.refl _⟩
  · intro t t'
    cases t <;> cases t' <;> decide
  · intro t
    cases t <;> exact ⟨by decide, ⟨0, by decide, by decide, by decide⟩, by decide⟩
  all_goals
    intro t
    have none := count t
    omega

section
variable {t : Bool} {s : System Bool} {source : Memory}

/-- The write of one byte begins with an extension. -/
theorem start_twoFiles (t : Bool) (source : Memory) : Call.start (twoFiles.file t) source 1 =
    .growing source 1 0 ((twoFiles.file t).grow (0 + 1 - (twoFiles.file t).hdr.numBytes)) := by
  unfold Call.start
  dsimp only
  rw [if_neg (by cases t <;> decide), if_neg (by cases t <;> decide), if_pos (by cases t <;> decide)]
  rfl

/-- A thread fetches the free map, as it was at the beginning. -/
theorem runs_fetch {size : Int} (map : IsMapHeader (headerAt s.disk 0)) (two : s.disk 2 = twoFilesDisk 2)
    (stands : (s.writer t).call = some (.growing source 1 0 ((twoFiles.file t).grow size))) :
    ∃ schedule fetched mapFile s', Runs CarefulMoves s schedule s' ∧
      BitMap.Same fetched (diskMap twoFilesDisk) ∧ IsMapHeader (OpenFile.hdr mapFile) ∧
      IsMapHeader (headerAt s'.disk 0) ∧ s'.disk 2 = twoFilesDisk 2 ∧ s'.mutex = s.mutex ∧
      (s'.writer t).call = some (.growing source 1 0 ((twoFiles.file t).takeFrom size (fetched, mapFile))) ∧
      ∀ t', t' ≠ t → s'.writer t' = s.writer t' := by
  have old : diskMap s.disk = diskMap twoFilesDisk := by
    unfold diskMap
    rw [two]
  have fetches : Beside (fun _ => True) (fun _ _ _ => True) fetchMap (fun result disk' =>
      BitMap.Same result.1 (diskMap twoFilesDisk) ∧ IsMapHeader result.2.hdr ∧
        IsMapHeader (headerAt disk' 0) ∧ disk' 2 = twoFilesDisk 2) s.disk := by
    refine beside_fetchMap ⟨trivial, trivial⟩ map (fun _ _ _ => trivial) ?_
    intro fetched mapFile disk' same header map' two'
    rw [old] at same
    exact ⟨same, header, map', two'.trans two⟩
  obtain ⟨schedule, ⟨fetched, mapFile⟩, s', run, ⟨same, header, map', two'⟩, mutex, writer, others⟩ :=
    runs_grow (t := t) (f := fun p => p >>= (twoFiles.file t).takeFrom size) (fun advances => advances.bind)
      stands fetches
  refine ⟨schedule, fetched, mapFile, s', run, same, header, map', two', mutex, ?_, others⟩
  rw [writer]
  rfl

/-- It takes the first sector that was free at the beginning. -/
theorem runs_take {fetched : BitMap} {mapFile : OpenFile} (same : BitMap.Same fetched (diskMap twoFilesDisk))
    (map : IsMapHeader mapFile.hdr)
    (stands : (s.writer t).call = some (.growing source 1 0
      ((twoFiles.file t).takeFrom (0 + 1 - (twoFiles.file t).hdr.numBytes) (fetched, mapFile)))) :
    ∃ schedule s', Runs CarefulMoves s schedule s' ∧ sectorCount (s'.file t) = 1 ∧
      (s'.file t).hdr.dataSectors 0 = 1 ∧ ∀ t', t' ≠ t → s'.writer t' = s.writer t' := by
  have sized := twoFiles_begins.laid.sized t
  have none : sectorCount (twoFiles.file t) = 0 := by cases t <;> decide
  have room : 1 ≤ fetched.freeCount := by
    rw [same.freeCount]
    exact Finset.card_pos.mpr ⟨1, Finset.mem_filter.mpr ⟨Finset.mem_range.mpr (by decide), by decide⟩⟩
  obtain ⟨hdr', after, computed, extended⟩ := sized.extends same.size
    (show (twoFiles.file t).hdr.numBytes < 0 + 1 by cases t <;> decide) (by decide)
    (by cases t <;> exact room)
  obtain ⟨length, sectors⟩ : ∃ len : Nat, hdr'.numBytes = len ∧ hdr'.numSectors = sectorsFor len := by
    obtain ⟨len, length, sectors, -⟩ := extended.sized.length
    exact ⟨len, length, sectors⟩
  have one : sectorCount { twoFiles.file t with hdr := hdr' } = 1 := by
    have total : (length : Int) = 0 + 1 := sectors.1.symm.trans extended.length
    obtain rfl : length = 1 := by omega
    exact congrArg Int.toNat sectors.2
  have first : hdr'.dataSectors 0 = 1 := by
    have taken := extended.taken.fresh (hdr'.dataSectors 0)
      (by rw [none, one]; exact mem_slots.mpr ⟨0, by decide, rfl⟩)
    have least := extended.least (by rw [none, one]; decide)
    rw [none] at least
    have marked : ∀ x, fetched.Marked x ↔ (diskMap twoFilesDisk).Marked x := same.marks
    by_contra other
    rcases Int.lt_or_gt_of_ne other with less | more
    · have zero : hdr'.dataSectors 0 = 0 := by omega
      rw [zero] at taken
      exact taken.2.2 ((marked 0).mpr (by decide))
    · exact absurd ((marked 1).mp (least 1 (by decide) more)) (by decide)
  have takes : Beside (fun _ => True) (fun _ _ _ => True)
      ((twoFiles.file t).takeFrom (0 + 1 - (twoFiles.file t).hdr.numBytes) (fetched, mapFile))
      (fun file' _ => file' = { twoFiles.file t with hdr := hdr' }) s.disk :=
    beside_takeFrom computed (extended.taken.size.trans same.size) map extended.sized.number
      (by cases t <;> decide) (by cases t <;> decide) ⟨trivial, trivial, trivial⟩ (fun _ => trivial)
      (fun _ _ _ => trivial) (fun _ _ _ _ => trivial) fun _ _ _ _ => rfl
  obtain ⟨schedule, file', s', run, ⟨rfl⟩, -, writer, others⟩ :=
    runs_grow (t := t) (f := id) id stands takes
  have call : (s'.writer t).call = some (.growing source 1 0 (.pure { twoFiles.file t with hdr := hdr' })) := by
    rw [writer]
    rfl
  refine ⟨_, _, run.next ⟨t, rfl, .grown call, ?_⟩, ?_, ?_, ?_⟩
  · intro source numBytes rest idle
    rw [call] at idle
    cases idle
  · unfold System.file
    dsimp only
    rw [Function.update_self]
    exact one
  · unfold System.file
    dsimp only
    rw [Function.update_self]
    exact first
  · intro t' other
    dsimp only
    rw [Function.update_of_ne other, others t' other]

/-- It calls `Write`. -/
theorem step_begins (fresh : s.writer t = twoFiles.writer t) (free : s.mutex (headerSector t) = 1) :
    ∃ s', Step t s s' ∧ s'.disk = s.disk ∧
      (s'.writer t).call = some (.growing (fun _ => 7) 1 0
        ((twoFiles.file t).grow (0 + 1 - (twoFiles.file t).hdr.numBytes))) ∧
      (∀ t', t' ≠ t → s'.writer t' = s.writer t' ∧ s'.mutex (headerSector t') = s.mutex (headerSector t')) := by
  have number : (twoFiles.file t).hdr.sectorNumber = headerSector t := (twoFiles_begins.laid.sized t).number
  have file : s.file t = twoFiles.file t := congrArg Writer.file fresh
  have next : (s.writer t).pending = [(fun _ => 7, 1)] := by
    rw [fresh]
    rfl
  refine ⟨_, .begins (by rw [fresh]; rfl) next ?_, rfl, ?_, fun t' other => ⟨?_, ?_⟩⟩
  · rw [file, number, free]
    decide
  · dsimp only
    rw [Function.update_self, file]
    exact congrArg some (start_twoFiles t _)
  · dsimp only
    rw [Function.update_of_ne other]
  · dsimp only
    rw [file, number, Function.update_of_ne fun same => other (twoFiles_begins.laid.apart same)]

end

theorem growth_takes_fresh_sectors_alone : ∃ schedule s, Runs CarefulMoves twoFiles schedule s ∧
    (s.file false).hdr.dataSectors 0 = 1 ∧ (diskMap s.disk).Marked 1 := by
  obtain ⟨s₁, begins, disk₁, call₁, others₁⟩ := step_begins (t := false) (s := twoFiles) rfl rfl
  have careful : Careful twoFiles false := by
    rintro source numBytes rest - next - - -
    cases next
    refine ⟨fun t' _ => Writer.not_growing_idle rfl, by decide, ?_⟩
    exact Finset.card_pos.mpr ⟨1, Finset.mem_filter.mpr ⟨Finset.mem_range.mpr (by decide), by decide⟩⟩
  obtain ⟨schedule₂, fetched, mapFile, s₂, run₂, same, map, -, -, -, call₂, -⟩ :=
    runs_fetch (by rw [disk₁]; exact twoFiles_begins.laid.map) (by rw [disk₁]; rfl) call₁
  obtain ⟨schedule₃, s₃, run₃, one, first, -⟩ := runs_take same map call₂
  have run := ((Runs.single (⟨false, rfl, begins, careful⟩ : CarefulMoves _ [false] _)).append run₂).append run₃
  refine ⟨_, s₃, run, first, ?_⟩
  have marked := (growth_takes_fresh_sectors twoFiles_begins run).1 false 0 (by rw [one]; decide)
  rw [first] at marked
  exact marked

/-- The second thread extends its file between the fetch and the write of the first: both
files get sector 1. -/
theorem two_files_share_a_sector : Begins headerSector twoFiles ∧
    ∃ schedule s, Runs Moves twoFiles schedule s ∧ 0 < sectorCount (s.file false) ∧
      0 < sectorCount (s.file true) ∧
      (s.file false).hdr.dataSectors 0 = (s.file true).hdr.dataSectors 0 := by
  refine ⟨twoFiles_begins, ?_⟩
  have plain : ∀ {s s' : System Bool} {schedule}, Runs CarefulMoves s schedule s' → Runs Moves s schedule s' :=
    fun run => run.expand fun ⟨t, events, step, _⟩ => .single ⟨t, events, step⟩
  obtain ⟨s₁, begins₁, disk₁, call₁, others₁⟩ := step_begins (t := false) (s := twoFiles) rfl rfl
  obtain ⟨schedule₂, fetched₂, mapFile₂, s₂, run₂, same₂, header₂, map₂, two₂, mutex₂, call₂, others₂⟩ :=
    runs_fetch (by rw [disk₁]; exact twoFiles_begins.laid.map) (by rw [disk₁]; rfl) call₁
  obtain ⟨s₃, begins₃, disk₃, call₃, others₃⟩ := step_begins (t := true) (s := s₂)
    (by rw [others₂ true (by decide), (others₁ true (by decide)).1])
    (by rw [mutex₂, (others₁ true (by decide)).2]; rfl)
  obtain ⟨schedule₄, fetched₄, mapFile₄, s₄, run₄, same₄, header₄, -, -, -, call₄, others₄⟩ :=
    runs_fetch (by rw [disk₃]; exact map₂) (by rw [disk₃]; exact two₂) call₃
  obtain ⟨schedule₅, s₅, run₅, one₅, first₅, others₅⟩ := runs_take same₄ header₄ call₄
  have still : s₅.writer false = s₂.writer false := by
    rw [others₅ false (by decide), others₄ false (by decide), (others₃ false (by decide)).1]
  obtain ⟨schedule₆, s₆, run₆, one₆, first₆, others₆⟩ := runs_take same₂ header₂ (by rw [still]; exact call₂)
  have kept : s₆.file true = s₅.file true := congrArg Writer.file (others₆ true (by decide))
  refine ⟨_, s₆, (((((Runs.single (⟨false, rfl, begins₁⟩ : Moves _ [false] _)).append (plain run₂)).append
    (Runs.single (⟨true, rfl, begins₃⟩ : Moves _ [true] _))).append (plain run₄)).append
    (plain run₅)).append (plain run₆), ?_, ?_, ?_⟩
  · rw [one₆]
    decide
  · rw [kept, one₅]
    decide
  · rw [kept, first₅, first₆]

end Nachos.Growth
