import Nachos.Effects.Runs
import Nachos.Userprog.PagingProofs

/-! Several programs in one memory: they share the frames, the bitmap and the file
`virtual_memory`. The handler and the loader wait for the disk, and other threads run
meanwhile; a step is what happens between two such waits.

Frames stay apart as long as a page fault finds a free one. A program that is
loaded, and a page that is written back, overwrite the pages that other programs have
in the file. -/
namespace Nachos.Paging
open Effects Machine

/-! ## Programs -/

/-- A segment of a NOFF file. -/
structure Segment where
  virtualAddr : Nat
  bytes : List UInt8

/-- What `AddrSpace::AddrSpace` reads from a program. -/
structure Program where
  code : Segment
  initData : Segment
  uninitDataSize : Nat

def UserStackSize : Nat := 1024

/-- `numPages` of the address space. -/
def Program.numPages (program : Program) : Nat :=
  (program.code.bytes.length + program.initData.bytes.length + program.uninitDataSize +
    UserStackSize + (PageSize - 1)) / PageSize

/-- The bytes of a segment and where they go. -/
def Segment.stores (segment : Segment) : List (Nat × UInt8) :=
  segment.bytes.mapIdx fun k c => (segment.virtualAddr + k, c)

/-- The calls of `WriteAt` that load the program, in order. -/
def Program.stores (program : Program) : List (Nat × UInt8) :=
  program.code.stores ++ program.initData.stores

/-! ## The shared memory -/

inductive Status where
  | unborn | loading | live | dead
deriving DecidableEq

/-- Where a thread stands; `I` names the address spaces. -/
inductive Stage (I : Type) where
  /-- In user code, or about to run a program. -/
  | idle
  /-- In `AddrSpace::AddrSpace`, with the bytes that are still to be stored. -/
  | loading (space : I) (rest : List (Nat × UInt8))
  /-- In the page fault handler: no frame was free. -/
  | evicting (space : I) (vpn : Nat)
  /-- About to read the page; `stolen` if the frame was not free. -/
  | reading (space : I) (vpn : Nat) (pos : Fin NumPhysPages) (stolen : Bool)
  /-- About to set the entry. -/
  | mapping (space : I) (vpn : Nat) (pos : Fin NumPhysPages) (stolen : Bool)
deriving DecidableEq

/-- The address space a thread works for in the kernel. -/
def Stage.space {I : Type} : Stage I → Option I
  | .idle => none
  | .loading space _ | .evicting space _ | .reading space _ _ _ | .mapping space _ _ _ => some space

/-- The frame a thread is about to use. -/
def Stage.frame {I : Type} : Stage I → Option (Fin NumPhysPages)
  | .reading _ _ pos _ | .mapping _ _ pos _ => some pos
  | _ => none

/-- The address space a thread handles a page fault for. -/
def Stage.faulting {I : Type} : Stage I → Option I
  | .evicting space _ | .reading space _ _ _ | .mapping space _ _ _ => some space
  | _ => none

structure Shared (I T : Type) where
  mainMemory : Memory
  bitmap : Bitmap
  /-- Not there until the first program is loaded. -/
  file : Option BackingFile
  space : I → AddrSpace
  status : I → Status
  stage : T → Stage I

/-- What a step does, and for which address space. -/
inductive Event (I : Type) where
  | creates (space : I)
  | stores (space : I) (position : Nat) (c : UInt8)
  | starts (space : I)
  | accesses (space : I)
  | faults (space : I)
  | evicts (space : I)
  | reads (space : I) (pos : Fin NumPhysPages) (stolen : Bool)
  | maps (space : I) (pos : Fin NumPhysPages) (stolen : Bool)
  | exits (space : I)

def Event.space {I : Type} : Event I → I
  | .creates space | .stores space _ _ | .starts space | .accesses space | .faults space
  | .evicts space | .reads space _ _ | .maps space _ _ | .exits space => space

namespace Shared

variable {I T : Type} [DecidableEq I] [DecidableEq T]

/-- The byte of the file that a page fault would read. -/
def fileByte (s : Shared I T) (position : Nat) : Option UInt8 :=
  s.file.bind fun file => if position < file.length then some (file.bytes position) else none

/-- The memory as one address space sees it. -/
def paged (s : Shared I T) (i : I) (file : BackingFile) : Paged :=
  { mainMemory := s.mainMemory, bitmap := s.bitmap, space := s.space i, file := file }

def setSpace (s : Shared I T) (i : I) (space : AddrSpace) : Shared I T :=
  { s with space := Function.update s.space i space }

def setStage (s : Shared I T) (t : T) (stage : Stage I) : Shared I T :=
  { s with stage := Function.update s.stage t stage }

/-- `fileSystem->Create("virtual_memory", size)`: the file has what its sectors hold. -/
def Create (file : Option BackingFile) (size : Nat) (sectors : Memory) : BackingFile :=
  file.getD { length := size, bytes := sectors }

/-- One stretch of user or kernel code. -/
inductive Step : Shared I T → List (Event I) → Shared I T → Prop where
  | creates {s t i} (program : Program) (sectors : Memory) (stands : s.stage t = .idle)
      (new : s.status i = .unborn) (small : program.numPages ≤ NumPhysPages) :
      Step s [.creates i]
        { s with
          file := some (Create s.file (program.numPages * PageSize) sectors)
          space := Function.update s.space i
            { pageTable := blankTable, numPages := BitVec.ofNat 32 program.numPages }
          status := Function.update s.status i .loading
          stage := Function.update s.stage t (.loading i program.stores) }
  | stores {s t i position c rest file} (stands : s.stage t = .loading i ((position, c) :: rest))
      (exist : s.file = some file) :
      Step s [.stores i position c]
        { s.setStage t (.loading i rest) with file := some (file.WriteAt (fun _ => c) 1 position) }
  | starts {s t i} (stands : s.stage t = .loading i []) :
      Step s [.starts i]
        { s.setStage t .idle with status := Function.update s.status i .live }
  | accesses {s t i file reply m} (access : Access) (stands : s.stage t = .idle)
      (live : s.status i = .live) (exist : s.file = some file)
      (answered : (s.paged i file).attempt access = (reply, m))
      (final : reply ≠ .raised .PageFaultException) :
      Step s [.accesses i] { s.setSpace i m.space with mainMemory := m.mainMemory }
  | faults {s t i file m} (access : Access) (stands : s.stage t = .idle)
      (live : s.status i = .live) (exist : s.file = some file)
      (faulted : (s.paged i file).attempt access = (.raised .PageFaultException, m)) :
      Step s [.faults i]
        { s.setStage t (match s.bitmap.find.1 with
            | some pos => .reading i (access.addr.toNat / PageSize) pos false
            | none => .evicting i (access.addr.toNat / PageSize)) with
          bitmap := s.bitmap.find.2 }
  | evicts {s t i vpn file} (stands : s.stage t = .evicting i vpn) (exist : s.file = some file) :
      Step s [.evicts i]
        { (s.setSpace i (evict (s.space i) s.mainMemory file).1).setStage t
            (.reading i vpn 0 true) with
          file := some (evict (s.space i) s.mainMemory file).2 }
  | reads {s t i vpn pos stolen file} (stands : s.stage t = .reading i vpn pos stolen)
      (exist : s.file = some file) :
      Step s [.reads i pos stolen]
        { s.setStage t (.mapping i vpn pos stolen) with
          mainMemory := fill s.mainMemory file vpn pos }
  | maps {s t i vpn pos stolen} (stands : s.stage t = .mapping i vpn pos stolen) :
      Step s [.maps i pos stolen] ((s.setSpace i ((s.space i).mapPage vpn pos)).setStage t .idle)
  | exits {s i} (live : s.status i = .live) (unused : ∀ t, (s.stage t).space ≠ some i) :
      Step s [.exits i] { s with status := Function.update s.status i .dead }

/-- No program has been loaded yet. -/
structure Boots (s : Shared I T) : Prop where
  bitmap (i : Fin NumPhysPages) : s.bitmap i = false
  file : s.file = none
  unborn (i : I) : s.status i = .unborn
  idle (t : T) : s.stage t = .idle
  tables (i : I) : (s.space i).pageTable = blankTable

/-! ## Steps that spare the other programs -/

/-- A byte of the program's pages that is in the file as the program will read it back: a
program that is being loaded may have it yet to store. -/
def Settled (s : Shared I T) (b : I) (position : Nat) : Prop :=
  position < (s.space b).numPages.toNat * PageSize ∧
    (s.status b = .live ∨ s.status b = .loading ∧
      ∀ t rest, s.stage t = .loading b rest → ∀ c, (position, c) ∉ rest)

/-- A step stores nothing into a file page or a frame of another program. -/
def Harmless (s : Shared I T) : Event I → Prop
  | .stores i position c => ∀ b, b ≠ i → s.Settled b position → s.fileByte position = some c
  | .evicts i => ∀ j, (s.space i).victim = some j → ∀ b, b ≠ i → ∀ o, o < PageSize →
      s.Settled b (((s.space i).pageTable j).virtualPage.toNat * PageSize + o) →
      s.fileByte (((s.space i).pageTable j).virtualPage.toNat * PageSize + o) =
        some (s.mainMemory o)
  | .reads i pos stolen => stolen = true → ∀ b, b ≠ i → s.status b = .live →
      ¬ (s.space b).Holds pos
  | .maps i pos stolen => stolen = true → ∀ b, b ≠ i →
      (s.status b = .live → ¬ (s.space b).Holds pos) ∧
      ∀ t, (s.stage t).space = some b → (s.stage t).frame ≠ some pos
  | _ => True

def HarmlessStep (s : Shared I T) (events : List (Event I)) (s' : Shared I T) : Prop :=
  Step s events s' ∧ ∀ event ∈ events, s.Harmless event

/-- A step has left a program alone. -/
structure Spares (s s' : Shared I T) (b : I) : Prop where
  table : (s'.space b).pageTable = (s.space b).pageTable
  frames (j : Fin NumPhysPages) : (s.space b).Holds j → ∀ o, o < PageSize →
    s'.mainMemory (j * PageSize + o) = s.mainMemory (j * PageSize + o)
  file (position : Nat) : s.Settled b position → s'.fileByte position = s.fileByte position

end Shared

/-! ## The file -/

/-- The byte at a position, if the file reaches that far. -/
def BackingFile.byteAt (file : BackingFile) (position : Nat) : Option UInt8 :=
  if position < file.length then some (file.bytes position) else none

/-- `WriteAt` changes no byte that is already what it writes. -/
theorem BackingFile.byteAt_WriteAt {file : BackingFile} {source : Memory} {numBytes start position : Nat}
    (already : ∀ k, k < numBytes → start + k = position → file.byteAt position = some (source k)) :
    (file.WriteAt source numBytes start).byteAt position = file.byteAt position := by
  unfold WriteAt
  split
  · rfl
  · rename_i writes
    by_cases written : start ≤ position ∧ position < start + numBytes
    · have same := already (position - start) (by omega) (by omega)
      rw [same, byteAt, if_pos (by simp only; omega)]
      exact congrArg some (Memory.splice_inside written.1 written.2)
    · unfold byteAt
      by_cases inside : position < file.length
      · rw [if_pos inside, if_pos (by simp only; omega)]
        exact congrArg some (Memory.splice_outside (by omega))
      · rw [if_neg inside, if_neg (by simp only; omega)]

/-! ## Accesses -/

theorem translate_done {table table' : PageTable} {pageTableSize addr : BitVec 32} {size pa : Nat}
    {writing : Bool} (done : Translate table pageTableSize addr size writing = .done (pa, table')) :
    ¬ ((size = 4 ∧ addr &&& 3 ≠ 0) ∨ (size = 2 ∧ addr &&& 1 ≠ 0)) ∧
      ∃ i dirty, (table i).virtualPage.toNat = addr.toNat / PageSize ∧
        pa = (table i).physicalPage.toNat * PageSize + addr.toNat % PageSize ∧
        table' = touched table i dirty := by
  unfold Translate at done
  by_cases misaligned : (size = 4 ∧ addr &&& 3 ≠ 0) ∨ (size = 2 ∧ addr &&& 1 ≠ 0)
  · rw [if_pos misaligned] at done
    cases done
  · rw [if_neg misaligned] at done
    refine ⟨misaligned, ?_⟩
    simp only at done
    split at done
    · cases done
    · cases found : table.search (addr.toNat / PageSize) with
      | none =>
        rw [found] at done
        cases done
      | some i =>
        rw [found] at done
        simp only at done
        split at done
        · cases done
        · split at done
          · cases done
          · split at done
            · cases done
              exact ⟨i, _, search_some found, rfl, rfl⟩
            · cases done

/-- The entries of a table stand for the same pages and frames. -/
structure SamePages (table table' : PageTable) : Prop where
  virtualPage (j : Fin NumPhysPages) : (table' j).virtualPage = (table j).virtualPage
  physicalPage (j : Fin NumPhysPages) : (table' j).physicalPage = (table j).physicalPage

theorem SamePages.refl (table : PageTable) : SamePages table table := ⟨fun _ => rfl, fun _ => rfl⟩

theorem samePages_touched (table : PageTable) (i : Fin NumPhysPages) (dirty : Bool) :
    SamePages table (touched table i dirty) := by
  refine ⟨fun j => ?_, fun j => ?_⟩ <;>
  · unfold touched
    by_cases here : j = i
    · rw [here, Function.update_self]
    · rw [Function.update_of_ne here]

/-- An access stores only into frames of its own address space. -/
theorem attempt_spares {m m' : Paged} {access : Access} {reply : Reply}
    (frame : ∀ j, (m.space.pageTable j).physicalPage.toNat = j)
    (answered : m.attempt access = (reply, m')) :
    SamePages m.space.pageTable m'.space.pageTable ∧ m'.space.numPages = m.space.numPages ∧
      ∀ j, ¬ m.space.Holds j → ∀ o, o < 128 →
        m'.mainMemory (j * 128 + o) = m.mainMemory (j * 128 + o) := by
  have unchanged := SamePages.refl m.space.pageTable
  cases access with
  | read addr size =>
    simp only [Paged.attempt, ReadMem] at answered
    cases translated : Translate m.space.pageTable m.space.numPages addr size false with
    | raises | aborts =>
      rw [translated] at answered
      cases answered
      exact ⟨unchanged, rfl, fun _ _ _ _ => rfl⟩
    | done result =>
      obtain ⟨pa, table⟩ := result
      obtain ⟨-, i, dirty, -, -, rfl⟩ := translate_done translated
      rw [translated] at answered
      cases fetched : fetch m.mainMemory pa size with
      | none =>
        simp only [fetched] at answered
        cases answered
        exact ⟨unchanged, rfl, fun _ _ _ _ => rfl⟩
      | some value =>
        simp only [fetched] at answered
        cases answered
        exact ⟨samePages_touched _ i dirty, rfl, fun _ _ _ _ => rfl⟩
  | write addr size value =>
    simp only [Paged.attempt, WriteMem] at answered
    cases translated : Translate m.space.pageTable m.space.numPages addr size true with
    | raises | aborts =>
      rw [translated] at answered
      cases answered
      exact ⟨unchanged, rfl, fun _ _ _ _ => rfl⟩
    | done result =>
      obtain ⟨pa, table⟩ := result
      obtain ⟨aligned, i, dirty, page, rfl, rfl⟩ := translate_done translated
      rw [translated] at answered
      by_cases sized : Sized size
      · simp only [store_eq sized] at answered
        cases answered
        refine ⟨samePages_touched _ i dirty, rfl, fun j unheld o bound => ?_⟩
        have small := addr.isLt
        have held : m.space.Holds i := by
          intro none
          have page : _ = addr.toNat / 128 := page
          rw [none] at page
          have top : (-1 : BitVec 32).toNat = 4294967295 := by decide
          omega
        have apart : (j : Nat) ≠ i := by
          intro same
          rw [Fin.ext same] at unheld
          exact unheld held
        have offset := legal_offset sized (not_not.mp (mt (misaligned_iff sized addr).mpr aligned))
        have own := frame i
        refine Memory.splice_outside ?_
        rw [own]
        show j * 128 + o < i * 128 + addr.toNat % 128 ∨ i * 128 + addr.toNat % 128 + size ≤ j * 128 + o
        omega
      · have unknown : ∀ memory i, store memory i value size = none := by
          intro memory i
          unfold store
          split
          · exact absurd (.inl rfl) sized
          · exact absurd (.inr (.inl rfl)) sized
          · exact absurd (.inr (.inr rfl)) sized
          · rfl
        simp only [unknown] at answered
        cases answered
        exact ⟨unchanged, rfl, fun _ _ _ _ => rfl⟩

theorem SamePages.holds {space space' : AddrSpace} (same : SamePages space.pageTable space'.pageTable)
    (j : Fin NumPhysPages) : space'.Holds j ↔ space.Holds j := by
  unfold AddrSpace.Holds
  rw [same.virtualPage j]

/-- `ReadAt` stores only into the frame it is given. -/
theorem fill_spares {mainMemory : Memory} {file : BackingFile} {vpn o : Nat}
    {pos j : Fin NumPhysPages} (apart : j ≠ pos) (bound : o < 128) :
    fill mainMemory file vpn pos (j * 128 + o) = mainMemory (j * 128 + o) := by
  have different : (j : Nat) ≠ pos := fun same => apart (Fin.ext same)
  unfold fill BackingFile.ReadAt
  split
  · rfl
  · apply Memory.splice_outside
    show j * 128 + o < pos * 128 ∨ pos * 128 + min 128 (file.length - vpn * 128) ≤ j * 128 + o
    omega

theorem evict_cases (space : AddrSpace) (mainMemory : Memory) (file : BackingFile) :
    evict space mainMemory file = (space, file) ∨ ∃ j, space.victim = some j ∧
      SamePages space.pageTable (evict space mainMemory file).1.pageTable ∧
      (evict space mainMemory file).1.numPages = space.numPages ∧
      (evict space mainMemory file).2 =
        file.WriteAt mainMemory 128 ((space.pageTable j).virtualPage.toNat * 128) := by
  unfold evict
  cases found : space.victim with
  | none => exact .inl rfl
  | some j =>
    refine .inr ⟨j, rfl, ⟨fun k => ?_, fun k => ?_⟩, rfl, rfl⟩ <;>
    · by_cases here : k = j
      · simp [here]
      · simp [Function.update_of_ne here]

theorem mapPage_other {space : AddrSpace} {vpn : Nat} {pos j : Fin NumPhysPages} (apart : j ≠ pos) :
    (space.mapPage vpn pos).Holds j ↔ space.Holds j := by
  unfold AddrSpace.Holds AddrSpace.mapPage
  simp only [Function.update_of_ne apart]

theorem mapPage_frame (space : AddrSpace) (vpn : Nat) (pos j : Fin NumPhysPages) :
    ((space.mapPage vpn pos).pageTable j).physicalPage = (space.pageTable j).physicalPage := by
  unfold AddrSpace.mapPage
  by_cases here : j = pos
  · simp [here]
  · simp [Function.update_of_ne here]

namespace Shared

variable {I T : Type} {s s' : Shared I T}

/-! ## What keeps the programs apart -/

/-- The thread has found a free frame and not set the entry yet. -/
def Reserves (s : Shared I T) (t : T) (i : I) (pos : Fin NumPhysPages) : Prop :=
  ∃ vpn, s.stage t = .reading i vpn pos false ∨ s.stage t = .mapping i vpn pos false

/-- The frames of the programs. -/
structure Tables (s : Shared I T) : Prop where
  frame (i : I) (j : Fin NumPhysPages) : ((s.space i).pageTable j).physicalPage.toNat = j
  taken (i : I) (j : Fin NumPhysPages) : (s.space i).Holds j → s.bitmap j = true
  disjoint (a b : I) (j : Fin NumPhysPages) : a ≠ b → s.status a = .live → s.status b = .live →
    (s.space a).Holds j → ¬ (s.space b).Holds j
  fresh (i : I) (j : Fin NumPhysPages) : s.status i = .loading → ¬ (s.space i).Holds j
  exist (i : I) : s.status i = .loading ∨ s.status i = .live → s.file ≠ none

/-- The programs have their frames for themselves, and a frame that was free is kept for
the thread that found it. -/
structure Apart (s : Shared I T) : Prop extends Tables s where
  loads (t : T) (i : I) (rest : List (Nat × UInt8)) : s.stage t = .loading i rest →
    s.status i = .loading
  loader (t t' : T) (i : I) (rest rest' : List (Nat × UInt8)) : s.stage t = .loading i rest →
    s.stage t' = .loading i rest' → t = t'
  works (t : T) (i : I) : (s.stage t).faulting = some i → s.status i = .live ∨ s.status i = .dead
  pending (t : T) (pos : Fin NumPhysPages) : (s.stage t).frame = some pos → s.bitmap pos = true
  full (t : T) (i : I) (vpn : Nat) : s.stage t = .evicting i vpn → s.bitmap 0 = true
  reserved (t : T) (i b : I) (pos : Fin NumPhysPages) : s.Reserves t i pos → b ≠ i →
    s.status b = .live → ¬ (s.space b).Holds pos
  unique (t t' : T) (i i' : I) (pos : Fin NumPhysPages) : s.Reserves t i pos →
    s.Reserves t' i' pos → t = t'

theorem Boots.apart (boots : Boots s) : Apart s := by
  have unheld : ∀ i j, ¬ (s.space i).Holds j := by
    intro i j holds
    rw [AddrSpace.Holds, boots.tables i] at holds
    exact holds rfl
  have idle : ∀ {t stage}, s.stage t = stage → stage = .idle := by
    intro t stage stands
    exact stands.symm.trans (boots.idle t)
  have unreserved : ∀ t i pos, ¬ s.Reserves t i pos := by
    rintro t i pos ⟨vpn, stands | stands⟩ <;> cases idle stands
  refine ⟨⟨fun i j => ?_, fun i j holds => ?_, fun a b j _ _ _ holds => ?_, fun i j _ => unheld i j,
    fun i known => ?_⟩, fun t i rest stands => ?_, fun t _ i rest _ stands => ?_,
    fun t i stands => ?_, fun t pos stands => ?_, fun t i vpn stands => ?_,
    fun t i b pos _ _ _ => unheld b pos,
    fun t t' i i' pos reserves => ?_⟩
  · rw [boots.tables i]
    exact blank_frame j
  · exact absurd holds (unheld i j)
  · exact absurd holds (unheld a j)
  · rw [boots.unborn i] at known
    obtain loading | live := known
    · cases loading
    · cases live
  · cases idle stands
  · cases idle stands
  · rw [boots.idle t] at stands
    cases stands
  · rw [boots.idle t] at stands
    cases stands
  · cases idle stands
  · exact absurd reserves (unreserved t i pos)

theorem fileByte_some {file : BackingFile} (exist : s.file = some file) (position : Nat) :
    s.fileByte position = file.byteAt position := by
  rw [fileByte, exist]
  rfl

/-- A program is gone; no thread works for it. -/
theorem Apart.exits [DecidableEq I] (apart : Apart s) {i : I} (alive : s.status i = .live) :
    Apart { s with status := Function.update s.status i .dead } := by
  have same : ∀ a status, status ≠ .dead → Function.update s.status i .dead a = status →
      s.status a = status := by
    intro a status other now
    by_cases self : a = i
    · rw [self, Function.update_self] at now
      exact absurd now.symm other
    · rwa [Function.update_of_ne self] at now
  refine ⟨⟨apart.frame, apart.taken, fun a b j different live live' => ?_, fun a j loading => ?_,
    fun a known => ?_⟩, fun t a rest stands => ?_, apart.loader, fun t a stands => ?_, apart.pending, apart.full,
    fun t a b pos reserves other live => ?_, apart.unique⟩
  · exact apart.disjoint a b j different (same a .live (by decide) live) (same b .live (by decide) live')
  · exact apart.fresh a j (same a .loading (by decide) loading)
  · exact apart.exist a (known.imp (same a .loading (by decide)) (same a .live (by decide)))
  · have loading := apart.loads t a rest stands
    have other : a ≠ i := by
      rintro rfl
      rw [alive] at loading
      cases loading
    exact (Function.update_of_ne other _ _).trans loading
  · show Function.update s.status i .dead a = .live ∨ Function.update s.status i .dead a = .dead
    by_cases self : a = i
    · exact .inr (by rw [self, Function.update_self])
    · rw [Function.update_of_ne self]
      exact apart.works t a stands
  · exact apart.reserved t a b pos reserves other (same b .live (by decide) live)

/-- The stages after one thread has moved. -/
theorem stage_cases [DecidableEq T] {t : T} {stage : Stage I} (moved : s'.stage = Function.update s.stage t stage)
    (t' : T) : t' = t ∧ s'.stage t' = stage ∨ t' ≠ t ∧ s'.stage t' = s.stage t' := by
  rw [moved]
  by_cases self : t' = t
  · exact .inl ⟨self, by rw [self, Function.update_self]⟩
  · exact .inr ⟨self, Function.update_of_ne self _ _⟩

/-- The address spaces after one has changed. -/
theorem space_cases [DecidableEq I] {i : I} {space : AddrSpace}
    (set : s'.space = Function.update s.space i space) (a : I) :
    a = i ∧ s'.space a = space ∨ a ≠ i ∧ s'.space a = s.space a := by
  rw [set]
  by_cases self : a = i
  · exact .inl ⟨self, by rw [self, Function.update_self]⟩
  · exact .inr ⟨self, Function.update_of_ne self _ _⟩

/-- The pages of all address spaces when the entries of one keep theirs. -/
theorem samePages_setSpace [DecidableEq I] {i : I} {space : AddrSpace}
    (set : s'.space = Function.update s.space i space)
    (pages : SamePages (s.space i).pageTable space.pageTable) (a : I) :
    SamePages (s.space a).pageTable (s'.space a).pageTable := by
  obtain ⟨rfl, now⟩ | ⟨-, now⟩ := space_cases set a
  · rw [now]
    exact pages
  · rw [now]
    exact .refl _

variable [DecidableEq T]

/-- Who holds a reservation after one thread has moved. -/
theorem reserves_cases {t : T} {stage : Stage I} (moved : s'.stage = Function.update s.stage t stage)
    {t' : T} {i : I} {pos : Fin NumPhysPages} (reserves : s'.Reserves t' i pos) :
    (t' = t ∧ ∃ vpn, stage = .reading i vpn pos false ∨ stage = .mapping i vpn pos false) ∨
      (t' ≠ t ∧ s.Reserves t' i pos) := by
  obtain ⟨vpn, stands⟩ := reserves
  obtain ⟨rfl, here⟩ | ⟨other, same⟩ := stage_cases moved t'
  · rw [here] at stands
    exact .inl ⟨rfl, vpn, stands⟩
  · rw [same] at stands
    exact .inr ⟨other, vpn, stands⟩

/-- One thread moves; what it does to the tables is sound, and so is where it stands
then. -/
theorem Apart.moves (apart : Apart s) (tables : Tables s') {t : T} {stage : Stage I}
    (moved : s'.stage = Function.update s.stage t stage)
    (bitmap : ∀ j, s.bitmap j = true → s'.bitmap j = true)
    (loading : ∀ i rest, stage = .loading i rest → s'.status i = .loading ∧
      ∀ t' rest', t' ≠ t → s.stage t' ≠ .loading i rest')
    (loaders : ∀ t' i rest, t' ≠ t → s.stage t' = .loading i rest → s'.status i = .loading)
    (working : ∀ i, stage.faulting = some i → s'.status i = .live ∨ s'.status i = .dead)
    (workers : ∀ i, s.status i = .live ∨ s.status i = .dead → s'.status i = .live ∨ s'.status i = .dead)
    (framed : ∀ pos, stage.frame = some pos → s'.bitmap pos = true)
    (evicting : ∀ i vpn, stage = .evicting i vpn → s'.bitmap 0 = true)
    (reserving : ∀ i vpn pos, stage = .reading i vpn pos false ∨ stage = .mapping i vpn pos false →
      (∀ b, b ≠ i → s'.status b = .live → ¬ (s'.space b).Holds pos) ∧
      ∀ t' i', t' ≠ t → ¬ s.Reserves t' i' pos)
    (kept : ∀ t' i b pos, t' ≠ t → s.Reserves t' i pos → b ≠ i → s'.status b = .live →
      ¬ (s'.space b).Holds pos) : Apart s' := by
  refine ⟨tables, fun t' i rest stands => ?_, fun t' t'' i rest rest' stands stands' => ?_,
    fun t' i stands => ?_, fun t' pos stands => ?_, fun t' i vpn stands => ?_, fun t' i b pos after other live => ?_,
    fun t' t'' i i' pos after after' => ?_⟩
  · obtain ⟨rfl, here⟩ | ⟨other, same⟩ := stage_cases moved t'
    · exact (loading i rest (here.symm.trans stands)).1
    · exact loaders t' i rest other (same.symm.trans stands)
  · obtain ⟨rfl, here⟩ | ⟨other, same⟩ := stage_cases moved t' <;>
      obtain ⟨rfl, here'⟩ | ⟨other', same'⟩ := stage_cases moved t''
    · rfl
    · exact absurd (same'.symm.trans stands')
        ((loading i rest (here.symm.trans stands)).2 t'' rest' other')
    · exact absurd (same.symm.trans stands)
        ((loading i rest' (here'.symm.trans stands')).2 t' rest other)
    · exact apart.loader t' t'' i rest rest' (same.symm.trans stands) (same'.symm.trans stands')
  · obtain ⟨rfl, here⟩ | ⟨-, same⟩ := stage_cases moved t'
    · rw [here] at stands
      exact working i stands
    · rw [same] at stands
      exact workers i (apart.works t' i stands)
  · obtain ⟨rfl, here⟩ | ⟨-, same⟩ := stage_cases moved t'
    · rw [here] at stands
      exact framed pos stands
    · rw [same] at stands
      exact bitmap pos (apart.pending t' pos stands)
  · obtain ⟨rfl, here⟩ | ⟨-, same⟩ := stage_cases moved t'
    · exact evicting i vpn (here.symm.trans stands)
    · exact bitmap 0 (apart.full t' i vpn (same.symm.trans stands))
  · obtain ⟨-, vpn, stands⟩ | ⟨different, before⟩ := reserves_cases moved after
    · exact (reserving i vpn pos stands).1 b other live
    · exact kept t' i b pos different before other live
  · obtain ⟨rfl, vpn, stands⟩ | ⟨other, before⟩ := reserves_cases moved after <;>
      obtain ⟨rfl, vpn', stands'⟩ | ⟨other', before'⟩ := reserves_cases moved after'
    · rfl
    · exact absurd before' ((reserving i vpn pos stands).2 t'' i' other')
    · exact absurd before ((reserving i' vpn' pos stands').2 t' i other)
    · exact apart.unique t' t'' i i' pos before before'

/-- A step that sets no entry, takes no frame and changes no status. -/
theorem Apart.quiet (apart : Apart s)
    (pages : ∀ i, SamePages (s.space i).pageTable (s'.space i).pageTable)
    (bitmap : s'.bitmap = s.bitmap) (status : s'.status = s.status)
    (file : s.file ≠ none → s'.file ≠ none) {t : T} {stage : Stage I}
    (moved : s'.stage = Function.update s.stage t stage)
    (loading : ∀ i rest, stage = .loading i rest → ∃ before, s.stage t = .loading i before)
    (working : ∀ i, stage.faulting = some i → (s.stage t).faulting = some i)
    (framed : ∀ pos, stage.frame = some pos → s.bitmap pos = true)
    (evicting : ∀ i vpn, stage = .evicting i vpn → s.stage t = .evicting i vpn)
    (reserving : ∀ i vpn pos, stage = .reading i vpn pos false ∨ stage = .mapping i vpn pos false →
      s.Reserves t i pos) : Apart s' := by
  have holds : ∀ i j, (s'.space i).Holds j ↔ (s.space i).Holds j := fun i j => (pages i).holds j
  have tables : Tables s' := by
    refine ⟨fun i j => ?_, fun i j => ?_, fun a b j => ?_, fun i j => ?_, fun i => ?_⟩
    · rw [(pages i).physicalPage j]
      exact apart.frame i j
    · rw [holds, bitmap]
      exact apart.taken i j
    · rw [holds, holds, status]
      exact apart.disjoint a b j
    · rw [holds, status]
      exact apart.fresh i j
    · rw [status]
      exact fun known => file (apart.exist i known)
  refine apart.moves tables moved (by rw [bitmap]; exact fun _ => id) (fun i rest stands => ?_)
    (fun t' i rest _ stood => ?_) (fun i stands => ?_) (by rw [status]; exact fun _ => id)
    (by rw [bitmap]; exact framed) (fun i vpn stands => ?_)
    (fun i vpn pos stands => ?_) (fun t' i b pos _ => ?_)
  · obtain ⟨before, stood⟩ := loading i rest stands
    rw [status]
    exact ⟨apart.loads t i before stood, fun t' rest' other stood' =>
      other (apart.loader t' t i rest' before stood' stood)⟩
  · rw [status]
    exact apart.loads t' i rest stood
  · rw [status]
    exact apart.works t i (working i stands)
  · rw [bitmap]
    exact apart.full t i vpn (evicting i vpn stands)
  · have reserves := reserving i vpn pos stands
    refine ⟨fun b => ?_, fun t' i' other reserves' => other (apart.unique t' t i' i pos reserves' reserves)⟩
    rw [holds, status]
    exact apart.reserved t i b pos reserves
  · rw [holds, status]
    exact apart.reserved t' i b pos

/-! ## Page faults -/

theorem find_cases (map : Bitmap) : (∃ pos, map pos = false ∧
      map.find = (some pos, Function.update map pos true)) ∨
    (map.find = (none, map) ∧ ∀ j, map j = true) := by
  by_cases free : ∃ j, map j = false
  · obtain ⟨j, free⟩ := free
    exact .inl (find_some free)
  · have taken : ∀ j, map j = true := by
      intro j
      cases at_j : map j with
      | true => rfl
      | false => exact absurd ⟨j, at_j⟩ free
    refine .inr ⟨?_, taken⟩
    unfold Bitmap.find
    have none : (List.finRange NumPhysPages).find? (fun i => !map i) = Option.none := by
      apply List.find?_eq_none.mpr
      intro j _
      simp [taken j]
    rw [none]

theorem Apart.faults (apart : Apart s) {t : T} {i : I} {vpn : Nat} (live : s.status i = .live)
    (bitmap : s'.bitmap = s.bitmap.find.2) (file : s'.file = s.file) (space : s'.space = s.space)
    (status : s'.status = s.status)
    (moved : s'.stage = Function.update s.stage t (match s.bitmap.find.1 with
      | some pos => .reading i vpn pos false
      | none => .evicting i vpn)) : Apart s' := by
  obtain ⟨out, free, found⟩ | ⟨found, full⟩ := find_cases s.bitmap
  · rw [found] at bitmap moved
    have bitmap : s'.bitmap = Function.update s.bitmap out true := bitmap
    have moved : s'.stage = Function.update s.stage t (.reading i vpn out false) := moved
    have grows : ∀ j, s.bitmap j = true → s'.bitmap j = true := by
      intro j taken
      rw [bitmap]
      by_cases here : j = out
      · rw [here, Function.update_self]
      · rw [Function.update_of_ne here]
        exact taken
    have here : s'.bitmap out = true := by
      rw [bitmap, Function.update_self]
    refine apart.moves ⟨?_, fun a j holds => ?_, ?_, ?_, ?_⟩ moved grows
      (fun _ _ impossible => by cases impossible) (fun t' a rest _ stands => ?_) (fun a works => ?_)
      (by rw [status]; exact fun _ => id) (fun pos frame => ?_)
      (fun _ _ impossible => by cases impossible) (fun a vpn' pos stands => ?_)
      fun t' a b pos _ reserves => ?_
    · rw [space]
      exact apart.frame
    · rw [space] at holds
      exact grows j (apart.taken a j holds)
    · rw [space, status]
      exact apart.disjoint
    · rw [space, status]
      exact apart.fresh
    · rw [status, file]
      exact apart.exist
    · rw [status]
      exact apart.loads t' a rest stands
    · cases works
      rw [status]
      exact .inl live
    · cases frame
      exact here
    · -- The frame was free, so that nobody has it and nobody is about to.
      obtain stands | stands := stands
      · cases stands
        refine ⟨fun b _ _ holds => ?_, fun t' i' _ reserves => ?_⟩
        · rw [space] at holds
          rw [apart.taken b out holds] at free
          cases free
        · obtain ⟨vpn', stands | stands⟩ := reserves <;>
          · have taken := apart.pending t' out (by rw [stands]; rfl)
            rw [taken] at free
            cases free
      · cases stands
    · rw [space, status]
      exact apart.reserved t' a b pos reserves
  · rw [found] at bitmap moved
    have bitmap : s'.bitmap = s.bitmap := bitmap
    have moved : s'.stage = Function.update s.stage t (.evicting i vpn) := moved
    refine apart.moves ⟨?_, ?_, ?_, ?_, ?_⟩ moved (by rw [bitmap]; exact fun _ => id)
      (fun _ _ impossible => by cases impossible) (fun t' a rest _ stands => ?_) (fun a works => ?_)
      (by rw [status]; exact fun _ => id) (fun _ impossible => by cases impossible) (fun _ _ _ => ?_)
      (fun _ _ _ impossible => ?_) fun t' a b pos _ reserves => ?_
    · rw [space]
      exact apart.frame
    · rw [space, bitmap]
      exact apart.taken
    · rw [space, status]
      exact apart.disjoint
    · rw [space, status]
      exact apart.fresh
    · rw [status, file]
      exact apart.exist
    · rw [status]
      exact apart.loads t' a rest stands
    · cases works
      rw [status]
      exact .inl live
    · rw [bitmap]
      exact full 0
    · obtain impossible | impossible := impossible <;> cases impossible
    · rw [space, status]
      exact apart.reserved t' a b pos reserves

variable [DecidableEq I]

theorem Apart.maps (apart : Apart s) {t : T} {i : I} {vpn : Nat} {pos : Fin NumPhysPages}
    {stolen : Bool} (stands : s.stage t = .mapping i vpn pos stolen)
    (harmless : s.Harmless (.maps i pos stolen)) (bitmap : s'.bitmap = s.bitmap)
    (file : s'.file = s.file) (set : s'.space = Function.update s.space i ((s.space i).mapPage vpn pos))
    (status : s'.status = s.status) (moved : s'.stage = Function.update s.stage t .idle) :
    Apart s' := by
  have running := apart.works t i (by rw [stands]; rfl)
  have taken : s.bitmap pos = true := apart.pending t pos (by rw [stands]; rfl)
  -- Nobody else has the frame, and nobody else is about to.
  have mine : ∀ b, b ≠ i → s.status b = .live → ¬ (s.space b).Holds pos := by
    intro b other live
    cases stolen with
    | true => exact (harmless rfl b other).1 live
    | false => exact apart.reserved t i b pos ⟨vpn, .inr stands⟩ other live
  have alone : ∀ t' a, t' ≠ t → s.Reserves t' a pos → a = i := by
    intro t' a different reserves
    by_contra other
    cases stolen with
    | true =>
      obtain ⟨vpn', stood | stood⟩ := reserves <;>
      · refine (harmless rfl a other).2 t' ?_ ?_ <;>
        · rw [stood]
          rfl
    | false => exact different (apart.unique t' t a i pos reserves ⟨vpn, .inr stands⟩)
  have holds : ∀ a j, (s'.space a).Holds j → (s.space a).Holds j ∨ a = i ∧ j = pos := by
    intro a j holds
    obtain ⟨rfl, now⟩ | ⟨-, now⟩ := space_cases set a
    · rw [now] at holds
      by_cases here : j = pos
      · exact .inr ⟨rfl, here⟩
      · exact .inl ((mapPage_other here).mp holds)
    · rw [now] at holds
      exact .inl holds
  refine apart.moves ⟨fun a j => ?_, fun a j held => ?_, fun a b j different live live' held held' => ?_,
    fun a j loading held => ?_, ?_⟩ moved (by rw [bitmap]; exact fun _ => id)
    (fun _ _ impossible => by cases impossible) (fun t' a rest _ stood => ?_)
    (fun _ impossible => by cases impossible) (by rw [status]; exact fun _ => id)
    (fun _ impossible => by cases impossible) (fun _ _ impossible => by cases impossible)
    (fun _ _ _ impossible => ?_) fun t' a b pos' different reserves other live held => ?_
  · obtain ⟨rfl, now⟩ | ⟨-, now⟩ := space_cases set a
    · rw [now, mapPage_frame]
      exact apart.frame a j
    · rw [now]
      exact apart.frame a j
  · rw [bitmap]
    obtain held | ⟨-, rfl⟩ := holds a j held
    · exact apart.taken a j held
    · exact taken
  · rw [status] at live live'
    obtain held | ⟨rfl, rfl⟩ := holds a j held
    · obtain held' | ⟨rfl, rfl⟩ := holds b j held'
      · exact apart.disjoint a b j different live live' held held'
      · exact mine a different live held
    · obtain held' | ⟨rfl, -⟩ := holds b j held'
      · exact mine b (Ne.symm different) live' held'
      · exact different rfl
  · rw [status] at loading
    obtain held | ⟨rfl, -⟩ := holds a j held
    · exact apart.fresh a j loading held
    · rw [loading] at running
      obtain impossible | impossible := running <;> cases impossible
  · rw [status, file]
    exact apart.exist
  · rw [status]
    exact apart.loads t' a rest stood
  · obtain impossible | impossible := impossible <;> cases impossible
  · rw [status] at live
    obtain held | ⟨rfl, rfl⟩ := holds b pos' held
    · exact apart.reserved t' a b pos' reserves other live held
    · exact other (alone t' a different reserves).symm

/-! ## Programs come and go -/

theorem Apart.creates (apart : Apart s) {t : T} {i : I} {space : AddrSpace}
    {rest : List (Nat × UInt8)} (new : s.status i = .unborn) (blank : space.pageTable = blankTable)
    (bitmap : s'.bitmap = s.bitmap) (file : s'.file ≠ none)
    (set : s'.space = Function.update s.space i space)
    (status : s'.status = Function.update s.status i .loading)
    (moved : s'.stage = Function.update s.stage t (.loading i rest)) : Apart s' := by
  have unheld : ∀ j, ¬ space.Holds j := by
    intro j holds
    rw [AddrSpace.Holds, blank] at holds
    exact holds rfl
  have live : ∀ a, s'.status a = .live → s.status a = .live ∧ s'.space a = s.space a := by
    intro a alive
    rw [status] at alive
    obtain ⟨rfl, -⟩ | ⟨other, same⟩ := space_cases set a
    · rw [Function.update_self] at alive
      cases alive
    · rw [Function.update_of_ne other] at alive
      exact ⟨alive, same⟩
  have known : ∀ t' a rest', s.stage t' = .loading a rest' → a ≠ i := by
    rintro t' a rest' stands rfl
    rw [apart.loads t' a rest' stands] at new
    cases new
  refine apart.moves ⟨fun a j => ?_, fun a j holds => ?_, fun a b j different alive alive' holds => ?_,
    fun a j loading => ?_, fun _ _ => file⟩ moved (by rw [bitmap]; exact fun _ => id)
    (fun a rest' same => ?_) (fun t' a rest' _ stands => ?_) (fun _ impossible => by cases impossible)
    (fun a works => ?_) (fun _ impossible => by cases impossible)
    (fun _ _ impossible => by cases impossible) (fun _ _ _ impossible => ?_)
    fun t' a b pos _ reserves other alive => ?_
  · obtain ⟨-, now⟩ | ⟨-, now⟩ := space_cases set a
    · rw [now, blank]
      exact blank_frame j
    · rw [now]
      exact apart.frame a j
  · obtain ⟨-, now⟩ | ⟨-, now⟩ := space_cases set a
    · rw [now] at holds
      exact absurd holds (unheld j)
    · rw [now] at holds
      rw [bitmap]
      exact apart.taken a j holds
  · obtain ⟨alive, now⟩ := live a alive
    obtain ⟨alive', now'⟩ := live b alive'
    rw [now] at holds
    rw [now']
    exact apart.disjoint a b j different alive alive' holds
  · obtain ⟨-, now⟩ | ⟨other, now⟩ := space_cases set a
    · rw [now]
      exact unheld j
    · rw [now]
      rw [status, Function.update_of_ne other] at loading
      exact apart.fresh a j loading
  · cases same
    rw [status, Function.update_self]
    exact ⟨rfl, fun t' rest' _ stands => known t' i rest' stands rfl⟩
  · rw [status, Function.update_of_ne (known t' a rest' stands)]
    exact apart.loads t' a rest' stands
  · have other : a ≠ i := by
      rintro rfl
      rw [new] at works
      obtain impossible | impossible := works <;> cases impossible
    rw [status, Function.update_of_ne other]
    exact works
  · obtain impossible | impossible := impossible <;> cases impossible
  · obtain ⟨alive, now⟩ := live b alive
    rw [now]
    exact apart.reserved t' a b pos reserves other alive

theorem Apart.starts (apart : Apart s) {t : T} {i : I} (stands : s.stage t = .loading i [])
    (bitmap : s'.bitmap = s.bitmap) (file : s'.file = s.file) (space : s'.space = s.space)
    (status : s'.status = Function.update s.status i .live)
    (moved : s'.stage = Function.update s.stage t .idle) : Apart s' := by
  have loading := apart.loads t i [] stands
  have live : ∀ a, s'.status a = .live → a = i ∨ s.status a = .live := by
    intro a alive
    by_cases self : a = i
    · exact .inl self
    · rw [status, Function.update_of_ne self] at alive
      exact .inr alive
  have unheld : ∀ b j, b = i → ¬ (s.space b).Holds j := by
    rintro b j rfl
    exact apart.fresh b j loading
  refine apart.moves ⟨?_, ?_, fun a b j different alive alive' holds => ?_, fun a j known => ?_,
    fun _ _ => ?_⟩ moved (by rw [bitmap]; exact fun _ => id) (fun _ _ impossible => by cases impossible)
    (fun t' a rest other stood => ?_) (fun _ impossible => by cases impossible) (fun a known => ?_)
    (fun _ impossible => by cases impossible) (fun _ _ impossible => by cases impossible) (fun _ _ _ impossible => ?_)
    fun t' a b pos _ reserves other alive => ?_
  · rw [space]
    exact apart.frame
  · rw [space, bitmap]
    exact apart.taken
  · rw [space] at holds ⊢
    obtain here | alive := live a alive
    · exact absurd holds (unheld a j here)
    · obtain here | alive' := live b alive'
      · exact unheld b j here
      · exact apart.disjoint a b j different alive alive' holds
  · rw [space]
    by_cases self : a = i
    · exact unheld a j self
    · rw [status, Function.update_of_ne self] at known
      exact apart.fresh a j known
  · rw [file]
    exact apart.exist i (.inl loading)
  · have different : a ≠ i := by
      rintro rfl
      exact other (apart.loader t' t a rest [] stood stands)
    rw [status, Function.update_of_ne different]
    exact apart.loads t' a rest stood
  · rw [status]
    by_cases self : a = i
    · exact .inl (by rw [self, Function.update_self])
    · rw [Function.update_of_ne self]
      exact known
  · obtain impossible | impossible := impossible <;> cases impossible
  · rw [space]
    obtain here | alive := live b alive
    · exact unheld b pos here
    · exact apart.reserved t' a b pos reserves other alive

/-! ## Every step -/

theorem evict_pages (space : AddrSpace) (mainMemory : Memory) (file : BackingFile) :
    SamePages space.pageTable (evict space mainMemory file).1.pageTable := by
  obtain same | ⟨-, -, pages, -⟩ := evict_cases space mainMemory file
  · rw [same]
    exact .refl _
  · exact pages

theorem Apart.step {events : List (Event I)} (apart : Apart s) (taken : HarmlessStep s events s') :
    Apart s' := by
  obtain ⟨step, harmless⟩ := taken
  cases step with
  | creates program sectors stands new small =>
    exact apart.creates new rfl rfl (Option.some_ne_none _) rfl rfl rfl
  | stores stands exist =>
    exact apart.quiet (fun _ => .refl _) rfl rfl (fun _ => Option.some_ne_none _) rfl
      (fun i rest same => by cases same; exact ⟨_, stands⟩) (fun _ impossible => by cases impossible)
      (fun _ impossible => by cases impossible) (fun _ _ impossible => by cases impossible)
      fun _ _ _ impossible => by obtain impossible | impossible := impossible <;> cases impossible
  | starts stands => exact apart.starts stands rfl rfl rfl rfl rfl
  | @accesses t i file reply m access stands live exist answered final =>
    obtain ⟨pages, -⟩ := attempt_spares (m := s.paged i file) (apart.frame i) answered
    have still : s.stage = Function.update s.stage t (s.stage t) :=
      (Function.update_eq_self t s.stage).symm
    exact apart.quiet (samePages_setSpace rfl pages) rfl rfl id still (fun i rest same => ⟨rest, same⟩)
      (fun _ => id) (fun pos => apart.pending t pos) (fun _ _ => id) fun i vpn pos same => ⟨vpn, same⟩
  | faults access stands live exist faulted => exact apart.faults live rfl rfl rfl rfl rfl
  | @evicts t i vpn file stands exist =>
    refine apart.quiet (samePages_setSpace rfl (evict_pages _ _ _)) rfl rfl
      (fun _ => Option.some_ne_none _) rfl (fun _ _ impossible => by cases impossible) (fun a works => ?_)
      (fun pos frame => ?_) (fun _ _ impossible => by cases impossible)
      fun _ _ _ impossible => by obtain impossible | impossible := impossible <;> cases impossible
    · cases works
      rw [stands]
      rfl
    · cases frame
      exact apart.full t i vpn stands
  | @reads t i vpn pos stolen file stands exist =>
    refine apart.quiet (fun _ => .refl _) rfl rfl id rfl (fun _ _ impossible => by cases impossible)
      (fun a works => ?_) (fun pos' frame => ?_) (fun _ _ impossible => by cases impossible)
      fun a vpn' pos' same => ?_
    · cases works
      rw [stands]
      rfl
    · cases frame
      exact apart.pending t pos (by rw [stands]; rfl)
    · obtain impossible | same := same
      · cases impossible
      · cases same
        exact ⟨vpn, .inl stands⟩
  | maps stands => exact apart.maps stands (harmless _ (by simp)) rfl rfl rfl rfl rfl
  | exits live unused => exact apart.exits live

theorem Apart.spares {event : Event I} (apart : Apart s) (taken : HarmlessStep s [event] s') {b : I}
    (known : s.status b = .live ∨ s.status b = .loading) (other : b ≠ event.space) : Spares s s' b := by
  obtain ⟨step, harmless⟩ := taken
  have harmless := harmless event (by simp)
  -- A program that is being loaded has no frames yet.
  have live : ∀ j, (s.space b).Holds j → s.status b = .live := fun j holds =>
    known.resolve_right fun loading => apart.fresh b j loading holds
  cases step with
  | creates program sectors stands new small =>
    refine ⟨congrArg AddrSpace.pageTable (Function.update_of_ne other _ _), fun _ _ _ _ => rfl,
      fun position _ => ?_⟩
    -- The file is there already: `Create` fails.
    obtain ⟨file, exist⟩ := Option.ne_none_iff_exists'.mp (apart.exist b known.symm)
    rw [fileByte_some exist, fileByte, exist]
    rfl
  | stores stands exist =>
    refine ⟨rfl, fun _ _ _ _ => rfl, fun position settled => ?_⟩
    rw [fileByte_some exist]
    refine BackingFile.byteAt_WriteAt fun k bound here => ?_
    obtain rfl : k = 0 := by omega
    rw [Nat.add_zero] at here
    subst here
    rw [← fileByte_some exist]
    exact harmless b other settled
  | starts stands => exact ⟨rfl, fun _ _ _ _ => rfl, fun _ _ => rfl⟩
  | @accesses t i file reply m access stands alive exist answered final =>
    obtain ⟨-, -, memory⟩ := attempt_spares (m := s.paged i file) (apart.frame i) answered
    refine ⟨congrArg AddrSpace.pageTable (Function.update_of_ne other _ _), fun j holds o bound => ?_,
      fun _ _ => rfl⟩
    exact memory j (apart.disjoint b i j other (live j holds) alive holds) o bound
  | faults access stands alive exist faulted => exact ⟨rfl, fun _ _ _ _ => rfl, fun _ _ => rfl⟩
  | @evicts t i vpn file stands exist =>
    refine ⟨congrArg AddrSpace.pageTable (Function.update_of_ne other _ _), fun _ _ _ _ => rfl,
      fun position settled => ?_⟩
    show (evict (s.space i) s.mainMemory file).2.byteAt position = s.fileByte position
    rw [fileByte_some exist]
    obtain same | ⟨j, victim, -, -, written⟩ := evict_cases (s.space i) s.mainMemory file
    · rw [same]
    · rw [written]
      refine BackingFile.byteAt_WriteAt fun k bound here => ?_
      subst here
      rw [← fileByte_some exist]
      exact harmless j victim b other k bound settled
  | @reads t i vpn pos stolen file stands exist =>
    refine ⟨rfl, fun j holds o bound => ?_, fun _ _ => rfl⟩
    refine fill_spares (fun same => ?_) bound
    subst same
    cases stolen with
    | true => exact harmless rfl b other (live j holds) holds
    | false => exact apart.reserved t i b j ⟨vpn, .inl stands⟩ other (live j holds) holds
  | maps stands =>
    exact ⟨congrArg AddrSpace.pageTable (Function.update_of_ne other _ _), fun _ _ _ _ => rfl,
      fun _ _ => rfl⟩
  | exits => exact ⟨rfl, fun _ _ _ _ => rfl, fun _ _ => rfl⟩

/-- Nothing is loaded. -/
def bare : Shared Bool Bool where
  mainMemory := fun _ => 0
  bitmap := fun _ => false
  file := none
  space := fun _ => { pageTable := blankTable, numPages := 0 }
  status := fun _ => .unborn
  stage := fun _ => .idle

theorem boots_bare : Boots bare := ⟨fun _ => rfl, rfl, fun _ => rfl, fun _ => rfl, fun _ => rfl⟩

/-- One byte of code at address 0. -/
def oneByte (c : UInt8) : Program where
  code := { virtualAddr := 0, bytes := [c] }
  initData := { virtualAddr := 0, bytes := [] }
  uninitDataSize := 0

/-- A thread has begun to load a program of one byte. -/
def creating (s : Shared Bool Bool) (i : Bool) (c : UInt8) : Shared Bool Bool :=
  { s with
    file := some (Create s.file ((oneByte c).numPages * PageSize) fun _ => 0)
    space := Function.update s.space i
      { pageTable := blankTable, numPages := BitVec.ofNat 32 (oneByte c).numPages }
    status := Function.update s.status i .loading
    stage := Function.update s.stage i (.loading i (oneByte c).stores) }

/-- The byte is in the file. -/
def storing (s : Shared Bool Bool) (i : Bool) (c : UInt8) (file : BackingFile) : Shared Bool Bool :=
  { s.setStage i (.loading i []) with file := some (file.WriteAt (fun _ => c) 1 0) }

/-- The program runs. -/
def starting (s : Shared Bool Bool) (i : Bool) : Shared Bool Bool :=
  { s.setStage i .idle with status := Function.update s.status i .live }

/-- The file after the first program was created. -/
def emptyFile : BackingFile := { length := 1152, bytes := fun _ => 0 }

def fullFile (c : UInt8) : BackingFile := emptyFile.WriteAt (fun _ => c) 1 0

/-- The first program is loaded; its byte is an `'A'`. -/
def first : Shared Bool Bool := starting (storing (creating bare false 65) false 65 emptyFile) false

/-- Two programs with the same byte are being loaded at once. -/
def together : Shared Bool Bool := creating (creating bare false 65) true 65

/-- The first one has stored its byte. -/
def half : Shared Bool Bool := storing together false 65 emptyFile

/-- Both of them run. -/
def second : Shared Bool Bool := starting (starting (storing half true 65 (fullFile 65)) false) true

end Shared

end Nachos.Paging
