import Nachos.Machine.SynchDisk
import Nachos.Threads.Discipline

/-! `SynchDisk::ReadSector` and `WriteSector` called by any number of threads.

A call holds the disk's lock while it looks into the cache, makes its request
and waits for the disk's semaphore; only the invalidation at the end of
`WriteSector` runs without the lock. A cache hit calls the interrupt handler
itself, a miss waits for the interrupt the disk has scheduled. -/
namespace Nachos.DiskThreads
open Effects Threads

variable {T : Type}

/-- What the calls did, in the order in which they did it. The version of a
sector's contents counts the writes that reached it before. -/
inductive Record (T : Type) where
  /-- A read fetched its data in its locked section. -/
  | reads (t : T) (s : Int) (data : Sector) (version : Nat)
  /-- A write handed its data to the disk in its locked section. -/
  | writes (t : T) (s : Int) (data : Sector) (version : Nat)
  | readReturns (t : T) (s : Int) (data : Sector) (version : Nat)
  | writeReturns (t : T) (s : Int) (data : Sector) (version : Nat)

/-- The disk, the cache and the disk's pending interrupts, each with the thread
whose request it completes. The fields from `version` on record the run; no
decision of the code depends on them. -/
structure Shared (T : Type) where
  disk : Int → Sector
  cache : Lines
  active : Bool
  pending : List T
  /-- `ASSERT(!active)` failed. -/
  failed : Bool
  version : Int → Nat
  lineVersion : Fin cacheSize → Nat
  /-- The calls that made their request, those whose request was completed, and
  those that got past `semaphore->P()`. -/
  requests : List T
  completions : List T
  passed : List T
  log : List (Record T)

/-- The points between two operations of a thread that calls the disk. -/
inductive Point where
  | outside
  /-- Has the lock in `ReadSector`. -/
  | looking (s : Int)
  /-- Had a cache hit, and has called the interrupt handler. -/
  | awaiting (s : Int) (data : Sector) (version : Nat)
  /-- Past `semaphore->P()` in `ReadSector`. -/
  | done (s : Int) (data : Sector) (version : Nat)
  /-- Has the lock in `WriteSector`. -/
  | storing (s : Int) (data : Sector)
  /-- Past `semaphore->P()` in `WriteSector`. -/
  | stored (s : Int) (data : Sector) (version : Nat)
  /-- Has released the lock in `WriteSector`. -/
  | invalidating (s : Int) (data : Sector) (version : Nat)

abbrev DiskOp (T : Type) := Op T Unit Unit Empty

namespace Shared

/-- `Disk::ReadRequest` and `Disk::WriteRequest`, apart from the data. -/
def request (m : Shared T) (t : T) : Shared T :=
  { m with
    failed := m.failed || m.active
    active := true
    pending := m.pending ++ [t]
    requests := m.requests ++ [t] }

/-- A cache miss: `disk->ReadRequest(sectorNumber, data)`, then the data goes to
a line of the cache. -/
def miss (m : Shared T) (t : T) (s totalTicks : Int) : Shared T :=
  { m.request t with
    cache := m.cache.fill s totalTicks (m.disk s)
    lineVersion := Function.update m.lineVersion m.cache.swap (m.version s)
    log := m.log ++ [.reads t s (m.disk s) (m.version s)] }

/-- A cache hit: the data comes from the line, and `disk->HandleInterrupt()` does
what the interrupt of a request would do. -/
def hit (m : Shared T) (t : T) (s : Int) (i : Fin cacheSize) (totalTicks : Int) : Shared T :=
  { m with
    cache := m.cache.touch i totalTicks
    active := false
    requests := m.requests ++ [t]
    completions := m.completions ++ [t]
    log := m.log ++ [.reads t s (m.cache i).data (m.lineVersion i)] }

/-- `disk->WriteRequest(sectorNumber, data)`. -/
def store (m : Shared T) (t : T) (s : Int) (data : Sector) : Shared T :=
  { m.request t with
    disk := Function.update m.disk s data
    version := Function.update m.version s (m.version s + 1)
    log := m.log ++ [.writes t s data (m.version s + 1)] }

/-- The interrupt for a request of `t`: `Disk::HandleInterrupt`. -/
def complete (m : Shared T) (t : T) (pending : List T) : Shared T :=
  { m with active := false, pending := pending, completions := m.completions ++ [t] }

end Shared

/-- The code of a thread that calls `ReadSector` and `WriteSector`. -/
inductive Segment (t : T) : Point → Shared T → DiskOp T → Shared T → Point → Prop where
  | idles {m} : Segment t .outside m .tick m .outside
  | finishes {m} : Segment t .outside m .finish m .outside
  | readSector {m s} (inRange : ValidSector s) :
      Segment t .outside m (.acquire ()) m (.looking s)
  | misses {m s} (totalTicks : Int) (missing : m.cache.findPos s = none) :
      Segment t (.looking s) m (.p ()) (m.miss t s totalTicks) (.done s (m.disk s) (m.version s))
  | hits {m s i} (totalTicks : Int) (found : m.cache.findPos s = some i) :
      Segment t (.looking s) m (.v ()) (m.hit t s i totalTicks)
        (.awaiting s (m.cache i).data (m.lineVersion i))
  | awaits {m s data version} :
      Segment t (.awaiting s data version) m (.p ()) m (.done s data version)
  | readDone {m s data version} :
      Segment t (.done s data version) m (.release ())
        { m with passed := m.passed ++ [t], log := m.log ++ [.readReturns t s data version] } .outside
  | writeSector {m s} (inRange : ValidSector s) (data : Sector) :
      Segment t .outside m (.acquire ()) m (.storing s data)
  | stores {m s data} :
      Segment t (.storing s data) m (.p ()) (m.store t s data) (.stored s data (m.version s + 1))
  | releases {m s data version} :
      Segment t (.stored s data version) m (.release ()) { m with passed := m.passed ++ [t] }
        (.invalidating s data version)
  | invalidates {m s data version} :
      Segment t (.invalidating s data version) m .tick
        { m with
          cache := m.cache.invalidate s
          log := m.log ++ [.writeReturns t s data version] } .outside

/-- The disk interrupt. -/
inductive Fires : Shared T → Option Unit → Shared T → Prop where
  | diskDone {m : Shared T} {t : T} {before after : List T}
      (scheduled : m.pending = before ++ t :: after) :
      Fires m (some ()) (m.complete t (before ++ after))

def code (T : Type) : Code T Unit Unit Empty Point (Shared T) where
  segment := Segment
  handler := Fires

/-- The points at which the disk's lock is held. -/
def holding (u : Point) (_ : Unit) : Prop :=
  match u with
  | .outside | .invalidating _ _ _ => False
  | _ => True

theorem annotated : (code T).Annotated holding := by
  intro t u memory op memory' next does
  cases does <;> simp [Op.Respects, holding]

abbrev Stage := Threads.Stage Unit Unit Empty Point
abbrev View (T : Type) := Threads.View T Unit Unit Empty Point (Shared T)
abbrev State (T : Type) := Threads.State T Unit Unit Empty Point (Shared T)

/-- Nobody calls the disk, no request is under way, and no cache line is valid;
what else the cache holds is open. -/
structure Begins (k : State T) : Prop extends Starts k where
  outside (t : T) : k.phase t = .fresh .outside ∨ k.phase t = .running .outside
  semaphore : (k.sem (.plain ())).value = 0
  idle : k.memory.active = false ∧ k.memory.pending = [] ∧ k.memory.failed = false
  invalid (i : Fin cacheSize) : (k.memory.cache i).valid = false
  unrecorded : k.memory.requests = [] ∧ k.memory.completions = [] ∧ k.memory.passed = [] ∧
    k.memory.log = [] ∧ ∀ s, k.memory.version s = 0

/-! ## A blank disk and two threads -/

def blankSector : Sector := fun _ => 0

def twoThreads : State Bool where
  sem
    | .plain _ => { value := 0, queue := [] }
    | .ofLock _ => { value := 1, queue := [] }
  owner _ := none
  queue := Empty.elim
  phase _ := .running .outside
  memory :=
    { disk := fun _ => blankSector
      cache := fun _ => { valid := false, dirty := false, sector := 0, cnt := 0, data := blankSector }
      active := false
      pending := []
      failed := false
      version := fun _ => 0
      lineVersion := fun _ => 0
      requests := []
      completions := []
      passed := []
      log := [] }

theorem twoThreads_begins : Begins twoThreads where
  value
    | .plain _ => Int.le_refl 0
    | .ofLock _ => Int.one_nonneg
  asleep
    | .plain _ => rfl
    | .ofLock _ => rfl
  free _ := ⟨rfl, rfl⟩
  conditions := Empty.rec
  phase _ := ⟨.outside, .inr rfl⟩
  outside _ := .inr rfl
  semaphore := rfl
  idle := ⟨rfl, rfl, rfl⟩
  invalid _ := rfl
  unrecorded := ⟨rfl, rfl, rfl, rfl, fun _ => rfl⟩

end Nachos.DiskThreads
