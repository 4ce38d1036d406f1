import Mathlib.Algebra.BigOperators.Group.List.Lemmas
import Nachos.Effects.Interleaving
import Nachos.Effects.Runs
import Nachos.Filesys.FileAccess

/-! Several threads in `OpenFile::Read` on one handle. `ReaderIn` lets readers in
together, and the position of the handle is used before the `Yield` and moved
after it, so two reads that overlap return the same bytes. The position itself
ends up right, because every read adds what it has read. -/
namespace Nachos.SharedReads
open Effects FileHeader OpenFile

variable {T : Type}

/-- A call of `ReadAt` by `Read`: the position it was given, and what `Read` has
returned. -/
structure Call where
  numBytes : Int
  position : Int
  outcome : Option (Int × Memory)

/-- Where a thread stands in `Read`. -/
inductive Phase where
  | outside
  /-- `ReaderIn` has returned. -/
  | admitted (into : Memory) (numBytes : Int)
  | reading (call : Nat) (rest : Kernel (Int × Memory × OpenFile))
  /-- In `Yield`, with the position yet to be moved. -/
  | yielding (call : Nat) (result : Int) (into : Memory)

/-- Which call the thread is in. -/
def Phase.call : Phase → Option Nat
  | .reading call _ | .yielding call _ _ => some call
  | _ => none

/-- The machine, the handle and the threads, with the calls in the order in which
they started. -/
structure System (T : Type) where
  store : Store
  file : OpenFile
  phase : T → Phase
  calls : List Call

def System.disk (s : System T) : Disk := s.store.disk

inductive Event (T : Type) where
  | readerIn (t : T)
  | readAt (t : T)
  | sector (t : T)
  | yields (t : T)
  | returns (t : T)
  | others

section
variable [DecidableEq T]

/-- One thread goes on, by at most one sector, or the rest of the machine does,
which leaves the sectors `keep` alone. Readers do not keep each other out, and
the file is not being written, so `ReaderIn` and `ReaderOut` only take time. The
one part of the header that `ReadAt` changes is the visit time. -/
inductive Step (keep : Int → Prop) : Event T → System T → System T → Prop where
  | readerIn {s : System T} {t : T} {into : Memory} {numBytes : Int} (idle : s.phase t = .outside) :
      Step keep (.readerIn t) s { s with phase := Function.update s.phase t (.admitted into numBytes) }
  | readAt {s : System T} {t : T} {into : Memory} {numBytes : Int}
      (stands : s.phase t = .admitted into numBytes) :
      Step keep (.readAt t) s
        { s with
          phase := Function.update s.phase t
            (.reading s.calls.length (s.file.ReadAt into numBytes s.file.seekPosition))
          calls := s.calls ++
            [{ numBytes := numBytes, position := s.file.seekPosition, outcome := none }] }
  | sector {s : System T} {t : T} {call : Nat} {p p' : Kernel (Int × Memory × OpenFile)} {store : Store}
      (stands : s.phase t = .reading call p)
      (advances : Program.Advances Store.handle p s.store p' store) :
      Step keep (.sector t) s
        { s with store := store, phase := Function.update s.phase t (.reading call p') }
  | yields {s : System T} {t : T} {call : Nat} {result : Int} {into : Memory} {file : OpenFile}
      (stands : s.phase t = .reading call (.pure (result, into, file))) :
      Step keep (.yields t) s
        { s with
          file := { s.file with hdr := file.hdr }
          phase := Function.update s.phase t (.yielding call result into) }
  /-- `seekPosition += result`, `ReaderOut` and the return. -/
  | returns {s : System T} {t : T} {call : Nat} {result : Int} {into : Memory}
      (stands : s.phase t = .yielding call result into) :
      Step keep (.returns t) s
        { s with
          file := { s.file with seekPosition := s.file.seekPosition + result }
          phase := Function.update s.phase t .outside
          calls := s.calls.modify call fun c => { c with outcome := some (result, into) } }
  | others {s : System T} {store : Store} (kept : ∀ sector, keep sector → store.disk sector = s.disk sector) :
      Step keep .others s { s with store := store }

/-- The trace has each step with the state it was taken in. -/
def Moves (keep : Int → Prop) (s : System T) (trace : List (System T × Event T)) (s' : System T) : Prop :=
  ∃ event, trace = [(s, event)] ∧ Step keep event s s'

end

/-- The sectors of a file: its blocks, and the indirect block. -/
def Own (disk : Disk) (hdr : FileHeader) (sector : Int) : Prop :=
  (∃ k, k < sectorsFor hdr.numBytes.toNat ∧ sector = blockSector disk hdr k) ∨
    8 < sectorsFor hdr.numBytes.toNat ∧ sector = hdr.dataSectors 8

/-- A handle that nobody is using yet, on a file whose header is none of its blocks. -/
structure Ready (s : System T) : Prop where
  idle : ∀ t, s.phase t = .outside
  unused : s.calls = []
  position : 0 ≤ s.file.seekPosition
  apart : ¬ Own s.disk s.file.hdr s.file.hdr.sectorNumber

/-- The number of bytes that the calls have returned. -/
def total (calls : List Call) : Int := (calls.map fun call => (call.outcome.map Prod.fst).getD 0).sum

/-- The bytes that the calls have returned, in the order in which they started. -/
def delivered (calls : List Call) : List UInt8 :=
  calls.flatMap fun call => match call.outcome with
    | some (result, into) => (List.range result.toNat).map into
    | none => []

/-- Each call has read where the calls before it stopped, together they have read
the contents, and the position is behind them. -/
structure InOrder (contents : Nat → UInt8) (start : Int) (s : System T) : Prop where
  consecutive : ∀ i call result into, s.calls[i]? = some call → call.outcome = some (result, into) →
    0 < result → call.position = start + total (s.calls.take i)
  contents : delivered s.calls =
    (List.range (total s.calls).toNat).map fun o => contents (start.toNat + o)
  position : s.file.seekPosition = start + total s.calls

/-- A read at this position has bytes to read. -/
def Finds (hdr : FileHeader) (numBytes position : Int) : Prop := 0 < numBytes ∧ position < hdr.FileLength

/-- If the step begins a read that has bytes to read, no other such read is still
to return. -/
def Alone (s : System T) : Event T → Prop
  | .readAt t => ∀ into numBytes, s.phase t = .admitted into numBytes →
      Finds s.file.hdr numBytes s.file.seekPosition →
      ∀ call ∈ s.calls, call.outcome = none → ¬ Finds s.file.hdr call.numBytes call.position
  | _ => True

/-! ## One read -/

section
variable {disk : Disk} {hdr : FileHeader} {file : OpenFile}

/-- A read writes the header alone. -/
def allowed (hdr : FileHeader) : KernelRequest → Prop
  | .writeSector s _ => s = hdr.sectorNumber
  | _ => True

/-- The sectors of the file are read as they are on this disk. -/
def answers (disk : Disk) (hdr : FileHeader) : (r : KernelRequest) → kernel.Reply r → Prop
  | .readSector s, data => Own disk hdr s → data = disk s
  | _, _ => True

theorem numBytes_lt (hdr : FileHeader) : hdr.numBytes < 2147483648 := by
  unfold FileHeader.numBytes FileHeader.field
  have bound := BitVec.toInt_lt (x := hdr.mem.word 0)
  omega

/-- `ByteToSector` finds the block, if it returns. -/
theorem heeds_ByteToSector {offset : Int} {post : Int → Prop} (agrees : Agrees file.hdr hdr) (k : Nat)
    (place : offset = (k : Int) * SectorSize) (inside : k < 8 ∨ k < sectorsFor hdr.numBytes.toNat)
    (holds : post (blockSector disk hdr k)) :
    (file.hdr.ByteToSector offset).Heeds (allowed hdr) (answers disk hdr) post := by
  subst place
  by_cases direct : k < 8
  · rw [ByteToSector_direct direct, agrees.dataSectors (by omega), ← blockSector_direct direct]
    exact holds
  · have within : k < sectorsFor hdr.numBytes.toNat := by omega
    have short := numBytes_lt hdr
    have unsigned : toUnsigned ((k : Int) * SectorSize) = k * 128 := by
      unfold sectorsFor at within
      unfold toUnsigned
      simp only [SectorSize]
      omega
    have last : NumDirect - 1 = 8 := rfl
    have tmpOffset : (k * 128 - 8 * SectorSize) / SectorSize = k - 8 := by
      simp only [SectorSize]
      omega
    unfold ByteToSector
    rw [unsigned, last, if_neg (by simp only [SectorSize]; omega), tmpOffset, agrees.dataSectors (by omega)]
    refine Program.heeds_bind ⟨trivial, fun indirect given => ?_⟩
    have entry : indirect = disk (hdr.dataSectors 8) := given (.inr ⟨by omega, rfl⟩)
    dsimp only [Program.Heeds]
    split
    · rw [blockSector, if_neg direct, ← entry, Nat.mul_comm] at holds
      exact holds
    · trivial

theorem heeds_readSectors {post : Memory → Prop} {first count : Nat} {buf : Memory}
    (agrees : Agrees file.hdr hdr)
    (inside : ∀ k, first ≤ k → k < first + count → k < 8 ∨ k < sectorsFor hdr.numBytes.toNat)
    (holds : ∀ buf', (∀ x, x < count * 128 → first + x / 128 < sectorsFor hdr.numBytes.toNat →
      buf' x = fileByte disk hdr (first * 128 + x)) → post buf') :
    (readSectors file.hdr first count buf).Heeds (allowed hdr) (answers disk hdr) post := by
  refine Program.heeds_mono (Program.heeds_loop (fun i buf' => ∀ x, x < i * 128 →
    first + x / 128 < sectorsFor hdr.numBytes.toNat → buf' x = fileByte disk hdr (first * 128 + x))
    (by omega) ?_) holds
  intro i buf' less filled
  refine Program.heeds_bind (heeds_ByteToSector agrees (first + i) (by simp) (inside _ (by omega) (by omega)) ?_)
  refine Program.heeds_bind ⟨trivial, fun data given => ?_⟩
  intro x bound within
  by_cases old : x < i * 128
  · rw [Memory.splice_outside (by simp only [SectorSize]; omega)]
    exact filled x old within
  · have block : (first * 128 + x) / 128 = first + i := by omega
    have offset : (first * 128 + x) % 128 = x - i * SectorSize := by
      simp only [SectorSize]
      omega
    have mine : Own disk hdr (blockSector disk hdr (first + i)) := .inl ⟨first + i, by omega, rfl⟩
    rw [Memory.splice_inside (by simp only [SectorSize]; omega) (by simp only [SectorSize]; omega), fileByte,
      block, offset, given mine]

/-- How many bytes a call has to read. -/
def Call.count (hdr : FileHeader) (call : Call) : Nat :=
  if call.position > hdr.FileLength then 0
  else min call.numBytes.toNat (hdr.FileLength - call.position).toNat

theorem Call.finds_iff {call : Call} : Finds hdr call.numBytes call.position ↔ 0 < call.count hdr := by
  unfold Finds Call.count
  split <;> omega

/-- What a call of `ReadAt` may return. -/
structure Reads (disk : Disk) (hdr : FileHeader) (call : Call) (result : Int) (into : Memory) : Prop where
  count : result = call.count hdr
  bytes : ∀ j, j < call.count hdr → into j = fileByte disk hdr (call.position.toNat + j)

/-- The sectors that `ReadAt` counts are in the file, or there is the first one. -/
theorem sectorsRead_within {len n pos k : Nat} (reached : pos ≤ len) (low : pos / 128 ≤ k)
    (high : k < pos / 128 + sectorsRead pos (min n (len - pos))) : k < 8 ∨ k < sectorsFor len := by
  unfold sectorsFor
  by_cases some : 0 < min n (len - pos)
  · rw [sectorsRead_inside some] at high
    omega
  · -- at the end, or nothing is asked for: `lastSector` is the sector before
    have nothing : min n (len - pos) = 0 := by omega
    rw [nothing] at high
    rw [sectorsRead_end] at high
    split at high <;> omega

theorem heeds_ReadAt {into : Memory} {call : Call} (agrees : Agrees file.hdr hdr) (positive : 0 ≤ call.position) :
    (file.ReadAt into call.numBytes call.position).Heeds (allowed hdr) (answers disk hdr)
      fun (result, into', file') => Reads disk hdr call result into' ∧ Agrees file'.hdr hdr := by
  have length := agrees.numBytes
  by_cases nothing : call.numBytes ≤ 0 ∨ call.position > hdr.numBytes
  · have none : call.count hdr = 0 := by
      have same : hdr.FileLength = hdr.numBytes := rfl
      unfold Call.count
      split <;> omega
    have refused : call.numBytes ≤ 0 ∨ call.position > file.hdr.FileLength := by
      rw [show file.hdr.FileLength = file.hdr.numBytes from rfl, length]
      exact nothing
    unfold ReadAt
    dsimp only
    rw [if_pos refused]
    exact ⟨⟨by rw [none]; rfl, by omega⟩, agrees⟩
  · obtain ⟨n, some⟩ := Int.eq_ofNat_of_zero_le (show 0 ≤ call.numBytes by omega)
    obtain ⟨pos, start⟩ := Int.eq_ofNat_of_zero_le positive
    obtain ⟨len, size⟩ := Int.eq_ofNat_of_zero_le (show 0 ≤ hdr.numBytes by omega)
    have count : call.count hdr = min n (len - pos) := by
      unfold Call.count FileHeader.FileLength
      rw [if_neg (by omega), some, start, size]
      omega
    by_cases sum : pos + n < 2147483648
    swap
    · rw [some, start, ReadAt_overflow (length.trans size) (by omega) (by omega) sum]
      trivial
    rw [some, start, ReadAt_eq (length.trans size) (by omega) (by omega) sum]
    refine Program.heeds_bind ⟨trivial, fun storage _ => ?_⟩
    have sectors : hdr.numBytes.toNat = len := by omega
    refine Program.heeds_bind (heeds_readSectors agrees (fun k low high => ?_) fun buf filled => ?_)
    · rw [sectors]
      exact sectorsRead_within (by omega) low high
    refine ⟨trivial, fun text _ => ?_⟩
    have stamped : Agrees (file.hdr.splice TimeMode.visit.offset 25 fun k => if k < 24 then text k else 0)
        hdr := Agrees.trans sameBut_splice.agrees agrees
    refine ⟨stamped.sectorNumber, fun _ _ => ⟨⟨by rw [count], fun j less => ?_⟩, stamped⟩⟩
    rw [count] at less
    have block : pos / 128 + (pos % 128 + j) / 128 = (pos + j) / 128 := by omega
    have offset : pos / 128 * 128 + (pos % 128 + j) = pos + j := by omega
    have first : ((pos : Int) - ((pos / 128 : Nat) : Int) * SectorSize).toNat = pos % 128 := by
      simp only [SectorSize]
      omega
    have last := @sectorsRead_inside pos (min n (len - pos)) (by omega)
    rw [Memory.splice_inside (by omega) (by omega), Nat.sub_zero, first, filled (pos % 128 + j) (by omega), offset,
      start]
    · rfl
    · rw [block, sectors]
      exact lt_sectorsFor_iff.mpr (by omega)

end

/-! ## What holds while they read -/

/-- How many bytes the calls have to read, and how many of them the position has
moved over. -/
def due (hdr : FileHeader) (calls : List Call) : Nat := (calls.map (Call.count hdr)).sum

def moved (hdr : FileHeader) (calls : List Call) : Nat :=
  (calls.map fun call => if call.outcome.isSome then call.count hdr else 0).sum

/-- Each call begins where the calls before it end. -/
def InPlace (hdr : FileHeader) (start : Int) (calls : List Call) : Prop :=
  ∀ i call, calls[i]? = some call → 0 < call.count hdr → call.position = start + due hdr (calls.take i)

section
variable {hdr : FileHeader} {start : Int} {calls : List Call} {call : Call} {k : Nat}

theorem due_append : due hdr (calls ++ [call]) = due hdr calls + call.count hdr := by
  simp [due]

theorem moved_append : moved hdr (calls ++ [call]) =
    moved hdr calls + if call.outcome.isSome then call.count hdr else 0 := by
  simp [moved]

theorem moved_le_due : moved hdr calls ≤ due hdr calls := by
  induction calls with
  | nil => exact le_rfl
  | cons call calls ih =>
    simp only [moved, due, List.map_cons, List.sum_cons] at ih ⊢
    split <;> omega

/-- The position has moved over everything exactly when no call with bytes to read
is still to return. -/
theorem moved_eq_due : moved hdr calls = due hdr calls ↔
    ∀ call ∈ calls, call.outcome = none → call.count hdr = 0 := by
  induction calls with
  | nil => simp [moved, due]
  | cons call calls ih =>
    have behind := @moved_le_due hdr calls
    rw [List.forall_mem_cons, ← ih]
    simp only [moved, due, List.map_cons, List.sum_cons] at behind ⊢
    cases outcome : call.outcome with
    | none =>
      simp only [Option.isSome_none, Bool.false_eq_true, if_false, forall_const]
      omega
    | some result => simp

theorem moved_returns (stands : calls[k]? = some call) (pending : call.outcome = none) {outcome : Int × Memory} :
    moved hdr (calls.modify k fun c => { c with outcome := some outcome }) =
      moved hdr calls + call.count hdr := by
  induction calls generalizing k with
  | nil => simp at stands
  | cons head calls ih =>
    cases k with
    | zero =>
      obtain rfl : head = call := by simpa using stands
      simp [moved, pending, Call.count, Nat.add_comm]
    | succ k =>
      have rest := ih (k := k) (by simpa using stands)
      simp only [moved, List.modify_succ_cons, List.map_cons, List.sum_cons] at rest ⊢
      rw [rest, Nat.add_assoc]

theorem inPlace_append : InPlace hdr start (calls ++ [call]) ↔
    InPlace hdr start calls ∧ (0 < call.count hdr → call.position = start + due hdr calls) := by
  constructor
  · intro all
    refine ⟨fun i c stands positive => ?_, fun positive => ?_⟩
    · have bound := (List.getElem?_eq_some_iff.mp stands).1
      have before := all i c (by rw [List.getElem?_append_left bound]; exact stands) positive
      rwa [List.take_append_of_le_length bound.le] at before
    · simpa using all calls.length call (by simp) positive
  · rintro ⟨old, new⟩ i c stands positive
    by_cases bound : i < calls.length
    · rw [List.getElem?_append_left bound] at stands
      rw [List.take_append_of_le_length bound.le]
      exact old i c stands positive
    · have last : i = calls.length := by
        have := (List.getElem?_eq_some_iff.mp stands).1
        simp only [List.length_append, List.length_singleton] at this
        omega
      subst last
      obtain rfl : call = c := by simpa using stands
      simpa using new positive

/-- That a call returns does not change where it began. -/
theorem map_returns {B : Type} {f : Call → B} {outcome : Int × Memory}
    (same : ∀ c, f { c with outcome := some outcome } = f c) :
    (calls.modify k fun c => { c with outcome := some outcome }).map f = calls.map f := by
  induction calls generalizing k with
  | nil => simp
  | cons head calls ih =>
    cases k with
    | zero => simp [same]
    | succ k => simp [ih]

/-- The calls after a return are those before it, but for one outcome. -/
theorem mem_returns {calls : List Call} {k : Nat} {outcome : Int × Memory} {call' : Call}
    (member : call' ∈ calls.modify k fun c => { c with outcome := some outcome }) :
    call' ∈ calls ∨ ∃ call, calls[k]? = some call ∧ call' = { call with outcome := some outcome } := by
  obtain ⟨i, here⟩ := List.mem_iff_getElem?.mp member
  rw [List.getElem?_modify, Option.map_eq_map, Option.map_eq_some_iff] at here
  obtain ⟨call, stands, same⟩ := here
  split at same
  · rename_i last
    subst last
    exact .inr ⟨call, stands, same.symm⟩
  · subst same
    exact .inl (List.mem_of_getElem? stands)

theorem InPlace.congr {calls' : List Call}
    (same : calls'.map (fun c => (c.position, c.count hdr)) = calls.map fun c => (c.position, c.count hdr))
    (inPlace : InPlace hdr start calls) : InPlace hdr start calls' := by
  intro i call' stands positive
  have counts : ∀ n, due hdr (calls'.take n) = due hdr (calls.take n) := by
    intro n
    have both := congrArg (fun pairs => ((pairs.take n).map Prod.snd).sum) same
    simpa [due, ← List.map_take, Function.comp_def] using both
  have here : (calls.map fun c => (c.position, c.count hdr))[i]? = some (call'.position, call'.count hdr) := by
    rw [← same, List.getElem?_map, stands]
    rfl
  rw [List.getElem?_map, Option.map_eq_some_iff] at here
  obtain ⟨call, stands, pair⟩ := here
  obtain ⟨position, count⟩ := Prod.mk.inj pair
  rw [counts, ← position]
  exact inPlace i call stands (by omega)

end

/-- A thread in a call is on its way to what the call may return. -/
def Underway (disk : Disk) (hdr : FileHeader) (calls : List Call) : Phase → Prop
  | .reading k rest => ∃ call, calls[k]? = some call ∧ call.outcome = none ∧
      rest.Heeds (allowed hdr) (answers disk hdr)
        fun (result, into, file) => Reads disk hdr call result into ∧ Agrees file.hdr hdr
  | .yielding k result into => ∃ call, calls[k]? = some call ∧ call.outcome = none ∧
      Reads disk hdr call result into
  | _ => True

/-- The calls that have returned have read their bytes, no two threads are in the
same call, and the position has moved over what has been returned. -/
structure Sound (disk : Disk) (hdr : FileHeader) (start : Int) (s : System T) : Prop where
  header : Agrees s.file.hdr hdr
  same : ∀ sector, Own disk hdr sector → s.disk sector = disk sector
  position : s.file.seekPosition = start + moved hdr s.calls
  begun : ∀ call ∈ s.calls, 0 ≤ call.position
  returned : ∀ call ∈ s.calls, ∀ result into, call.outcome = some (result, into) →
    Reads disk hdr call result into
  underway : ∀ t, Underway disk hdr s.calls (s.phase t)
  apart : ∀ t t' k, (s.phase t).call = some k → (s.phase t').call = some k → t = t'

section
variable {disk : Disk} {hdr : FileHeader} {start : Int} {s s' : System T} {event : Event T} {t : T}
  {phase phase' : Phase} {calls calls' : List Call} {k : Nat}

theorem Ready.sound (ready : Ready s) : Sound s.disk s.file.hdr s.file.seekPosition s where
  header := Agrees.refl _
  same := fun _ _ => rfl
  position := by simp [ready.unused, moved]
  begun := by simp [ready.unused]
  returned := by simp [ready.unused]
  underway := fun t => by
    rw [ready.idle t]
    trivial
  apart := fun t t' k stands => by
    rw [ready.idle t] at stands
    cases stands

/-- A thread's call is one that has started and is still to return. -/
theorem Underway.stands (underway : Underway disk hdr calls phase) (inside : phase.call = some k) :
    ∃ call, calls[k]? = some call ∧ call.outcome = none := by
  cases phase with
  | reading k' rest =>
    obtain rfl : k' = k := Option.some.inj inside
    obtain ⟨call, stands, pending, -⟩ := underway
    exact ⟨call, stands, pending⟩
  | yielding k' result into =>
    obtain rfl : k' = k := Option.some.inj inside
    obtain ⟨call, stands, pending, -⟩ := underway
    exact ⟨call, stands, pending⟩
  | outside => cases inside
  | admitted into numBytes => cases inside

/-- Only what the calls say at the thread's own place matters. -/
theorem Underway.congr (underway : Underway disk hdr calls phase)
    (same : ∀ k, phase.call = some k → ∀ call, calls[k]? = some call → calls'[k]? = some call) :
    Underway disk hdr calls' phase := by
  cases phase with
  | reading k' rest =>
    obtain ⟨call, stands, rest⟩ := underway
    exact ⟨call, same k' rfl call stands, rest⟩
  | yielding k' result into =>
    obtain ⟨call, stands, rest⟩ := underway
    exact ⟨call, same k' rfl call stands, rest⟩
  | outside => trivial
  | admitted into numBytes => trivial

variable [DecidableEq T]

/-- A thread moves on in its call, into a call of its own, or out of it. -/
theorem Sound.moves (sound : Sound disk hdr start s)
    (own : ∀ k t', phase.call = some k → (s.phase t').call = some k → t' = t) (t₁ t₂ : T) (k : Nat)
    (first : (Function.update s.phase t phase t₁).call = some k)
    (second : (Function.update s.phase t phase t₂).call = some k) : t₁ = t₂ := by
  by_cases here : t₁ = t <;> by_cases there : t₂ = t
  · rw [here, there]
  · subst here
    rw [Function.update_self] at first
    rw [Function.update_of_ne there] at second
    exact (own k t₂ first second).symm
  · subst there
    rw [Function.update_self] at second
    rw [Function.update_of_ne here] at first
    exact own k t₁ second first
  · rw [Function.update_of_ne here] at first
    rw [Function.update_of_ne there] at second
    exact sound.apart t₁ t₂ k first second

theorem Sound.sets (others : ∀ t', t' ≠ t → Underway disk hdr calls (s.phase t'))
    (mine : Underway disk hdr calls phase) (t' : T) :
    Underway disk hdr calls (Function.update s.phase t phase t') := by
  by_cases here : t' = t
  · subst here
    rw [Function.update_self]
    exact mine
  · rw [Function.update_of_ne here]
    exact others t' here

/-- An answer leaves the file alone if the request is one that `ReadAt` makes. -/
theorem answered_same {store store' : Store} {r : KernelRequest} {reply : kernel.Reply r}
    (permitted : allowed hdr r) (answered : Store.handle r store = .done reply store')
    (apart : ¬ Own disk hdr hdr.sectorNumber) {sector : Int} (own : Own disk hdr sector) :
    store'.disk sector = store.disk sector := by
  cases r with
  | writeSector s data =>
    obtain rfl : s = hdr.sectorNumber := permitted
    simp only [Store.handle] at answered
    split at answered <;> cases answered
    exact Function.update_of_ne (by rintro rfl; exact apart own) _ _
  | readSector s =>
    simp only [Store.handle] at answered
    split at answered <;> cases answered
    rfl
  | visNum s =>
    simp only [Store.handle] at answered
    split at answered <;> cases answered
    rfl
  | setVisNum s count =>
    simp only [Store.handle] at answered
    split at answered <;> cases answered
    rfl
  | uninitialized =>
    cases answered
    rfl

/-- The sectors of the file are answered as they are. -/
theorem answered_answers {store store' : Store}
    (same : ∀ sector, Own disk hdr sector → store.disk sector = disk sector)
    (r : KernelRequest) (reply : kernel.Reply r) (answered : Store.handle r store = .done reply store') :
    answers disk hdr r reply := by
  cases r with
  | readSector s =>
    intro own
    simp only [Store.handle] at answered
    split at answered <;> cases answered
    exact same s own
  | _ => trivial

theorem Sound.step (sound : Sound disk hdr start s) (positive : 0 ≤ start)
    (apart : ¬ Own disk hdr hdr.sectorNumber) (step : Step (Own disk hdr) event s s') :
    Sound disk hdr start s' := by
  cases step with
  | readerIn idle =>
    exact { sound with
      underway := Sound.sets (fun t' _ => sound.underway t') trivial
      apart := sound.moves (by rintro k t' ⟨⟩) }
  | @readAt _ t into numBytes stands =>
    have grown : ∀ (k : Nat) (call : Call), s.calls[k]? = some call →
        (s.calls ++ [⟨numBytes, s.file.seekPosition, none⟩])[k]? = some call := by
      intro k call here
      rw [List.getElem?_append_left (List.getElem?_eq_some_iff.mp here).1]
      exact here
    have reached : 0 ≤ s.file.seekPosition := by
      rw [sound.position]
      omega
    refine { sound with
      position := ?_, begun := ?_, returned := ?_
      underway := Sound.sets (fun t' _ => (sound.underway t').congr fun k _ => grown k) ?_
      apart := sound.moves ?_ }
    · rw [moved_append]
      simpa using sound.position
    · intro call member
      rcases List.mem_append.mp member with old | new
      · exact sound.begun call old
      · obtain rfl := List.mem_singleton.mp new
        exact reached
    · intro call member result into' outcome
      rcases List.mem_append.mp member with old | new
      · exact sound.returned call old result into' outcome
      · obtain rfl := List.mem_singleton.mp new
        cases outcome
    · exact ⟨⟨numBytes, s.file.seekPosition, none⟩, by simp, rfl, heeds_ReadAt sound.header reached⟩
    · rintro k t' ⟨⟩ inside
      obtain ⟨call, beyond, -⟩ := (sound.underway t').stands inside
      simp at beyond
  | @sector _ t call p p' store stands advances =>
    have before := sound.underway t
    rw [stands] at before
    obtain ⟨c, here, pending, heeds⟩ := before
    obtain ⟨heeds', r, reply, permitted, answered⟩ := advances.heeds heeds (answered_answers sound.same)
    exact { sound with
      same := fun sector own => (answered_same permitted answered apart own).trans (sound.same sector own)
      underway := Sound.sets (fun t' _ => sound.underway t') ⟨c, here, pending, heeds'⟩
      apart := sound.moves fun k t' mine inside => sound.apart t' t k inside (by rw [stands]; exact mine) }
  | @yields _ t call result into file stands =>
    have before := sound.underway t
    rw [stands] at before
    obtain ⟨c, here, pending, reads, agrees⟩ := before
    exact { sound with
      header := agrees
      underway := Sound.sets (fun t' _ => sound.underway t') ⟨c, here, pending, reads⟩
      apart := sound.moves fun k t' mine inside => sound.apart t' t k inside (by rw [stands]; exact mine) }
  | @returns _ t call result into stands =>
    have before := sound.underway t
    rw [stands] at before
    obtain ⟨c, here, pending, reads⟩ := before
    refine { sound with
      position := ?_, begun := ?_, returned := ?_
      underway := Sound.sets (fun t' other => (sound.underway t').congr fun k inside call' there => ?_) trivial
      apart := sound.moves (by rintro k t' ⟨⟩) }
    · rw [moved_returns here pending, reads.count, sound.position]
      push_cast
      omega
    · intro call' member
      obtain old | ⟨c', stood, rfl⟩ := mem_returns member
      · exact sound.begun call' old
      · exact sound.begun c' (List.mem_of_getElem? stood)
    · intro call' member result' into' outcome
      obtain old | ⟨c', stood, rfl⟩ := mem_returns member
      · exact sound.returned call' old result' into' outcome
      · obtain rfl : c' = c := Option.some.inj (stood.symm.trans here)
        obtain ⟨rfl, rfl⟩ := Prod.mk.inj (Option.some.inj outcome)
        exact ⟨reads.count, reads.bytes⟩
    · rw [List.getElem?_modify_ne]
      · exact there
      · rintro rfl
        exact other (sound.apart t' t call inside (by rw [stands]; rfl))
  | others kept => exact { sound with same := fun sector own => (kept sector own).trans (sound.same sector own) }

/-- A step keeps the calls in place exactly when it begins no read that is not alone. -/
theorem Sound.inPlace_step (sound : Sound disk hdr start s) (step : Step (Own disk hdr) event s s') :
    InPlace hdr start s'.calls ↔ InPlace hdr start s.calls ∧ Alone s event := by
  cases step with
  | readerIn idle => exact (and_iff_left trivial).symm
  | sector stands advances => exact (and_iff_left trivial).symm
  | yields stands => exact (and_iff_left trivial).symm
  | others kept => exact (and_iff_left trivial).symm
  | returns stands =>
    refine Iff.trans ⟨InPlace.congr ?_, InPlace.congr ?_⟩ (and_iff_left trivial).symm
    · exact (map_returns fun c => rfl).symm
    · exact map_returns fun c => rfl
  | @readAt _ t into numBytes stands =>
    have length : s.file.hdr.FileLength = hdr.FileLength := sound.header.numBytes
    rw [inPlace_append]
    refine and_congr_right fun _ => ?_
    have finds : ∀ call : Call, Finds s.file.hdr call.numBytes call.position ↔ 0 < call.count hdr := by
      intro call
      rw [← Call.finds_iff]
      unfold Finds
      rw [length]
    have level : s.file.seekPosition = start + due hdr s.calls ↔ moved hdr s.calls = due hdr s.calls := by
      rw [sound.position]
      omega
    constructor
    · intro inPlace into' numBytes' stands' some call member pending
      rw [stands] at stands'
      cases stands'
      have behind := moved_eq_due.mp (level.mp (inPlace ((finds ⟨numBytes, s.file.seekPosition, none⟩).mp some)))
      rw [finds, behind call member pending]
      omega
    · intro alone some
      refine level.mpr (moved_eq_due.mpr fun call member pending => ?_)
      have idle := alone into numBytes stands ((finds ⟨numBytes, s.file.seekPosition, none⟩).mpr some) call member
        pending
      rw [finds] at idle
      omega

/-- In a run from a handle nobody uses, the calls are in place exactly when every
read that has bytes to read began alone. -/
theorem Ready.run {s₀ : System T} {trace : List (System T × Event T)} (ready : Ready s₀)
    (run : Runs (Moves (Own s₀.disk s₀.file.hdr)) s₀ trace s) :
    Sound s₀.disk s₀.file.hdr s₀.file.seekPosition s ∧
      (InPlace s₀.file.hdr s₀.file.seekPosition s.calls ↔ ∀ moment ∈ trace, Alone moment.1 moment.2) := by
  refine Runs.invariant (P := fun trace s => Sound s₀.disk s₀.file.hdr s₀.file.seekPosition s ∧
    (InPlace s₀.file.hdr s₀.file.seekPosition s.calls ↔ ∀ moment ∈ trace, Alone moment.1 moment.2)) ?_ ?_ run
  · refine ⟨ready.sound, ?_⟩
    rw [ready.unused]
    simp [InPlace]
  · rintro trace s events s' - ⟨sound, same⟩ ⟨event, rfl, step⟩
    refine ⟨sound.step ready.position ready.apart step, ?_⟩
    rw [sound.inPlace_step step, same, List.forall_mem_append, List.forall_mem_singleton]

end

/-! ## When all reads have returned -/

section
variable {disk : Disk} {hdr : FileHeader} {start : Int} {calls : List Call} {call : Call}

/-- Every call has returned, with the bytes it had to read. -/
def Complete (disk : Disk) (hdr : FileHeader) (calls : List Call) : Prop :=
  ∀ call ∈ calls, ∃ result into, call.outcome = some (result, into) ∧ Reads disk hdr call result into

theorem total_eq_due (complete : Complete disk hdr calls) : total calls = due hdr calls := by
  induction calls with
  | nil => rfl
  | cons call calls ih =>
    obtain ⟨⟨result, into, outcome, reads⟩, rest⟩ := List.forall_mem_cons.mp complete
    have before := ih rest
    simp only [total, due, List.map_cons, List.sum_cons, outcome] at before ⊢
    rw [before, Option.map_some, Option.getD_some, reads.count, Nat.cast_add]

theorem delivered_append : delivered (calls ++ [call]) = delivered calls ++ delivered [call] := by
  simp [delivered]

/-- Calls in place deliver the contents from `start` on. -/
theorem InPlace.delivered (inPlace : InPlace hdr start calls) (complete : Complete disk hdr calls)
    (positive : 0 ≤ start) :
    delivered calls = (List.range (due hdr calls)).map fun o => fileByte disk hdr (start.toNat + o) := by
  induction calls using List.reverseRecOn with
  | nil => rfl
  | append_singleton calls call ih =>
    obtain ⟨before, here⟩ := inPlace_append.mp inPlace
    obtain ⟨old, last⟩ := List.forall_mem_append.mp complete
    obtain ⟨result, into, outcome, reads⟩ := List.forall_mem_singleton.mp last
    rw [delivered_append, ih before old, due_append, List.range_add, List.map_append, List.map_map]
    congr 1
    simp only [SharedReads.delivered, List.flatMap_cons, List.flatMap_nil, outcome, reads.count,
      Int.toNat_natCast, List.append_nil]
    refine List.map_congr_left fun j less => ?_
    have bound := List.mem_range.mp less
    have place : call.position.toNat + j = start.toNat + (due hdr calls + j) := by
      have first := here (by omega)
      omega
    rw [reads.bytes j bound, place]
    rfl

end

/-! ## Reads that are left alone -/

section
variable [DecidableEq T] {s : System T} {t : T} {len pos n : Nat}

/-- A thread that is left alone in `ReadAt` gets to its end. -/
theorem reads_on (keep : Int → Prop) {call : Nat} {p : Kernel (Int × Memory × OpenFile)}
    {value : Int × Memory × OpenFile} {store store' : Store}
    (ran : p.run Store.handle store = .done value store') (held : s.store = store)
    (stands : s.phase t = .reading call p) : ∃ trace,
    Runs (Moves keep) s trace
      { s with store := store', phase := Function.update s.phase t (.reading call (.pure value)) } ∧
    ∀ moment ∈ trace, moment.2 = .sector t := by
  induction p generalizing s store with
  | pure result =>
    cases ran
    refine ⟨[], ?_, by simp⟩
    rw [← held, ← stands, Function.update_eq_self]
    exact .start
  | stop fault => cases ran
  | request r next ih =>
    unfold Program.run at ran
    cases answered : Store.handle r store with
    | done reply after =>
      rw [answered] at ran
      have step : Step keep (.sector t) s
          { s with store := after, phase := Function.update s.phase t (.reading call (next reply)) } :=
        .sector stands (by rw [held]; exact .request answered)
      obtain ⟨trace, run, only⟩ := ih reply
        (s := { s with store := after, phase := Function.update s.phase t (.reading call (next reply)) }) ran rfl
        (Function.update_self ..)
      rw [Function.update_idem] at run
      refine ⟨[(s, .sector t)] ++ trace, (Runs.single ⟨_, rfl, step⟩).append run, ?_⟩
      rw [List.forall_mem_append]
      exact ⟨by simp, only⟩
    | stopped fault after =>
      rw [answered] at ran
      cases ran

/-- A thread that begins a read inside the file gets to its `Yield`. -/
theorem reaches_yield (keep : Int → Prop) (header : ConsistentHeader s.disk s.file.hdr len)
    (idle : s.phase t = .outside) (position : s.file.seekPosition = pos) (inside : pos < len) (positive : 0 < n)
    (sum : pos + n < 2147483648) (into : Memory) :
    ∃ trace s' into', Runs (Moves keep) s trace s' ∧ ConsistentHeader s'.disk s'.file.hdr len ∧
      s'.file.seekPosition = pos ∧ s'.calls = s.calls ++ [⟨n, pos, none⟩] ∧
      s'.phase = Function.update s.phase t (.yielding s.calls.length (min n (len - pos) : Nat) into') ∧
      ((∀ call ∈ s.calls, call.outcome ≠ none) → ∀ moment ∈ trace, Alone moment.1 moment.2) := by
  have reads : Ensures (s.file.ReadAt into n pos) (fun result disk' _ => result.1 = (min n (len - pos) : Nat) ∧
      ConsistentHeader disk' result.2.2.hdr len) (fun _ => False) s.disk s.store.visNum :=
    header.ensures_ReadAt positive inside.le (.inl sum) (by omega) fun _ _ _ _ _ after _ => ⟨rfl, after⟩
  obtain ⟨⟨result, into', file⟩, store', ran, rfl, after⟩ :=
    Program.wp_returns (ensures_iff.mp reads s.store.supply)
  dsimp only at after
  let s₁ : System T := { s with phase := Function.update s.phase t (.admitted into n) }
  let s₂ : System T :=
    { s₁ with
      phase := Function.update s₁.phase t (.reading s.calls.length (s.file.ReadAt into n s.file.seekPosition))
      calls := s.calls ++ [⟨n, s.file.seekPosition, none⟩] }
  have enters : Step keep (.readerIn t) s s₁ := .readerIn idle
  have begins : Step keep (.readAt t) s₁ s₂ := .readAt (Function.update_self ..)
  obtain ⟨trace, run, only⟩ := reads_on keep (s := s₂) ran rfl
    (by rw [← position]; exact Function.update_self ..)
  let s₃ : System T :=
    { s₂ with
      store := store'
      phase := Function.update s₂.phase t
        (.reading s.calls.length (.pure (((min n (len - pos) : Nat) : Int), into', file))) }
  let s₄ : System T :=
    { s₃ with
      file := { s₃.file with hdr := file.hdr }
      phase := Function.update s₃.phase t (.yielding s.calls.length (min n (len - pos) : Nat) into') }
  have middle : Runs (Moves keep) s₂ trace s₃ := run
  have ends : Step keep (.yields t) s₃ s₄ := .yields (Function.update_self ..)
  refine ⟨[(s, .readerIn t)] ++ ([(s₁, .readAt t)] ++ (trace ++ [(s₃, .yields t)])), s₄, into',
    (Runs.single ⟨_, rfl, enters⟩).append ((Runs.single ⟨_, rfl, begins⟩).append
      (middle.append (Runs.single ⟨_, rfl, ends⟩))), after, position, ?_, ?_, ?_⟩
  · exact congrArg (fun x => s.calls ++ [(⟨n, x, none⟩ : Call)]) position
  · simp only [s₄, s₃, s₂, s₁, Function.update_idem]
  · intro calm
    simp only [List.forall_mem_append, List.forall_mem_singleton]
    refine ⟨trivial, ?_, fun moment member => ?_, trivial⟩
    · intro into numBytes _ _ call member pending
      exact absurd pending (calm call member)
    · unfold Alone
      rw [only moment member]
      trivial

/-- Two threads that are yet to read, on a file of two hundred bytes. -/
theorem two_readers : ∃ s : System Bool, Ready s ∧ s.file.seekPosition = (0 : Nat) ∧
    ConsistentHeader s.disk s.file.hdr 200 := by
  obtain ⟨disk, file, header, -⟩ := @zeroMachine_handle 200 (by decide)
  refine ⟨{ store := { disk := disk, visNum := fun _ => 0, supply := fun _ _ => 0 }
            file := { file with seekPosition := 0 }
            phase := fun _ => .outside
            calls := [] }, ⟨fun _ => rfl, rfl, le_rfl, ?_⟩, rfl, header⟩
  have length : file.hdr.numBytes.toNat = 200 := by
    rw [header.length]
    rfl
  rintro (⟨k, bound, same⟩ | ⟨large, -⟩)
  · rw [length] at bound
    have small := header.small
    rw [blockSector_direct (by omega)] at same
    exact (header.apart k bound).1 same.symm
  · rw [length] at large
    exact absurd large (by decide)

theorem modify_last {B : Type} (before : List B) (last : B) (f : B → B) :
    (before ++ [last]).modify before.length f = before ++ [f last] := by
  induction before with
  | nil => rfl
  | cons head before ih => simpa using ih

/-- The end of a call. -/
theorem returns_from (keep : Int → Prop) {call : Nat} {result : Int} {into : Memory}
    (stands : s.phase t = .yielding call result into) :
    Runs (Moves keep) s [(s, .returns t)]
      { s with
        file := { s.file with seekPosition := s.file.seekPosition + result }
        phase := Function.update s.phase t .outside
        calls := s.calls.modify call fun c => { c with outcome := some (result, into) } } :=
  Runs.single ⟨_, rfl, .returns stands⟩

/-- A read that nobody overlaps, from its beginning to its return. -/
theorem reads_through (keep : Int → Prop) (header : ConsistentHeader s.disk s.file.hdr len)
    (idle : s.phase t = .outside) (position : s.file.seekPosition = pos) (inside : pos < len) (positive : 0 < n)
    (sum : pos + n < 2147483648) (calm : ∀ call ∈ s.calls, call.outcome ≠ none) (into : Memory) : ∃ trace s' into',
    Runs (Moves keep) s trace s' ∧ ConsistentHeader s'.disk s'.file.hdr len ∧
      s'.file.seekPosition = (pos + min n (len - pos) : Nat) ∧
      s'.phase = Function.update s.phase t .outside ∧
      s'.calls = s.calls ++ [⟨n, pos, some ((min n (len - pos) : Nat), into')⟩] ∧
      ∀ moment ∈ trace, Alone moment.1 moment.2 := by
  obtain ⟨trace, s₁, into', run, header₁, position₁, calls₁, phase₁, alone⟩ :=
    reaches_yield keep header idle position inside positive sum into
  have stands : s₁.phase t = .yielding s.calls.length (min n (len - pos) : Nat) into' := by
    rw [phase₁]
    exact Function.update_self ..
  refine ⟨_, _, into', run.append (returns_from keep stands), header₁, ?_, ?_, ?_, ?_⟩
  · dsimp only
    rw [position₁, Int.natCast_add]
  · dsimp only
    rw [phase₁, Function.update_idem]
  · dsimp only
    rw [calls₁]
    exact modify_last s.calls _ _
  · rw [List.forall_mem_append, List.forall_mem_singleton]
    exact ⟨alone calm, trivial⟩

end

/-! ## The reads are in order when they do not overlap -/

section
variable [DecidableEq T] {s₀ s : System T} {trace : List (System T × Event T)}

/-- When all reads have returned, they are in order exactly when each read that
had bytes to read began with no other such read still to return. -/
theorem shared_reads_in_order_iff (ready : Ready s₀) (run : Runs (Moves (Own s₀.disk s₀.file.hdr)) s₀ trace s)
    (returned : ∀ call ∈ s.calls, call.outcome ≠ none) :
    InOrder (fileByte s₀.disk s₀.file.hdr) s₀.file.seekPosition s ↔
      ∀ moment ∈ trace, Alone moment.1 moment.2 := by
  obtain ⟨sound, inPlace⟩ := ready.run run
  have complete : Complete s₀.disk s₀.file.hdr s.calls := by
    intro call member
    obtain ⟨⟨result, into⟩, outcome⟩ := Option.ne_none_iff_exists'.mp (returned call member)
    exact ⟨result, into, outcome, sound.returned call member result into outcome⟩
  have before : ∀ i, total (s.calls.take i) = due s₀.file.hdr (s.calls.take i) := fun i =>
    total_eq_due fun call member => complete call (List.mem_of_mem_take member)
  have all := total_eq_due complete
  rw [← inPlace]
  constructor
  · intro inOrder i call stands positive
    obtain ⟨result, into, outcome, reads⟩ := complete call (List.mem_of_getElem? stands)
    rw [← before]
    exact inOrder.consecutive i call result into stands outcome (by rw [reads.count]; exact_mod_cast positive)
  · intro inPlace
    refine ⟨fun i call result into stands outcome positive => ?_, ?_, ?_⟩
    · have reads := sound.returned call (List.mem_of_getElem? stands) result into outcome
      rw [before]
      exact inPlace i call stands (by rw [reads.count] at positive; exact_mod_cast positive)
    · rw [all, Int.toNat_natCast]
      exact inPlace.delivered complete ready.position
    · rw [sound.position, all, moved_eq_due.mpr]
      intro call member pending
      exact absurd pending (returned call member)

/-- The one read after the other. -/
theorem shared_reads_in_order : ∃ (s₀ s : System Bool) (trace : List (System Bool × Event Bool)),
    Ready s₀ ∧ Runs (Moves (Own s₀.disk s₀.file.hdr)) s₀ trace s ∧ s.calls.length = 2 ∧
    InOrder (fileByte s₀.disk s₀.file.hdr) s₀.file.seekPosition s := by
  obtain ⟨s₀, ready, position, header⟩ := two_readers
  obtain ⟨trace₁, s₁, into₁, run₁, header₁, position₁, phase₁, calls₁, alone₁⟩ :=
    reads_through (Own s₀.disk s₀.file.hdr) header (ready.idle false) position (show 0 < 200 by decide)
      (show 0 < 1 by decide) (by decide) (by simp [ready.unused]) fun _ => 7
  have idle₁ : s₁.phase true = .outside := by
    rw [phase₁, Function.update_of_ne (by decide)]
    exact ready.idle true
  obtain ⟨trace₂, s₂, into₂, run₂, header₂, position₂, phase₂, calls₂, alone₂⟩ :=
    reads_through (Own s₀.disk s₀.file.hdr) header₁ idle₁ position₁ (show 1 < 200 by decide)
      (show 0 < 3 by decide) (by decide) (by simp [calls₁, ready.unused]) fun _ => 7
  have run := run₁.append run₂
  refine ⟨s₀, s₂, trace₁ ++ trace₂, ready, run, by simp [calls₂, calls₁, ready.unused], ?_⟩
  refine (shared_reads_in_order_iff ready run (by simp [calls₂, calls₁, ready.unused])).mpr ?_
  exact List.forall_mem_append.mpr ⟨alone₁, alone₂⟩

/-- Two reads that overlap begin at the same byte. -/
theorem shared_reads_overlap : ∃ (s₀ s : System Bool) (trace : List (System Bool × Event Bool)),
    Ready s₀ ∧ Runs (Moves (Own s₀.disk s₀.file.hdr)) s₀ trace s ∧
    (∀ call ∈ s.calls, call.outcome ≠ none) ∧
    ¬ InOrder (fileByte s₀.disk s₀.file.hdr) s₀.file.seekPosition s := by
  obtain ⟨s₀, ready, position, header⟩ := two_readers
  obtain ⟨trace₁, s₁, into₁, run₁, header₁, position₁, calls₁, phase₁, -⟩ :=
    reaches_yield (Own s₀.disk s₀.file.hdr) header (ready.idle false) position (show 0 < 200 by decide)
      (show 0 < 1 by decide) (by decide) fun _ => 7
  have idle₁ : s₁.phase true = .outside := by
    rw [phase₁, Function.update_of_ne (by decide)]
    exact ready.idle true
  obtain ⟨trace₂, s₂, into₂, run₂, header₂, position₂, calls₂, phase₂, -⟩ :=
    reaches_yield (Own s₀.disk s₀.file.hdr) header₁ idle₁ position₁ (show 0 < 200 by decide)
      (show 0 < 1 by decide) (by decide) fun _ => 7
  have stands₁ : s₂.phase false = .yielding 0 1 into₁ := by
    rw [phase₂, Function.update_of_ne (by decide), phase₁, Function.update_self, ready.unused]
    rfl
  let s₃ : System Bool :=
    { s₂ with
      file := { s₂.file with seekPosition := s₂.file.seekPosition + 1 }
      phase := Function.update s₂.phase false .outside
      calls := s₂.calls.modify 0 fun c => { c with outcome := some (1, into₁) } }
  have back₁ : Runs (Moves (Own s₀.disk s₀.file.hdr)) s₂ [(s₂, .returns false)] s₃ :=
    returns_from _ stands₁
  have stands₂ : s₃.phase true = .yielding 1 1 into₂ := by
    dsimp only [s₃]
    rw [Function.update_of_ne (by decide), phase₂, Function.update_self, calls₁, ready.unused]
    rfl
  have calls : s₃.calls.modify 1 (fun c => { c with outcome := some (1, into₂) }) =
      [⟨1, 0, some (1, into₁)⟩, ⟨1, 0, some (1, into₂)⟩] := by
    dsimp only [s₃]
    rw [calls₂, calls₁, ready.unused]
    rfl
  refine ⟨s₀, _, _, ready, ((run₁.append run₂).append back₁).append (returns_from _ stands₂), ?_, ?_⟩
  · dsimp only
    rw [calls]
    simp
  · intro inOrder
    have second := inOrder.consecutive 1
    dsimp only at second
    rw [calls, position] at second
    have wrong : (0 : Int) = ((0 : Nat) : Int) + 1 := second _ 1 into₂ rfl rfl (by decide)
    omega

/-- The position is right in any case: it is behind all that has been returned. -/
theorem position_is_right (ready : Ready s₀) (run : Runs (Moves (Own s₀.disk s₀.file.hdr)) s₀ trace s) :
    s.file.seekPosition = s₀.file.seekPosition + total s.calls := by
  have sound := (ready.run run).1
  have same : ∀ calls : List Call, (∀ call ∈ calls, ∀ result into, call.outcome = some (result, into) →
      Reads s₀.disk s₀.file.hdr call result into) → total calls = moved s₀.file.hdr calls := by
    intro calls reads
    induction calls with
    | nil => rfl
    | cons call calls ih =>
      obtain ⟨first, rest⟩ := List.forall_mem_cons.mp reads
      have before := ih rest
      simp only [total, moved, List.map_cons, List.sum_cons] at before ⊢
      cases outcome : call.outcome with
      | none => simpa using before
      | some pair => simpa [before] using (first pair.1 pair.2 outcome).count
  rw [sound.position, same s.calls sound.returned]

end

end Nachos.SharedReads
