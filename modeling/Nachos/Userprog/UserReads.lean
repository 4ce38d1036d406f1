import Nachos.Filesys.FileAccess
import Nachos.Userprog.UserCopies

/-! The system call `Read` (`userprog/exception.cc`). It stores as many bytes as were asked for,
not as many as `OpenFile::Read` delivered, and returns that number. Each byte is stored with
`WriteMem`; a page fault on the way is served, but the byte is not stored again. -/
namespace Nachos.Paging
open Effects Machine

namespace Paged

/-! ## The system call -/

/-- `machine->WriteMem(addr, 1, value)` in the kernel. The handler fails an `ASSERT` on every
exception but a page fault. -/
def storeByte (m : Paged) (addr value : BitVec 32) : Option Paged :=
  match m.attempt (.write addr 1 value) with
  | (.stored, m) => some m
  | (.raised .PageFaultException, m) => some (m.PageFault addr)
  | _ => none

/-- The machine behind it. -/
def afterWrite (m : Paged) (addr value : BitVec 32) : Paged :=
  match m.attempt (.write addr 1 value) with
  | (.raised .PageFaultException, m) => m.PageFault addr
  | (_, m) => m

/-- The loop of `SC_Read`, with so many bytes still to store. -/
def putBytes (tmp_buffer : Memory) : Nat → Paged → BitVec 32 → Nat → Option Paged
  | 0, m, _, _ => some m
  | count + 1, m, addr, i => do
    let tmp := extended (tmp_buffer i)
    let m ← m.storeByte addr tmp
    putBytes tmp_buffer count m (addr + 1) (i + 1)

/-- What `SC_Read` leaves behind. -/
structure Returned where
  r2 : Int
  disk : SynchDisk
  file : OpenFile
  user : Paged

/-- `SC_Read` of an open file; `stack` is what the array `tmp_buffer` holds before. -/
def SC_Read (m : Paged) (disk : SynchDisk) (file : OpenFile) (r4 : BitVec 32) (size : Nat)
    (stack : Memory) : Option Returned :=
  match (file.Read stack size).run SynchDisk.handle disk with
  | .done (_, tmp_buffer, file) disk => do
    let m ← m.putBytes tmp_buffer size r4 0
    return { r2 := size, disk := disk, file := file, user := m }
  | .stopped _ _ => none

/-! ## What it depends on -/

/-- While so many bytes are stored, a byte that meets a page that is not in memory is there
already. -/
def Lands (bytes tmp_buffer : Memory) : Nat → Paged → BitVec 32 → Nat → Prop
  | 0, _, _, _ => True
  | count + 1, m, addr, i =>
    (m.Resident addr ∨ bytes addr.toNat = tmp_buffer i) ∧
      Lands bytes tmp_buffer count (m.afterWrite addr (extended (tmp_buffer i))) (addr + 1) (i + 1)

/-- No page is read-only. -/
def Writable (m : Paged) : Prop := ∀ i, (m.space.pageTable i).readOnly = false

end Paged

section
variable {m : Paged} {bytes bytes' tmp_buffer : Memory} {addr : BitVec 32} {count i : Nat}

/-! ## One byte -/

theorem wordByte_extended (c : UInt8) : Memory.wordByte (extended c) 0 = c := by
  have low : (extended c).extractLsb' (8 * 0) 8 = (extended c).setWidth 8 := 
    (BitVec.setWidth_eq_extractLsb' (by decide)).symm
  show (⟨(extended c).extractLsb' (8 * 0) 8⟩ : UInt8) = c
  rw [low]
  exact lowByte_extended c

/-- What is stored in the frame of a page is stored in the memory it stands for. -/
theorem Keeps.splices (keeps : Keeps m bytes) {size : Nat} (sized : Sized size)
    (aligned : addr.toNat % size = 0) (inside : addr.toNat < m.space.numPages.toNat * 128)
    {j : Fin NumPhysPages} (page : (m.space.pageTable j).virtualPage.toNat = addr.toNat / 128)
    (source : Memory) :
    Keeps { m with
      mainMemory := m.mainMemory.splice (j * 128 + addr.toNat % 128) size source
      space := { m.space with pageTable := touched m.space.pageTable j true } }
      (bytes.splice addr.toNat size source) := by
  have here : m.space.Holds j := keeps.holds (by omega)
  have offset := legal_offset sized aligned
  have entry := touched_entry m.space.pageTable j true
  have others : ∀ i, i ≠ j → touched m.space.pageTable j true i = m.space.pageTable i := fun i apart =>
    Function.update_of_ne apart ..
  refine ⟨fun i => ?_, fun i => ?_, fun i k => ?_, fun i => ?_, fun i unheld => ?_, keeps.fits, keeps.file,
    fun i holds o bound => ?_, fun v small clean o bound => ?_⟩
  · rw [AddrSpace.Holds, (entry i).1]
    exact keeps.taken i
  · rw [AddrSpace.Holds, (entry i).1]
    exact keeps.pages i
  · rw [AddrSpace.Holds, (entry i).1, (entry k).1]
    exact keeps.unique i k
  · rw [(entry i).2.1]
    exact keeps.frame i
  · rw [AddrSpace.Holds, (entry i).1] at unheld
    have apart : i ≠ j := by
      rintro rfl
      exact unheld here
    show (touched m.space.pageTable j true i).dirty = false
    rw [others i apart]
    exact keeps.unused i unheld
  · rw [AddrSpace.Holds, (entry i).1] at holds
    show m.mainMemory.splice (j * 128 + addr.toNat % 128) size source (i * 128 + o) =
      bytes.splice addr.toNat size source ((touched m.space.pageTable j true i).virtualPage.toNat * 128 + o)
    rw [(entry i).1]
    by_cases self : i = j
    · subst self
      rw [page]
      by_cases stored : addr.toNat % 128 ≤ o ∧ o < addr.toNat % 128 + size
      · rw [Memory.splice_inside (by omega) (by omega), Memory.splice_inside (by omega) (by omega)]
        congr 1
        omega
      · rw [Memory.splice_outside (by omega), Memory.splice_outside (by omega), keeps.present i holds o bound,
          page]
    · have apart : (i : Nat) ≠ j := fun same => self (Fin.ext same)
      have pages : (m.space.pageTable i).virtualPage.toNat ≠ addr.toNat / 128 := by
        intro same
        exact self (keeps.unique i j holds (BitVec.eq_of_toNat_eq (same.trans page.symm)))
      rw [Memory.splice_outside (by omega), Memory.splice_outside (by omega)]
      exact keeps.present i holds o bound
  · have other : v ≠ addr.toNat / 128 := by
      rintro rfl
      have dirty := clean j (by rw [(entry j).1]; exact page)
      have set : (touched m.space.pageTable j true j).dirty = true := by
        unfold touched
        rw [Function.update_self]
      rw [set] at dirty
      cases dirty
    rw [Memory.splice_outside (by omega)]
    refine keeps.stored v small (fun i there => ?_) o bound
    have apart : i ≠ j := by
      rintro rfl
      exact other (there.symm.trans page)
    have same : (touched m.space.pageTable j true i).dirty = false := clean i (by rw [(entry i).1]; exact there)
    rw [others i apart] at same
    exact same

/-- A byte is stored in the frame of its page. -/
theorem Keeps.stores (keeps : Keeps m bytes) (inside : addr.toNat < m.space.numPages.toNat * 128)
    {j : Fin NumPhysPages} (page : (m.space.pageTable j).virtualPage.toNat = addr.toNat / 128) (c : UInt8) :
    Keeps { m with
      mainMemory := m.mainMemory.splice (j * 128 + addr.toNat % 128) 1 (Memory.wordByte (extended c))
      space := { m.space with pageTable := touched m.space.pageTable j true } }
      (Function.update bytes addr.toNat c) := by
  have one : bytes.splice addr.toNat 1 (Memory.wordByte (extended c)) = Function.update bytes addr.toNat c := by
    funext o
    by_cases here : o = addr.toNat
    · rw [here, Function.update_self, Memory.splice_inside (by omega) (by omega), Nat.sub_self]
      exact wordByte_extended c
    · rw [Function.update_of_ne here, Memory.splice_outside (by omega)]
  rw [← one]
  exact keeps.splices (.inl rfl) (Nat.mod_one _) inside page _

theorem writable_mapPage {space : AddrSpace} (writable : ∀ i, (space.pageTable i).readOnly = false) (vpn : Nat)
    (pos i : Fin NumPhysPages) : ((space.mapPage vpn pos).pageTable i).readOnly = false := by
  unfold AddrSpace.mapPage
  by_cases here : i = pos
  · rw [here]
    simp only [Function.update_self]
  · simp only [Function.update_of_ne here, writable]

theorem Paged.Writable.faults (writable : m.Writable) (addr : BitVec 32) : (m.PageFault addr).Writable := by
  have evicted : ∀ i, ((evict m.space m.mainMemory m.file).1.pageTable i).readOnly = false := by
    intro i
    unfold evict
    cases m.space.victim with
    | none => exact writable i
    | some j =>
      by_cases here : i = j
      · rw [here]
        simp only [Function.update_self, writable j]
      · simp only [Function.update_of_ne here]
        exact writable i
  unfold Paged.PageFault
  rcases m.bitmap.find with ⟨_ | pos, bitmap⟩
  · exact writable_mapPage evicted _ _
  · exact writable_mapPage writable _ _

/-- A byte on a page that is in memory is stored. -/
theorem Keeps.attempt_resident (keeps : Keeps m bytes) (writable : m.Writable)
    (inside : addr.toNat < m.space.numPages.toNat * 128) (resident : m.Resident addr) (c : UInt8) :
    ∃ j, (m.space.pageTable j).virtualPage.toNat = addr.toNat / 128 ∧
      m.attempt (.write addr 1 (extended c)) = (.stored, { m with
        mainMemory := m.mainMemory.splice (j * 128 + addr.toNat % 128) 1 (Memory.wordByte (extended c))
        space := { m.space with pageTable := touched m.space.pageTable j true } }) := by
  cases found : m.space.pageTable.search (addr.toNat / 128) with
  | none =>
    obtain ⟨i, page⟩ := resident
    exact absurd page (search_none.mp found i)
  | some j =>
    have allowed : ((m.space.pageTable j).readOnly && true) = false := by
      rw [writable j]
      rfl
    have translated : Translate m.space.pageTable m.space.numPages addr 1 true = _ :=
      translate_present (.inl rfl) (Nat.mod_one _) inside found (keeps.frame j) allowed
    refine ⟨j, search_some found, ?_⟩
    simp only [Paged.attempt, WriteMem, translated, store, Bool.or_true]

theorem Keeps.writes (keeps : Keeps m bytes) (writable : m.Writable)
    (inside : addr.toNat < m.space.numPages.toNat * 128) (c : UInt8) :
    m.storeByte addr (extended c) = some (m.afterWrite addr (extended c)) ∧
      Keeps (m.afterWrite addr (extended c))
        (if m.Resident addr then Function.update bytes addr.toNat c else bytes) ∧
      (m.afterWrite addr (extended c)).Writable ∧
      (m.afterWrite addr (extended c)).space.numPages = m.space.numPages := by
  unfold Paged.storeByte Paged.afterWrite
  by_cases resident : m.Resident addr
  · obtain ⟨j, page, attempted⟩ := keeps.attempt_resident writable inside resident c
    rw [attempted, if_pos resident]
    refine ⟨rfl, keeps.stores inside page c, fun i => ?_, rfl⟩
    exact (touched_entry m.space.pageTable j true i).2.2.1.trans (writable i)
  · have missing : ∀ i, (m.space.pageTable i).virtualPage.toNat ≠ addr.toNat / 128 := fun i here =>
      resident ⟨i, here⟩
    have attempted : m.attempt (.write addr 1 (extended c)) = (.raised .PageFaultException, m) :=
      attempt_raises fun writing => translate_absent (.inl rfl) (Nat.mod_one _) inside missing
    obtain ⟨keeps', pages, -⟩ := keeps.faults inside resident
    rw [attempted, if_neg resident]
    exact ⟨rfl, keeps', writable.faults addr, pages⟩

/-- Storing a byte takes no page out of memory. -/
theorem Keeps.stays_resident (keeps : Keeps m bytes) (writable : m.Writable)
    (inside : addr.toNat < m.space.numPages.toNat * 128) (here : m.Resident addr) (c : UInt8)
    {a : BitVec 32} (resident : m.Resident a) : (m.afterWrite addr (extended c)).Resident a := by
  obtain ⟨j, -, attempted⟩ := keeps.attempt_resident writable inside here c
  obtain ⟨i, page⟩ := resident
  unfold Paged.afterWrite
  rw [attempted]
  refine ⟨i, ?_⟩
  show (touched m.space.pageTable j true i).virtualPage.toNat = _
  rw [(touched_entry m.space.pageTable j true i).1]
  exact page

/-! ## The loop -/

/-- The bytes behind the loop, when nothing else is stored. -/
def landed (tmp_buffer : Memory) : Nat → Memory → Paged → BitVec 32 → Nat → Memory
  | 0, bytes, _, _, _ => bytes
  | count + 1, bytes, m, addr, i =>
    landed tmp_buffer count (if m.Resident addr then Function.update bytes addr.toNat (tmp_buffer i) else bytes)
      (m.afterWrite addr (extended (tmp_buffer i))) (addr + 1) (i + 1)

theorem Keeps.puts (keeps : Keeps m bytes) (writable : m.Writable)
    (inside : addr.toNat + count ≤ m.space.numPages.toNat * 128) : ∃ m',
    m.putBytes tmp_buffer count addr i = some m' ∧ Keeps m' (landed tmp_buffer count bytes m addr i) ∧
      m'.space.numPages = m.space.numPages := by
  induction count generalizing m bytes addr i with
  | zero => exact ⟨m, rfl, keeps, rfl⟩
  | succ count ih =>
    have here : addr.toNat < m.space.numPages.toNat * 128 := by omega
    obtain ⟨stored, keeps', writable', pages⟩ := keeps.writes writable here (tmp_buffer i)
    have next : (addr + 1).toNat = addr.toNat + 1 := by
      have fits : m.space.numPages.toNat ≤ 64 := keeps.fits
      bv_omega
    have room : (addr + 1).toNat + count ≤
        (m.afterWrite addr (extended (tmp_buffer i))).space.numPages.toNat * 128 := by
      rw [next, pages]
      omega
    obtain ⟨m', put, keeps'', pages'⟩ := ih (i := i + 1) keeps' writable' room
    refine ⟨m', ?_, keeps'', pages'.trans pages⟩
    unfold Paged.putBytes
    dsimp only
    rw [stored]
    exact put

/-- Only the bytes of the buffer change. -/
theorem landed_outside (room : addr.toNat + count < 2 ^ 32) {p : Nat}
    (outside : p < addr.toNat ∨ addr.toNat + count ≤ p) :
    landed tmp_buffer count bytes m addr i p = bytes p := by
  induction count generalizing m bytes addr i with
  | zero => rfl
  | succ count ih =>
    have next : (addr + 1).toNat = addr.toNat + 1 := by bv_omega
    unfold landed
    rw [ih (by omega) (by omega)]
    split
    · exact Function.update_of_ne (by omega) ..
    · rfl

theorem lands_congr (room : addr.toNat + count < 2 ^ 32)
    (same : ∀ p, addr.toNat ≤ p → p < addr.toNat + count → bytes p = bytes' p) :
    Paged.Lands bytes tmp_buffer count m addr i ↔ Paged.Lands bytes' tmp_buffer count m addr i := by
  induction count generalizing m addr i with
  | zero => exact Iff.rfl
  | succ count ih =>
    have next : (addr + 1).toNat = addr.toNat + 1 := by bv_omega
    unfold Paged.Lands
    rw [same addr.toNat le_rfl (by omega), ih (by omega) fun p above bound => same p (by omega) (by omega)]

/-- All bytes are stored exactly if those that meet a fault are there already. -/
theorem landed_iff (room : addr.toNat + count < 2 ^ 32) :
    (∀ k, k < count → landed tmp_buffer count bytes m addr i (addr.toNat + k) = tmp_buffer (i + k)) ↔
      Paged.Lands bytes tmp_buffer count m addr i := by
  induction count generalizing m bytes addr i with
  | zero => exact iff_of_true (fun k none => absurd none (Nat.not_lt_zero k)) trivial
  | succ count ih =>
    have next : (addr + 1).toNat = addr.toNat + 1 := by bv_omega
    unfold landed Paged.Lands
    generalize stored : (if m.Resident addr then Function.update bytes addr.toNat (tmp_buffer i) else bytes) =
      bytes'
    have here : bytes' addr.toNat = tmp_buffer i ↔ m.Resident addr ∨ bytes addr.toNat = tmp_buffer i := by
      rw [← stored]
      by_cases resident : m.Resident addr
      · rw [if_pos resident, Function.update_self]
        exact iff_of_true rfl (.inl resident)
      · rw [if_neg resident]
        exact ⟨.inr, fun either => either.resolve_left resident⟩
    have later : ∀ p, (addr + 1).toNat ≤ p → p < (addr + 1).toNat + count → bytes p = bytes' p := by
      intro p above _
      rw [← stored]
      split
      · exact (Function.update_of_ne (by omega) ..).symm
      · rfl
    have first : ∀ m' i', landed tmp_buffer count bytes' m' (addr + 1) i' addr.toNat = bytes' addr.toNat :=
      fun m' i' => landed_outside (by omega) (by omega)
    rw [← here, lands_congr (by omega) later, ← ih (by omega), next]
    constructor
    · intro right
      refine ⟨(first _ _).symm.trans (right 0 (Nat.succ_pos _)), fun k bound => ?_⟩
      have moved := right (k + 1) (by omega)
      rwa [show addr.toNat + (k + 1) = addr.toNat + 1 + k by omega,
        show i + (k + 1) = i + 1 + k by omega] at moved
    · rintro ⟨here, others⟩ k bound
      cases k with
      | zero => exact (first _ _).trans here
      | succ k =>
        have moved := others k (by omega)
        rwa [show addr.toNat + 1 + k = addr.toNat + (k + 1) by omega,
          show i + 1 + k = i + (k + 1) by omega] at moved

/-- The bytes of an address space are determined by the machine. -/
theorem Keeps.determined (keeps : Keeps m bytes) (keeps' : Keeps m bytes') {p : Nat}
    (inside : p < m.space.numPages.toNat * 128) : bytes p = bytes' p := by
  have place : p / 128 * 128 + p % 128 = p := by omega
  have small : p % 128 < 128 := Nat.mod_lt _ (by decide)
  rw [← place]
  by_cases resident : ∃ i, (m.space.pageTable i).virtualPage.toNat = p / 128
  · obtain ⟨i, page⟩ := resident
    have holds : m.space.Holds i := keeps.holds (by omega)
    rw [← page, ← keeps.present i holds _ small, ← keeps'.present i holds _ small]
  · have clean : ∀ i, (m.space.pageTable i).virtualPage.toNat = p / 128 →
        (m.space.pageTable i).dirty = false := fun i page => absurd ⟨i, page⟩ resident
    rw [← keeps.stored (p / 128) (by omega) clean _ small, ← keeps'.stored (p / 128) (by omega) clean _ small]

/-! ## What is delivered -/

/-- `OpenFile::ReadAt` returns what was asked for exactly if the file has it, whatever the disk
does. -/
theorem ReadAt_returns (file : OpenFile) (into : Memory) (size : Nat) (position : Int) :
    Program.Issues (fun _ => True) (fun _ => True)
      (fun result => result.1 = (size : Int) ↔ size = 0 ∨ position + size ≤ file.hdr.FileLength)
      (file.ReadAt into size position) := by
  unfold OpenFile.ReadAt
  dsimp only
  by_cases nothing : (size : Int) ≤ 0 ∨ position > file.hdr.FileLength
  · rw [if_pos nothing]
    show (0 : Int) = size ↔ size = 0 ∨ position + size ≤ file.hdr.FileLength
    omega
  · rw [if_neg nothing]
    split
    · trivial
    · refine Program.issues_after fun storage => Program.issues_after fun buf => ?_
      refine Program.issues_after fun hdr => Program.issues_after fun _ => ?_
      show (if position + size > file.hdr.FileLength then file.hdr.FileLength - position else (size : Int)) =
        size ↔ size = 0 ∨ position + size ≤ file.hdr.FileLength
      split <;> omega

theorem Read_returns {file : OpenFile} {into buffer : Memory} {size : Nat} {disk disk' : SynchDisk}
    {delivered : Int} {file' : OpenFile}
    (ran : (file.Read into size).run SynchDisk.handle disk = .done (delivered, buffer, file') disk') :
    delivered = size ↔ size = 0 ∨ file.seekPosition + size ≤ file.hdr.FileLength := by
  have returns : Program.Issues (fun _ => True) (fun _ => True)
      (fun result => result.1 = (size : Int) ↔ size = 0 ∨ file.seekPosition + size ≤ file.hdr.FileLength)
      (file.Read into size) := by
    unfold OpenFile.Read
    split
    · exact Program.issues_bind.mpr (ReadAt_returns file into size file.seekPosition)
    · trivial
  exact returns.returns ran

/-- The bytes that `OpenFile::Read` delivered are in user memory, their number is in `r2`, and no
other byte has changed. -/
def Delivers (m : Paged) (bytes : Memory) (disk : SynchDisk) (file : OpenFile) (r4 : BitVec 32) (size : Nat)
    (stack : Memory) (delivered : Int) (tmp_buffer : Memory) : Prop :=
  ∃ returned, m.SC_Read disk file r4 size stack = some returned ∧ returned.r2 = delivered ∧
    Keeps returned.user (bytes.splice r4.toNat delivered.toNat tmp_buffer)

theorem Keeps.delivers_iff (keeps : Keeps m bytes) (writable : m.Writable) {r4 : BitVec 32} {size : Nat}
    (inside : r4.toNat + size ≤ m.space.numPages.toNat * PageSize) {disk disk' : SynchDisk}
    {file file' : OpenFile} {stack : Memory} {delivered : Int}
    (ran : (file.Read stack size).run SynchDisk.handle disk = .done (delivered, tmp_buffer, file') disk') :
    Delivers m bytes disk file r4 size stack delivered tmp_buffer ↔
      (size = 0 ∨ file.seekPosition + size ≤ file.hdr.FileLength) ∧
        Paged.Lands bytes tmp_buffer size m r4 0 := by
  have inside : r4.toNat + size ≤ m.space.numPages.toNat * 128 := inside
  have fits : m.space.numPages.toNat ≤ 64 := keeps.fits
  obtain ⟨m', put, keeps', pages⟩ :=
    @Keeps.puts _ _ tmp_buffer _ _ 0 keeps writable inside
  have called : m.SC_Read disk file r4 size stack =
      some { r2 := size, disk := disk', file := file', user := m' } := by
    unfold Paged.SC_Read
    rw [ran]
    dsimp only
    rw [put]
    rfl
  rw [← Read_returns ran, ← landed_iff (by omega)]
  constructor
  · rintro ⟨returned, called', count, user⟩
    rw [called] at called'
    cases called'
    refine ⟨count.symm, fun k bound => ?_⟩
    rw [keeps'.determined user (by rw [pages]; omega), ← count, Int.toNat_natCast,
      Memory.splice_inside (by omega) (by omega), Nat.add_sub_cancel_left, Nat.zero_add]
  · rintro ⟨rfl, right⟩
    refine ⟨_, called, rfl, ?_⟩
    have same : bytes.splice r4.toNat size tmp_buffer = landed tmp_buffer size bytes m r4 0 := by
      funext p
      by_cases inside : r4.toNat ≤ p ∧ p < r4.toNat + size
      · have byte := right (p - r4.toNat) (by omega)
        rw [Nat.add_sub_cancel' inside.1, Nat.zero_add] at byte
        rw [byte, Memory.splice_inside inside.1 inside.2]
      · rw [landed_outside (by omega) (by omega), Memory.splice_outside (by omega)]
    rw [Int.toNat_natCast, same]
    exact keeps'

/-- Where all pages of the buffer are in memory, no byte meets a fault. -/
theorem Keeps.lands_of_resident (keeps : Keeps m bytes) (writable : m.Writable)
    (inside : addr.toNat + count ≤ m.space.numPages.toNat * 128)
    (resident : ∀ a : BitVec 32, addr.toNat ≤ a.toNat → a.toNat < addr.toNat + count → m.Resident a) :
    Paged.Lands bytes' tmp_buffer count m addr i := by
  induction count generalizing m bytes addr i with
  | zero => trivial
  | succ count ih =>
    have fits : m.space.numPages.toNat ≤ 64 := keeps.fits
    have next : (addr + 1).toNat = addr.toNat + 1 := by bv_omega
    have here : addr.toNat < m.space.numPages.toNat * 128 := by omega
    obtain ⟨-, keeps', writable', pages⟩ := keeps.writes writable here (tmp_buffer i)
    have first : m.Resident addr := resident addr le_rfl (by omega)
    refine ⟨.inl first, ih keeps' writable' (by rw [next, pages]; omega) fun a above bound => ?_⟩
    exact keeps.stays_resident writable here first (tmp_buffer i) (resident a (by omega) (by omega))

/-- `SC_Read` leaves in user memory the bytes that `OpenFile::Read` delivered, and their number in
`r2`, exactly if the file has as many as were asked for, and no byte of a different value meets
a page that is not in memory. -/
theorem read_call_iff (keeps : Keeps m bytes) (writable : m.Writable) {r4 : BitVec 32} {size : Nat}
    (inside : r4.toNat + size ≤ m.space.numPages.toNat * PageSize) {disk disk' : SynchDisk}
    {file file' : OpenFile} {stack : Memory} {delivered : Int}
    (ran : (file.Read stack size).run SynchDisk.handle disk = .done (delivered, tmp_buffer, file') disk') :
    Delivers m bytes disk file r4 size stack delivered tmp_buffer ↔
      (size = 0 ∨ file.seekPosition + size ≤ file.hdr.FileLength) ∧
        Paged.Lands bytes tmp_buffer size m r4 0 :=
  keeps.delivers_iff writable inside ran

end

/-! ## A file of two hundred bytes -/

/-- Two pages full of one byte, none of them in memory. -/
def uniform (c : UInt8) : Paged where
  mainMemory := fun _ => 0
  bitmap := fun _ => false
  space := { pageTable := blankTable, numPages := 2 }
  file := { length := 256, bytes := fun _ => c }

theorem uniform_keeps (c : UInt8) : Keeps (uniform c) fun _ => c :=
  Paged.Fresh.keeps ⟨fun _ => rfl, rfl, show (2 : BitVec 32).toNat ≤ 64 by decide, rfl⟩

theorem uniform_writable (c : UInt8) : (uniform c).Writable := fun _ => rfl

/-- The first page has been used. -/
theorem used_keeps (c : UInt8) : Keeps ((uniform c).PageFault 0) (fun _ => c) ∧
    ((uniform c).PageFault 0).space.numPages = 2 ∧ ((uniform c).PageFault 0).Writable ∧
    ∀ a : BitVec 32, a.toNat < 128 → ((uniform c).PageFault 0).Resident a := by
  have missing : ¬ (uniform c).Resident 0 := by
    rintro ⟨i, page⟩
    have none : (-1 : BitVec 32).toNat = (0 : BitVec 32).toNat / PageSize := page
    revert none
    decide
  have inside : (0 : BitVec 32).toNat < (2 : BitVec 32).toNat * 128 := by decide
  obtain ⟨keeps, pages, i, page⟩ := (uniform_keeps c).faults inside missing
  refine ⟨keeps, pages, (uniform_writable c).faults 0, fun a small => ⟨i, page.trans ?_⟩⟩
  show (0 : BitVec 32).toNat / 128 = a.toNat / 128
  rw [Nat.div_eq_of_lt small]
  rfl

/-- A file of two hundred bytes, and that it can be read. -/
theorem read_two_hundred : ∃ (disk : SynchDisk) (hdr : FileHeader), hdr.FileLength = 200 ∧
    ∀ (size position : Nat) (stack : Memory), 0 < size → position ≤ 200 → size ≤ 200 →
      ∃ delivered tmp_buffer file disk', ((OpenFile.mk hdr position).Read stack size).run
        SynchDisk.handle disk = .done (delivered, tmp_buffer, file) disk' := by
  obtain ⟨disk, file, header, -⟩ := @zeroMachine_handle 200 (by decide)
  have coherent : zeroMachine.cache.Coherent disk := fun i valid => by cases valid
  obtain ⟨low, upper, -⟩ := header.own.1
  refine ⟨{ zeroMachine with disk := disk }, file.hdr, header.length, fun size position stack some inside few => ?_⟩
  have reads : Ensures ((OpenFile.mk file.hdr position).Read stack size) (fun _ _ _ => True) (fun _ => False)
      disk zeroMachine.visNum := by
    unfold OpenFile.Read
    rw [if_pos ⟨low, upper⟩]
    have header' : ConsistentHeader disk (OpenFile.mk file.hdr position).hdr 200 := header
    exact ensures_bind (header'.ensures_ReadAt some inside (.inl (by omega)) (fun impossible => by cases impossible)
      fun _ _ _ _ _ _ _ => ensures_pure trivial)
  obtain ⟨⟨delivered, tmp_buffer, after⟩, disk', ran, -⟩ :=
    @ensures_returns _ _ _ { zeroMachine with disk := disk } coherent reads
  exact ⟨delivered, tmp_buffer, after, disk', ran⟩

/-- Three bytes from the start of the file are delivered to a page in memory. -/
theorem read_call_delivers : ∃ disk file stack delivered tmp_buffer, ((uniform 0).PageFault 0).Writable ∧
    Delivers ((uniform 0).PageFault 0) (fun _ => 0) disk file 8 3 stack delivered tmp_buffer := by
  obtain ⟨disk, hdr, length, reads⟩ := read_two_hundred
  obtain ⟨keeps, pages, writable, resident⟩ := used_keeps 0
  obtain ⟨delivered, tmp_buffer, file', disk', ran⟩ := reads 3 0 (fun _ => 7) (by decide) (by decide) (by decide)
  have start : (8 : BitVec 32).toNat = 8 := rfl
  have inside : (8 : BitVec 32).toNat + 3 ≤ ((uniform 0).PageFault 0).space.numPages.toNat * PageSize := by
    rw [pages]
    decide
  refine ⟨disk, _, _, delivered, tmp_buffer, writable, (read_call_iff keeps writable inside ran).mpr ⟨.inr ?_, ?_⟩⟩
  · rw [length]
    show ((0 : Nat) : Int) + (3 : Nat) ≤ 200
    decide
  · exact keeps.lands_of_resident writable inside fun a _ bound => resident a (by omega)

/-- Three bytes are asked for where the file has two left, and `r2` counts three. On a page that is
not in memory the first byte is not stored. -/
theorem read_call_fails :
    (∃ disk file stack delivered tmp_buffer file' disk',
      (file.Read stack (3 : Nat)).run SynchDisk.handle disk = .done (delivered, tmp_buffer, file') disk' ∧
      Keeps ((uniform 0).PageFault 0) (fun _ => 0) ∧ ((uniform 0).PageFault 0).Writable ∧
      ¬ Delivers ((uniform 0).PageFault 0) (fun _ => 0) disk file 8 3 stack delivered tmp_buffer) ∧
    ∃ c disk file stack delivered tmp_buffer file' disk',
      (file.Read stack (1 : Nat)).run SynchDisk.handle disk = .done (delivered, tmp_buffer, file') disk' ∧
      Keeps (uniform c) (fun _ => c) ∧ (uniform c).Writable ∧
      ¬ Delivers (uniform c) (fun _ => c) disk file 8 1 stack delivered tmp_buffer := by
  obtain ⟨disk, hdr, length, reads⟩ := read_two_hundred
  constructor
  · obtain ⟨keeps, pages, writable, -⟩ := used_keeps 0
    obtain ⟨delivered, tmp_buffer, file', disk', ran⟩ := reads 3 198 (fun _ => 7) (by decide) (by decide) (by decide)
    refine ⟨disk, _, _, delivered, tmp_buffer, file', disk', ran, keeps, writable, fun delivers => ?_⟩
    have inside : (8 : BitVec 32).toNat + 3 ≤ ((uniform 0).PageFault 0).space.numPages.toNat * PageSize := by
      rw [pages]
      decide
    obtain ⟨enough, -⟩ := (keeps.delivers_iff writable inside ran).mp delivers
    dsimp only at enough
    rw [length] at enough
    revert enough
    decide
  · obtain ⟨delivered, tmp_buffer, file', disk', ran⟩ := reads 1 0 (fun _ => 7) (by decide) (by decide) (by decide)
    have other : tmp_buffer 0 + 1 ≠ tmp_buffer 0 := by
      intro same
      simp at same
    refine ⟨tmp_buffer 0 + 1, disk, _, _, delivered, tmp_buffer, file', disk', ran, uniform_keeps _,
      uniform_writable _, fun delivers => ?_⟩
    have inside : (8 : BitVec 32).toNat + 1 ≤ (2 : BitVec 32).toNat * PageSize := by decide
    obtain ⟨-, landed, -⟩ := ((uniform_keeps _).delivers_iff (uniform_writable _) inside ran).mp delivers
    rcases landed with ⟨i, page⟩ | same
    · have none : (-1 : BitVec 32).toNat = (8 : BitVec 32).toNat / PageSize := page
      revert none
      decide
    · exact other same

end Nachos.Paging
