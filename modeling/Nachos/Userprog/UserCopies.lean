import Mathlib.Algebra.Group.Nat.Defs
import Nachos.Userprog.PagingProofs

/-! File names and bytes that the kernel copies from user memory
(`userprog/exception.cc`). Every byte is fetched with `ReadMem`. A page fault on the
way is served, but the byte is not fetched again: the variable keeps what it held,
and the copy goes on with the next byte.

A copy is right when no fault happens on its first byte, and every page that faults
later begins with the byte that the page before it ends with. -/
namespace Nachos.Paging
open Effects Machine

/-! ## The copies of the system calls -/

/-- `(char) v`. -/
def lowByte (v : BitVec 32) : UInt8 := UInt8.ofBitVec (v.setWidth 8)

/-- A byte as `ReadMem` extends it. -/
def extended (c : UInt8) : BitVec 32 := c.toBitVec.signExtend 32

namespace Paged

/-- `machine->ReadMem(addr, 1, &v)` in the kernel: what `v` is then. The handler fails an
`ASSERT` on every exception but a page fault. -/
def readByte (m : Paged) (addr v : BitVec 32) : Option (BitVec 32 × Paged) :=
  match m.attempt (.read addr 1) with
  | (.value value, m) => some (value, m)
  | (.raised .PageFaultException, m) => some (v, m.PageFault addr)
  | _ => none

/-- The machine behind it. -/
def afterRead (m : Paged) (addr : BitVec 32) : Paged :=
  match m.attempt (.read addr 1) with
  | (.raised .PageFaultException, m) => m.PageFault addr
  | (_, m) => m

/-- The loop over the bytes of a name, with the test that ends it. The array `name` and
what lies behind it on the stack are one memory. -/
def copyName (stops : BitVec 32 → Bool) :
    Nat → Paged → BitVec 32 → BitVec 32 → Memory → Nat → Option (Memory × Nat × Paged)
  | 0, _, _, _, _, _ => none
  | fuel + 1, m, name_pos, v, name, i => do
    let (v, m) ← m.readByte name_pos v
    if stops v then return (name, i, m)
    else copyName stops fuel m (name_pos + 1) v (Function.update name i (lowByte v)) (i + 1)

/-- More bytes than there are addresses to read. -/
def addresses (m : Paged) : Nat := m.space.numPages.toNat * PageSize + 1

/-- The name that `SC_Create` hands over. `name_len` counts the `NUL` too. -/
def createName (m : Paged) (r4 v : BitVec 32) (name : Memory) : Option Memory := do
  let (name, i, _) ← m.copyName (fun v => v == 0) m.addresses r4 v name 0
  let name_len := i + 1
  return Function.update name name_len 0

/-- The name that `SC_Open` hands over. -/
def openName (m : Paged) (r4 v : BitVec 32) (name : Memory) : Option Memory := m.createName r4 v name

/-- The name that `SC_Exec` hands over. -/
def execName (m : Paged) (r4 v : BitVec 32) (name : Memory) : Option Memory := do
  let (name, i, _) ← m.copyName (fun v => lowByte v == 0) m.addresses r4 v name 0
  return Function.update name i 0

/-- The loop of `SC_Write`, with so many bytes still to copy. -/
def copyBytes : Nat → Paged → BitVec 32 → BitVec 32 → Memory → Nat → Option (Memory × Paged)
  | 0, m, _, _, tmp_buffer, _ => some (tmp_buffer, m)
  | count + 1, m, addr, tmp, tmp_buffer, i => do
    let (tmp, m) ← m.readByte addr tmp
    copyBytes count m (addr + 1) tmp (Function.update tmp_buffer i (lowByte tmp)) (i + 1)

/-- The bytes that `SC_Write` hands over. -/
def writeBytes (m : Paged) (r4 tmp : BitVec 32) (size : Nat) (tmp_buffer : Memory) : Option Memory := do
  let (tmp_buffer, _) ← m.copyBytes size r4 tmp tmp_buffer 0
  return tmp_buffer

/-! ## What a copy depends on -/

/-- The page of the address is in memory. -/
def Resident (m : Paged) (addr : BitVec 32) : Prop :=
  ∃ i, (m.space.pageTable i).virtualPage.toNat = addr.toNat / PageSize

instance (m : Paged) (addr : BitVec 32) : Decidable (m.Resident addr) :=
  inferInstanceAs (Decidable (∃ _ : Fin NumPhysPages, _ = _))

/-- While so many further bytes are read, a page that is not in memory begins with the
byte before it. -/
def Steady (bytes : Memory) : Paged → BitVec 32 → Nat → Prop
  | _, _, 0 => True
  | m, addr, count + 1 =>
    ((m.afterRead addr).Resident (addr + 1) ∨ bytes (addr.toNat + 1) = bytes addr.toNat) ∧
      Steady bytes (m.afterRead addr) (addr + 1) count

/-- And the first byte is in memory. -/
def Undisturbed (bytes : Memory) (m : Paged) (addr : BitVec 32) : Nat → Prop
  | 0 => True
  | count + 1 => m.Resident addr ∧ Steady bytes m addr count

end Paged

/-- The memory has this string and a `NUL` at an address. -/
def Spells (memory : Memory) (start : Nat) (text : List UInt8) : Prop :=
  (∀ c ∈ text, c ≠ 0) ∧ ∀ k, k ≤ text.length → memory (start + k) = text.getD k 0

/-! ## The address space of a program among others -/

/-- The address space stands for these bytes. Frames of other programs may be taken. -/
structure Keeps (m : Paged) (bytes : Memory) : Prop where
  taken (i : Fin NumPhysPages) : m.space.Holds i → m.bitmap i = true
  pages (i : Fin NumPhysPages) : m.space.Holds i →
    (m.space.pageTable i).virtualPage.toNat < m.space.numPages.toNat
  unique (i j : Fin NumPhysPages) : m.space.Holds i →
    (m.space.pageTable i).virtualPage = (m.space.pageTable j).virtualPage → i = j
  frame (i : Fin NumPhysPages) : (m.space.pageTable i).physicalPage.toNat = i
  unused (i : Fin NumPhysPages) : ¬ m.space.Holds i → (m.space.pageTable i).dirty = false
  fits : m.space.numPages.toNat ≤ NumPhysPages
  file : m.space.numPages.toNat * 128 ≤ m.file.length
  present (i : Fin NumPhysPages) : m.space.Holds i → ∀ o, o < 128 →
    m.mainMemory (i * 128 + o) = bytes ((m.space.pageTable i).virtualPage.toNat * 128 + o)
  -- A page that is written to is marked, so the file has every other one.
  stored (v : Nat) : v < m.space.numPages.toNat →
    (∀ i, (m.space.pageTable i).virtualPage.toNat = v → (m.space.pageTable i).dirty = false) →
    ∀ o, o < 128 → m.file.bytes (v * 128 + o) = bytes (v * 128 + o)

section
variable {m : Paged} {bytes : Memory}

theorem Keeps.holds (keeps : Keeps m bytes) {i : Fin NumPhysPages}
    (inside : (m.space.pageTable i).virtualPage.toNat < m.space.numPages.toNat) : m.space.Holds i := by
  intro none
  rw [none] at inside
  have fits : m.space.numPages.toNat ≤ 64 := keeps.fits
  have top : (-1 : BitVec 32).toNat = 4294967295 := by decide
  omega

theorem Paged.Fresh.keeps (fresh : m.Fresh) : Keeps m m.file.bytes := by
  have backs := fresh.backs
  have clean : ∀ i, (m.space.pageTable i).dirty = false := by
    intro i
    rw [fresh.table]
    rfl
  exact ⟨fun i => (backs.taken i).mpr, backs.pages, backs.unique, backs.frame, fun i _ => clean i,
    backs.fits, backs.file.ge, backs.present, fun _ _ _ _ _ => rfl⟩

/-- The bit that a read sets is no concern. -/
theorem Keeps.touches (keeps : Keeps m bytes) (i : Fin NumPhysPages) :
    Keeps { m with space :=
      { m.space with pageTable := touched m.space.pageTable i (m.space.pageTable i).dirty } } bytes := by
  have entry := touched_entry m.space.pageTable i (m.space.pageTable i).dirty
  have bit := fun j => (entry j).2.2.2 rfl
  refine ⟨fun j => ?_, fun j => ?_, fun j k => ?_, fun j => ?_, fun j => ?_, keeps.fits, keeps.file,
    fun j => ?_, fun v inside clean => keeps.stored v inside fun j here => ?_⟩
  · rw [AddrSpace.Holds, (entry j).1]
    exact keeps.taken j
  · rw [AddrSpace.Holds, (entry j).1]
    exact keeps.pages j
  · rw [AddrSpace.Holds, (entry j).1, (entry k).1]
    exact keeps.unique j k
  · rw [(entry j).2.1]
    exact keeps.frame j
  · rw [AddrSpace.Holds, (entry j).1, bit j]
    exact keeps.unused j
  · rw [AddrSpace.Holds, (entry j).1]
    exact keeps.present j
  · rw [← bit j]
    rw [← (entry j).1] at here
    exact clean j here

/-- A page is read into a frame that no other page of the program is in. -/
theorem Keeps.loads (keeps : Keeps m bytes) {v : Nat} (inside : v < m.space.numPages.toNat)
    (missing : ∀ i, (m.space.pageTable i).virtualPage.toNat ≠ v) {pos : Fin NumPhysPages}
    {bitmap : Bitmap} (marked : ∀ i, m.bitmap i = true ∨ i = pos → bitmap i = true)
    {space : AddrSpace} (numPages : space.numPages = m.space.numPages)
    (others : ∀ j, j ≠ pos → space.pageTable j = m.space.pageTable j)
    (frame : (space.pageTable pos).physicalPage = (m.space.pageTable pos).physicalPage)
    {file : BackingFile} (long : m.space.numPages.toNat * 128 ≤ file.length)
    (stored : ∀ w, w < m.space.numPages.toNat →
      (∀ i, i ≠ pos → (m.space.pageTable i).virtualPage.toNat = w → (m.space.pageTable i).dirty = false) →
      ∀ o, o < 128 → file.bytes (w * 128 + o) = bytes (w * 128 + o)) :
    Keeps { mainMemory := fill m.mainMemory file v pos, bitmap := bitmap
            space := space.mapPage v pos, file := file } bytes := by
  have fits : m.space.numPages.toNat ≤ 64 := keeps.fits
  have number : (BitVec.ofNat 32 v).toNat = v := by
    rw [BitVec.toNat_ofNat]
    exact Nat.mod_eq_of_lt (by omega)
  have table : ∀ j, j = pos ∧ ((space.mapPage v pos).pageTable j).virtualPage = BitVec.ofNat 32 v ∧
      ((space.mapPage v pos).pageTable j).physicalPage = (m.space.pageTable j).physicalPage ∧
      ((space.mapPage v pos).pageTable j).dirty = false ∨
      j ≠ pos ∧ (space.mapPage v pos).pageTable j = m.space.pageTable j := by
    intro j
    unfold AddrSpace.mapPage
    by_cases here : j = pos
    · subst here
      refine .inl ⟨rfl, ?_⟩
      simp only [Function.update_self, frame, and_self]
    · refine .inr ⟨here, ?_⟩
      show Function.update space.pageTable pos _ j = _
      rw [Function.update_of_ne here, others j here]
  have whole : min 128 (file.length - v * 128) = 128 := by omega
  have filled : fill m.mainMemory file v pos =
      m.mainMemory.splice (pos * 128) 128 fun k => file.bytes (v * 128 + k) := by
    show (if file.length < v * 128 then m.mainMemory else m.mainMemory.splice (pos * 128)
      (min 128 (file.length - v * 128)) fun k => file.bytes (v * 128 + k)) = _
    rw [if_neg (by omega), whole]
  have pages : (space.mapPage v pos).numPages = m.space.numPages := numPages
  refine ⟨fun j holds => ?_, fun j holds => ?_, fun j k holds same => ?_, fun j => ?_, fun j unheld => ?_,
    ?_, ?_, fun j holds o bound => ?_, fun w small clean o bound => ?_⟩
  · obtain ⟨here, -⟩ | ⟨-, entry⟩ := table j
    · exact marked j (.inr here)
    · rw [AddrSpace.Holds, entry] at holds
      exact marked j (.inl (keeps.taken j holds))
  · show _ < (space.mapPage v pos).numPages.toNat
    rw [pages]
    obtain ⟨-, page, -⟩ | ⟨-, entry⟩ := table j
    · rw [page, number]
      exact inside
    · rw [AddrSpace.Holds, entry] at holds
      rw [entry]
      exact keeps.pages j holds
  · obtain ⟨rfl, page, -⟩ | ⟨other, entry⟩ := table j <;>
      obtain ⟨rfl, page', -⟩ | ⟨other', entry'⟩ := table k
    · rfl
    · rw [page, entry'] at same
      exact absurd (same ▸ number) (missing k)
    · rw [page', entry] at same
      exact absurd (same ▸ number) (missing j)
    · rw [AddrSpace.Holds, entry] at holds
      rw [entry, entry'] at same
      exact keeps.unique j k holds same
  · obtain ⟨-, -, physical, -⟩ | ⟨-, entry⟩ := table j
    · rw [physical]
      exact keeps.frame j
    · rw [entry]
      exact keeps.frame j
  · obtain ⟨-, -, -, clean⟩ | ⟨-, entry⟩ := table j
    · exact clean
    · rw [AddrSpace.Holds, entry] at unheld
      rw [entry]
      exact keeps.unused j unheld
  · show (space.mapPage v pos).numPages.toNat ≤ 64
    rw [pages]
    exact fits
  · show (space.mapPage v pos).numPages.toNat * 128 ≤ file.length
    rw [pages]
    exact long
  · show fill m.mainMemory file v pos (j * 128 + o) = _
    rw [filled]
    obtain ⟨rfl, page, -⟩ | ⟨other, entry⟩ := table j
    · rw [page, number, Memory.splice_inside (by omega) (by omega), Nat.add_sub_cancel_left]
      exact stored v inside (fun i _ here => absurd here (missing i)) o bound
    · rw [AddrSpace.Holds, entry] at holds
      have apart : (j : Nat) ≠ pos := fun same => other (Fin.ext same)
      rw [entry, Memory.splice_outside (by omega)]
      exact keeps.present j holds o bound
  · have small : w < m.space.numPages.toNat := by
      rw [← pages]
      exact small
    refine stored w small (fun i apart here => ?_) o bound
    obtain ⟨rfl, -⟩ | ⟨-, entry⟩ := table i
    · exact absurd rfl apart
    · have clean := clean i
      rw [entry] at clean
      exact clean here

/-- Only the entry of frame 0 can be the victim. -/
theorem Keeps.victim (keeps : Keeps m bytes) (some_page : 0 < m.space.numPages.toNat) :
    m.space.victim = if (m.space.pageTable 0).dirty then some 0 else none := by
  have zero : ∀ j, (m.space.pageTable j).physicalPage = 0 ↔ j = 0 := by
    intro j
    rw [BitVec.toNat_eq, keeps.frame j, Fin.ext_iff]
    rfl
  unfold AddrSpace.victim
  by_cases dirty : (m.space.pageTable 0).dirty
  · rw [if_pos dirty]
    have first : List.finRange NumPhysPages = 0 :: (List.finRange 63).map Fin.succ := List.finRange_succ
    rw [first, List.find?_cons_of_pos]
    simp [some_page, (zero 0).mpr rfl, dirty]
  · rw [if_neg dirty]
    apply List.find?_eq_none.mpr
    intro j _ found
    simp only [Bool.and_eq_true, decide_eq_true_eq] at found
    rw [(zero j).mp found.1.2] at found
    exact dirty found.2

/-- Frame 0 is given up. -/
theorem Keeps.evicts (keeps : Keeps m bytes) {v : Nat} (inside : v < m.space.numPages.toNat)
    (missing : ∀ i, (m.space.pageTable i).virtualPage.toNat ≠ v) (full : ∀ i, m.bitmap i = true) :
    Keeps
      { mainMemory := fill m.mainMemory (evict m.space m.mainMemory m.file).2 v 0, bitmap := m.bitmap
        space := (evict m.space m.mainMemory m.file).1.mapPage v 0
        file := (evict m.space m.mainMemory m.file).2 } bytes := by
  have marked : ∀ i, m.bitmap i = true ∨ i = 0 → m.bitmap i = true := fun i _ => full i
  unfold evict
  rw [keeps.victim (by omega)]
  by_cases dirty : (m.space.pageTable 0).dirty
  · rw [if_pos dirty]
    have holds : m.space.Holds 0 := by
      by_contra unheld
      rw [keeps.unused 0 unheld] at dirty
      cases dirty
    have page := keeps.pages 0 holds
    have long := keeps.file
    have written : m.file.WriteAt m.mainMemory PageSize
        ((m.space.pageTable 0).virtualPage.toNat * PageSize) =
        { length := max m.file.length ((m.space.pageTable 0).virtualPage.toNat * 128 + 128)
          bytes := m.file.bytes.splice ((m.space.pageTable 0).virtualPage.toNat * 128) 128
            m.mainMemory } := by
      have inside : ¬ (128 = 0 ∨ m.file.length < (m.space.pageTable 0).virtualPage.toNat * 128) := by
        omega
      exact if_neg inside
    simp only [written]
    refine keeps.loads inside missing marked ?_ (fun j apart => ?_) ?_ ?_ fun w small clean o bound => ?_
    · rfl
    · exact Function.update_of_ne apart _ _
    · simp only [Function.update_self]
    · exact long.trans (le_max_left _ _)
    · show m.file.bytes.splice _ 128 m.mainMemory (w * 128 + o) = _
      -- The page that was in frame 0 has just been written, the others are as they were.
      by_cases here : (m.space.pageTable 0).virtualPage.toNat = w
      · have frame := keeps.present 0 holds o bound
        rw [here] at frame ⊢
        rw [Memory.splice_inside (by omega) (by omega), Nat.add_sub_cancel_left, ← frame]
        congr 1
        exact (Nat.zero_add o).symm
      · rw [Memory.splice_outside (by omega)]
        refine keeps.stored w small (fun i page => ?_) o bound
        refine clean i ?_ page
        rintro rfl
        exact here page
  · rw [if_neg dirty]
    refine keeps.loads inside missing marked rfl (fun _ _ => rfl) rfl keeps.file
      fun w small clean o bound => keeps.stored w small (fun i page => ?_) o bound
    by_cases here : i = 0
    · rw [here]
      simpa using dirty
    · exact clean i here page

/-- The handler brings the page into memory. -/
theorem Keeps.faults (keeps : Keeps m bytes) {addr : BitVec 32}
    (inside : addr.toNat < m.space.numPages.toNat * 128) (missing : ¬ m.Resident addr) :
    Keeps (m.PageFault addr) bytes ∧ (m.PageFault addr).space.numPages = m.space.numPages ∧
      (m.PageFault addr).Resident addr := by
  have page : addr.toNat / 128 < m.space.numPages.toNat := by omega
  have missing : ∀ i, (m.space.pageTable i).virtualPage.toNat ≠ addr.toNat / 128 := fun i here =>
    missing ⟨i, here⟩
  have fits : m.space.numPages.toNat ≤ 64 := keeps.fits
  have number : (BitVec.ofNat 32 (addr.toNat / 128)).toNat = addr.toNat / 128 := by
    rw [BitVec.toNat_ofNat]
    exact Nat.mod_eq_of_lt (by omega)
  have mapped : ∀ (space : AddrSpace) (pos : Fin NumPhysPages),
      ((space.mapPage (addr.toNat / 128) pos).pageTable pos).virtualPage.toNat = addr.toNat / 128 := by
    intro space pos
    show (Function.update space.pageTable pos _ pos).virtualPage.toNat = _
    rw [Function.update_self]
    exact number
  by_cases free : ∃ i, m.bitmap i = false
  · obtain ⟨i, free⟩ := free
    obtain ⟨out, free, found⟩ := find_some free
    have unheld : ¬ m.space.Holds out := by
      intro holds
      rw [keeps.taken out holds] at free
      cases free
    rw [PageFault_eq found]
    refine ⟨?_, rfl, out, mapped _ _⟩
    refine keeps.loads page missing (fun i marked => ?_) rfl (fun _ _ => rfl) rfl keeps.file
      fun w small clean o bound => keeps.stored w small (fun i here => ?_) o bound
    · by_cases here : i = out
      · rw [here, Function.update_self]
      · rw [Function.update_of_ne here]
        exact marked.resolve_right here
    · by_cases held : i = out
      · rw [held]
        exact keeps.unused out unheld
      · exact clean i held here
  · have full : ∀ i, m.bitmap i = true := by
      intro i
      by_contra clear
      exact free ⟨i, by simpa using clear⟩
    have none : m.bitmap.find = (none, m.bitmap) := by
      have nobody : (List.finRange NumPhysPages).find? (fun i => !m.bitmap i) = Option.none := by
        apply List.find?_eq_none.mpr
        intro i _
        simp [full i]
      unfold Bitmap.find
      rw [nobody]
    unfold Paged.PageFault
    rw [none]
    refine ⟨keeps.evicts page missing full, ?_, 0, mapped _ _⟩
    show (evict m.space m.mainMemory m.file).1.numPages = _
    unfold evict
    cases m.space.victim <;> rfl

/-! ## One byte -/

/-- The byte in `v` behind a read, and behind the reads of further bytes, when `v` held `c`
before. -/
def heard (bytes : Memory) : Paged → BitVec 32 → UInt8 → Nat → UInt8
  | m, addr, c, 0 => if m.Resident addr then bytes addr.toNat else c
  | m, addr, c, k + 1 =>
    heard bytes (m.afterRead addr) (addr + 1) (if m.Resident addr then bytes addr.toNat else c) k

theorem Keeps.reads (keeps : Keeps m bytes) {addr v : BitVec 32} {c : UInt8}
    (inside : addr.toNat < m.space.numPages.toNat * 128)
    (known : m.Resident addr ∨ v = extended c) :
    m.readByte addr v = some (extended (heard bytes m addr c 0), m.afterRead addr) ∧
      Keeps (m.afterRead addr) bytes ∧ (m.afterRead addr).space.numPages = m.space.numPages ∧
      (m.afterRead addr).Resident addr := by
  have sized : Sized 1 := .inl rfl
  have aligned : addr.toNat % 1 = 0 := Nat.mod_one _
  by_cases resident : m.Resident addr
  · obtain ⟨i, page⟩ := resident
    cases found : m.space.pageTable.search (addr.toNat / 128) with
    | none => exact absurd page (search_none.mp found i)
    | some j =>
      have page := search_some found
      have holds : m.space.Holds j := keeps.holds (by omega)
      have translated : Translate m.space.pageTable m.space.numPages addr 1 false = _ :=
        translate_present sized aligned inside found (keeps.frame j) (Bool.and_false _)
      have same : m.mainMemory (j * 128 + addr.toNat % 128) = bytes addr.toNat := by
        rw [keeps.present j holds _ (Nat.mod_lt _ (by decide)), page]
        congr 1
        omega
      have attempted : m.attempt (.read addr 1) = (.value (extended (bytes addr.toNat)),
          { m with space := { m.space with
            pageTable := touched m.space.pageTable j (m.space.pageTable j).dirty } }) := by
        simp only [Paged.attempt, ReadMem, translated, fetch, Bool.or_false, same]
        rfl
      have resident : m.Resident addr := ⟨j, page⟩
      have entry := touched_entry m.space.pageTable j (m.space.pageTable j).dirty j
      unfold Paged.readByte Paged.afterRead
      rw [attempted, heard, if_pos resident]
      refine ⟨rfl, keeps.touches j, rfl, j, ?_⟩
      show (touched m.space.pageTable j (m.space.pageTable j).dirty j).virtualPage.toNat = _
      rw [entry.1, page]
  · have missing : ∀ i, (m.space.pageTable i).virtualPage.toNat ≠ addr.toNat / 128 := fun i here =>
      resident ⟨i, here⟩
    have attempted : m.attempt (.read addr 1) = (.raised .PageFaultException, m) :=
      attempt_raises fun writing => translate_absent sized aligned inside missing
    unfold Paged.readByte Paged.afterRead
    rw [attempted, heard, if_neg resident, known.resolve_left resident]
    exact ⟨rfl, keeps.faults inside resident⟩

/-- A byte is the one at its address, or the one before it again. -/
theorem heard_succ (m : Paged) (addr : BitVec 32) (c : UInt8) (k : Nat)
    (room : addr.toNat + k + 1 < 2 ^ 32) :
    heard bytes m addr c (k + 1) = bytes (addr.toNat + (k + 1)) ∨
      heard bytes m addr c (k + 1) = heard bytes m addr c k := by
  induction k generalizing m addr c with
  | zero =>
    have next : (addr + 1).toNat = addr.toNat + 1 := by bv_omega
    show heard bytes (m.afterRead addr) (addr + 1) (heard bytes m addr c 0) 0 = _ ∨
      heard bytes (m.afterRead addr) (addr + 1) (heard bytes m addr c 0) 0 = heard bytes m addr c 0
    generalize heard bytes m addr c 0 = before
    rw [heard, next]
    by_cases resident : (m.afterRead addr).Resident (addr + 1)
    · exact .inl (if_pos resident)
    · exact .inr (if_neg resident)
  | succ k ih =>
    have next : (addr + 1).toNat = addr.toNat + 1 := by bv_omega
    have later := ih (m.afterRead addr) (addr + 1) (heard bytes m addr c 0) (by omega)
    have position : addr.toNat + 1 + (k + 1) = addr.toNat + (k + 1 + 1) := by omega
    rw [next, position] at later
    exact later

theorem heard_zero (m : Paged) (addr : BitVec 32) (c : UInt8) :
    heard bytes m addr c 0 = bytes addr.toNat ↔ m.Resident addr ∨ c = bytes addr.toNat := by
  rw [heard]
  by_cases resident : m.Resident addr
  · rw [if_pos resident]
    exact iff_of_true rfl (.inl resident)
  · rw [if_neg resident]
    exact ⟨.inr, fun either => either.resolve_left resident⟩

/-- All bytes are right when the first one is, and no fault brings a different one. -/
theorem heard_iff (m : Paged) (addr : BitVec 32) (c : UInt8) (count : Nat)
    (room : addr.toNat + count < 2 ^ 32) :
    (∀ k, k ≤ count → heard bytes m addr c k = bytes (addr.toNat + k)) ↔
      (m.Resident addr ∨ c = bytes addr.toNat) ∧ m.Steady bytes addr count := by
  induction count generalizing m addr c with
  | zero =>
    rw [← heard_zero]
    refine ⟨fun right => ⟨right 0 le_rfl, trivial⟩, fun right k bound => ?_⟩
    rw [Nat.le_zero.mp bound]
    exact right.1
  | succ count ih =>
    have next : (addr + 1).toNat = addr.toNat + 1 := by bv_omega
    have later := ih (m.afterRead addr) (addr + 1) (heard bytes m addr c 0) (by omega)
    rw [next] at later
    rw [← heard_zero]
    constructor
    · intro right
      have here : heard bytes m addr c 0 = bytes addr.toNat := right 0 (Nat.zero_le _)
      have others := later.mp fun k bound => by
        have moved := right (k + 1) (by omega)
        rwa [show addr.toNat + (k + 1) = addr.toNat + 1 + k by omega] at moved
      rw [here] at others
      exact ⟨here, others.1.imp_right Eq.symm, others.2⟩
    · rintro ⟨here, step, steady⟩ k bound
      cases k with
      | zero => exact here
      | succ k =>
        rw [here] at later
        have moved := later.mpr ⟨step.imp_right Eq.symm, steady⟩ k (by omega)
        rw [show addr.toNat + 1 + k = addr.toNat + (k + 1) by omega] at moved
        rw [← moved, ← here]
        rfl

/-! ## Whole copies -/

theorem lowByte_extended (c : UInt8) : lowByte (extended c) = c := by
  apply UInt8.toBitVec_inj.mp
  show (c.toBitVec.signExtend 32).setWidth 8 = c.toBitVec
  apply BitVec.eq_of_getLsbD_eq
  intro i bound
  rw [BitVec.getLsbD_setWidth, BitVec.getLsbD_signExtend]
  simp [bound, show i < 32 by omega]

theorem extended_eq_zero (c : UInt8) : extended c = 0 ↔ c = 0 := by
  refine ⟨fun zero => ?_, fun zero => ?_⟩
  · rw [← lowByte_extended c, zero]
    rfl
  · rw [zero]
    rfl

/-- The test ends the loop at a `NUL`. -/
def StopsAtNul (stops : BitVec 32 → Bool) : Prop := ∀ c, stops (extended c) = true ↔ c = 0

theorem create_stops : StopsAtNul fun v => v == 0 := by
  intro c
  rw [beq_iff_eq, extended_eq_zero]

theorem exec_stops : StopsAtNul fun v => lowByte v == 0 := by
  intro c
  rw [beq_iff_eq, lowByte_extended]

/-- One turn of the loop over a name. -/
theorem Keeps.turns (keeps : Keeps m bytes) {stops : BitVec 32 → Bool} (nul : StopsAtNul stops)
    {addr v : BitVec 32} {c : UInt8} (inside : addr.toNat < m.space.numPages.toNat * 128)
    (known : m.Resident addr ∨ v = extended c) (fuel : Nat) (name : Memory) (i : Nat) :
    m.copyName stops (fuel + 1) addr v name i =
      if heard bytes m addr c 0 = 0 then some (name, i, m.afterRead addr)
      else (m.afterRead addr).copyName stops fuel (addr + 1) (extended (heard bytes m addr c 0))
        (Function.update name i (heard bytes m addr c 0)) (i + 1) := by
  rw [Paged.copyName, (keeps.reads inside known).1]
  by_cases zero : heard bytes m addr c 0 = 0
  · have test := (nul (heard bytes m addr c 0)).mpr zero
    rw [if_pos zero]
    simp [test]
  · have test : ¬ stops (extended (heard bytes m addr c 0)) = true := fun test => zero ((nul _).mp test)
    simp [test, zero, lowByte_extended]

/-- The loop stops at the first `NUL` it hears. -/
theorem Keeps.copies (keeps : Keeps m bytes) {stops : BitVec 32 → Bool} (nul : StopsAtNul stops)
    {addr v : BitVec 32} {c : UInt8} {n fuel : Nat} (enough : n < fuel)
    (inside : addr.toNat + n < m.space.numPages.toNat * 128)
    (known : m.Resident addr ∨ v = extended c) (name : Memory) (i : Nat)
    (before : ∀ k, k < n → heard bytes m addr c k ≠ 0) (last : heard bytes m addr c n = 0) :
    ∃ m', m.copyName stops fuel addr v name i =
      some (name.splice i n (heard bytes m addr c), i + n, m') := by
  obtain ⟨fuel, rfl⟩ : ∃ less, fuel = less + 1 := ⟨fuel - 1, by omega⟩
  induction n generalizing m addr v c fuel name i with
  | zero =>
    rw [keeps.turns nul (by omega) known, if_pos last]
    refine ⟨_, congrArg some (Prod.ext ?_ rfl)⟩
    funext j
    exact (Memory.splice_outside (by omega)).symm
  | succ n ih =>
    obtain ⟨-, keeps', pages, -⟩ := keeps.reads (by omega) known
    have next : (addr + 1).toNat = addr.toNat + 1 := by
      have := m.space.numPages.isLt
      have fits : m.space.numPages.toNat ≤ 64 := keeps.fits
      bv_omega
    obtain ⟨less, rfl⟩ : ∃ less, fuel = less + 1 := ⟨fuel - 1, by omega⟩
    rw [keeps.turns nul (by omega) known, if_neg (before 0 (by omega))]
    have known : (m.afterRead addr).Resident (addr + 1) ∨
        extended (heard bytes m addr c 0) = extended (heard bytes m addr c 0) := .inr rfl
    obtain ⟨m', copied⟩ := ih keeps' (by rw [next, pages]; omega) known
      (Function.update name i (heard bytes m addr c 0)) (i + 1)
      (fun k bound => before (k + 1) (by omega)) last less (by omega)
    have stored := Memory.splice_succ name (heard bytes m addr c) i n
    have moved : heard bytes (m.afterRead addr) (addr + 1) (heard bytes m addr c 0) =
        fun k => heard bytes m addr c (k + 1) := rfl
    rw [moved, stored] at copied
    exact ⟨m', copied.trans (by rw [show i + 1 + n = i + (n + 1) by omega])⟩

/-- The loop leaves the bytes before its position alone. -/
theorem copyName_frame {stops : BitVec 32 → Bool} {fuel : Nat} {addr v : BitVec 32}
    {name name' : Memory} {i i' : Nat} {m m' : Paged}
    (done : m.copyName stops fuel addr v name i = some (name', i', m')) :
    i ≤ i' ∧ ∀ j, j < i → name' j = name j := by
  induction fuel generalizing m addr v name i with
  | zero => cases done
  | succ fuel ih =>
    rw [Paged.copyName, Option.bind_eq_bind, Option.bind_eq_some_iff] at done
    obtain ⟨⟨w, m₁⟩, -, done⟩ := done
    by_cases test : stops w = true
    · simp only [test, if_true] at done
      cases done
      exact ⟨le_rfl, fun _ _ => rfl⟩
    · simp only [test, Bool.false_eq_true, if_false] at done
      obtain ⟨behind, same⟩ := ih done
      refine ⟨by omega, fun j below => ?_⟩
      rw [same j (by omega), Function.update_of_ne (by omega)]

/-- Bytes that are heard before a `NUL` are in the array when the loop is over. -/
theorem Keeps.copied (keeps : Keeps m bytes) {stops : BitVec 32 → Bool} (nul : StopsAtNul stops)
    {addr v : BitVec 32} {c : UInt8} {n fuel : Nat}
    (inside : addr.toNat + n ≤ m.space.numPages.toNat * 128)
    (known : m.Resident addr ∨ v = extended c) {name name' : Memory} {i i' : Nat} {m' : Paged}
    (before : ∀ k, k < n → heard bytes m addr c k ≠ 0)
    (done : m.copyName stops fuel addr v name i = some (name', i', m')) :
    i + n ≤ i' ∧ ∀ k, k < n → name' (i + k) = heard bytes m addr c k := by
  induction n generalizing m addr v c fuel name i with
  | zero => exact ⟨(copyName_frame done).1, fun k none => absurd none (Nat.not_lt_zero k)⟩
  | succ n ih =>
    obtain ⟨-, keeps', pages, -⟩ := keeps.reads (by omega) known
    have next : (addr + 1).toNat = addr.toNat + 1 := by
      have fits : m.space.numPages.toNat ≤ 64 := keeps.fits
      bv_omega
    cases fuel with
    | zero => cases done
    | succ fuel =>
      rw [keeps.turns nul (by omega) known, if_neg (before 0 (by omega))] at done
      have known : (m.afterRead addr).Resident (addr + 1) ∨
          extended (heard bytes m addr c 0) = extended (heard bytes m addr c 0) := .inr rfl
      obtain ⟨behind, others⟩ := ih keeps' (by rw [next, pages]; omega) known
        (fun k bound => before (k + 1) (by omega)) done
      refine ⟨by omega, fun k bound => ?_⟩
      cases k with
      | zero => rw [Nat.add_zero, (copyName_frame done).2 i (by omega), Function.update_self]
      | succ k =>
        have other := others k (by omega)
        rw [show i + 1 + k = i + (k + 1) by omega] at other
        exact other

theorem Keeps.copyBytes (keeps : Keeps m bytes) {addr v : BitVec 32} {c : UInt8} {n : Nat}
    (inside : addr.toNat + n ≤ m.space.numPages.toNat * 128)
    (known : m.Resident addr ∨ v = extended c) (buffer : Memory) (i : Nat) :
    ∃ m', m.copyBytes n addr v buffer i = some (buffer.splice i n (heard bytes m addr c), m') := by
  induction n generalizing m addr v c buffer i with
  | zero =>
    refine ⟨m, congrArg some (Prod.ext ?_ rfl)⟩
    funext j
    exact (Memory.splice_outside (by omega)).symm
  | succ n ih =>
    obtain ⟨read, keeps', pages, -⟩ := keeps.reads (by omega) known
    have next : (addr + 1).toNat = addr.toNat + 1 := by
      have fits : m.space.numPages.toNat ≤ 64 := keeps.fits
      bv_omega
    have known : (m.afterRead addr).Resident (addr + 1) ∨
        extended (heard bytes m addr c 0) = extended (heard bytes m addr c 0) := .inr rfl
    obtain ⟨m', copied⟩ := ih keeps' (by rw [next, pages]; omega) known
      (Function.update buffer i (heard bytes m addr c 0)) (i + 1)
    have stored := Memory.splice_succ buffer (heard bytes m addr c) i n
    have moved : heard bytes (m.afterRead addr) (addr + 1) (heard bytes m addr c 0) =
        fun k => heard bytes m addr c (k + 1) := rfl
    rw [moved, stored] at copied
    rw [Paged.copyBytes, read]
    simp only [Option.bind_eq_bind, Option.bind_some, lowByte_extended]
    exact ⟨m', copied⟩

/-! ## The system calls -/

/-- Bytes before the `NUL` of a name are heard as bytes that are not `NUL`. -/
theorem heard_ne_zero {addr : BitVec 32} {text : List UInt8} (spells : Spells bytes addr.toNat text)
    (room : addr.toNat + text.length < 2 ^ 32) {c : UInt8} (nonzero : c ≠ 0) {k : Nat}
    (inside : k < text.length) : heard bytes m addr c k ≠ 0 := by
  have letters : ∀ k, k < text.length → bytes (addr.toNat + k) ≠ 0 := by
    intro k inside
    have letter : text.getD k 0 = text[k] := by simp [inside]
    rw [spells.2 k (by omega), letter]
    exact spells.1 _ (List.getElem_mem inside)
  induction k with
  | zero =>
    rw [heard]
    split
    · exact letters 0 inside
    · exact nonzero
  | succ k ih =>
    obtain same | same : heard bytes m addr c (k + 1) = bytes (addr.toNat + (k + 1)) ∨ _ :=
      heard_succ m addr c k (by omega)
    · rw [same]
      exact letters (k + 1) inside
    · rw [same]
      exact ih (by omega)

/-- A name that comes out right was heard right. -/
theorem Keeps.heard_right (keeps : Keeps m bytes) {stops : BitVec 32 → Bool} (nul : StopsAtNul stops)
    {addr : BitVec 32} {c : UInt8} (nonzero : c ≠ 0) {text : List UInt8}
    (spells : Spells bytes addr.toNat text)
    (inside : addr.toNat + text.length < m.space.numPages.toNat * 128) {fuel i : Nat} {m' : Paged}
    {name name' final : Memory}
    (done : m.copyName stops fuel addr (extended c) name 0 = some (name', i, m'))
    (end_ : ∀ k, k < i → final k = name' k) (right : Spells final 0 text) :
    ∀ k, k ≤ text.length → heard bytes m addr c k = bytes (addr.toNat + k) := by
  have room : addr.toNat + text.length < 2 ^ 32 := by
    have fits : m.space.numPages.toNat ≤ 64 := keeps.fits
    omega
  have known : m.Resident addr ∨ extended c = extended c := .inr rfl
  have letters : ∀ k, k < text.length → heard bytes m addr c k ≠ 0 := fun k inside =>
    heard_ne_zero spells room nonzero inside
  -- The first bytes are in the name as far as they were heard as bytes that are not `NUL`.
  have shown : ∀ k, k ≤ text.length → heard bytes m addr c k ≠ 0 →
      heard bytes m addr c k = text.getD k 0 := by
    intro k bound letter
    have before : ∀ j, j < k + 1 → heard bytes m addr c j ≠ 0 := by
      intro j below
      by_cases last : j = k
      · rw [last]
        exact letter
      · exact letters j (by omega)
    obtain ⟨behind, copied⟩ := keeps.copied nul (by omega) known before done
    rw [← copied k (by omega), Nat.zero_add, ← end_ k (by omega), ← right.2 k bound, Nat.zero_add]
  intro k bound
  rw [spells.2 k bound]
  by_cases letter : heard bytes m addr c k = 0
  · have last : k = text.length := by
      by_contra before
      exact letters k (by omega) letter
    rw [letter, last]
    simp
  · exact shown k bound letter

/-- What the uninitialised `v` holds is no matter, so the first byte is fetched. -/
theorem Keeps.undisturbed (keeps : Keeps m bytes) {addr : BitVec 32} {count : Nat}
    (inside : addr.toNat + count < m.space.numPages.toNat * 128)
    (right : ∀ c, c ≠ 0 → ∀ k, k ≤ count → heard bytes m addr c k = bytes (addr.toNat + k)) :
    m.Undisturbed bytes addr (count + 1) := by
  have room : addr.toNat + count < 2 ^ 32 := by
    have fits : m.space.numPages.toNat ≤ 64 := keeps.fits
    omega
  have one := (heard_iff m addr 1 count room).mp (right 1 (by decide))
  have two := (heard_iff m addr 2 count room).mp (right 2 (by decide))
  refine ⟨?_, one.2⟩
  by_contra absent
  have same : (1 : UInt8) = 2 := (one.1.resolve_left absent).trans (two.1.resolve_left absent).symm
  exact absurd same (by decide)

theorem Keeps.right_of_undisturbed (keeps : Keeps m bytes) {addr : BitVec 32} {count : Nat}
    (inside : addr.toNat + count < m.space.numPages.toNat * 128)
    (undisturbed : m.Undisturbed bytes addr (count + 1)) (c : UInt8) :
    ∀ k, k ≤ count → heard bytes m addr c k = bytes (addr.toNat + k) := by
  have room : addr.toNat + count < 2 ^ 32 := by
    have fits : m.space.numPages.toNat ≤ 64 := keeps.fits
    omega
  exact (heard_iff m addr c count room).mpr ⟨.inl undisturbed.1, undisturbed.2⟩

/-- The loop over a name that nothing disturbs. -/
theorem Keeps.copies_text (keeps : Keeps m bytes) {stops : BitVec 32 → Bool} (nul : StopsAtNul stops)
    {addr : BitVec 32} {text : List UInt8} (spells : Spells bytes addr.toNat text)
    (inside : addr.toNat + text.length < m.space.numPages.toNat * 128)
    (undisturbed : m.Undisturbed bytes addr (text.length + 1)) (v : BitVec 32) (name : Memory) :
    ∃ name' m', m.copyName stops m.addresses addr v name 0 = some (name', text.length, m') ∧
      (∀ k, k < text.length → name' k = text.getD k 0) ∧ name' text.length = name text.length := by
  have right := keeps.right_of_undisturbed inside undisturbed 1
  have last : heard bytes m addr 1 text.length = 0 := by
    rw [right _ le_rfl, spells.2 _ le_rfl]
    simp
  have before : ∀ k, k < text.length → heard bytes m addr 1 k ≠ 0 := by
    have fits : m.space.numPages.toNat ≤ 64 := keeps.fits
    exact fun k below => heard_ne_zero spells (by omega) (by decide) below
  have enough : text.length < m.addresses := by
    show text.length < m.space.numPages.toNat * 128 + 1
    omega
  obtain ⟨m', copied⟩ := keeps.copies nul enough inside (.inl undisturbed.1) name 0 before last
  rw [Nat.zero_add] at copied
  refine ⟨_, m', copied, fun k below => ?_, Memory.splice_outside (by omega)⟩
  rw [Memory.splice_inside (Nat.zero_le k) (by omega), Nat.sub_zero, right k (by omega),
    spells.2 k (by omega)]

theorem spells_of {name : Memory} {text : List UInt8} {start : Nat} (spells : Spells bytes start text)
    (letters : ∀ k, k < text.length → name k = text.getD k 0) (nul : name text.length = 0) :
    Spells name 0 text := by
  refine ⟨spells.1, fun k bound => ?_⟩
  rw [Nat.zero_add]
  by_cases last : k = text.length
  · rw [last, nul]
    simp
  · exact letters k (by omega)

theorem Keeps.createName_iff (keeps : Keeps m bytes) {r4 : BitVec 32} {text : List UInt8}
    (spells : Spells bytes r4.toNat text)
    (inside : r4.toNat + text.length < m.space.numPages.toNat * 128) (name : Memory) :
    (∀ v, ∃ handed, m.createName r4 v name = some handed ∧ Spells handed 0 text) ↔
      m.Undisturbed bytes r4 (text.length + 1) ∧ name text.length = 0 := by
  have handed_iff : ∀ {v : BitVec 32} {handed : Memory}, m.createName r4 v name = some handed ↔
      ∃ name' i m', m.copyName (fun v => v == 0) m.addresses r4 v name 0 = some (name', i, m') ∧
        Function.update name' (i + 1) 0 = handed := by
    intro v handed
    simp [Paged.createName, Option.bind_eq_some_iff]
  constructor
  · intro right
    have undisturbed : m.Undisturbed bytes r4 (text.length + 1) := by
      refine keeps.undisturbed inside fun c nonzero => ?_
      obtain ⟨handed, called, spelled⟩ := right (extended c)
      obtain ⟨name', i, m', done, rfl⟩ := handed_iff.mp called
      refine keeps.heard_right create_stops nonzero spells inside done (fun k below => ?_) spelled
      exact Function.update_of_ne (by omega) _ _
    obtain ⟨name', m', done, -, behind⟩ :=
      keeps.copies_text create_stops spells inside undisturbed 0 name
    obtain ⟨handed, called, spelled⟩ := right 0
    obtain ⟨name'', i, m'', again, rfl⟩ := handed_iff.mp called
    rw [done] at again
    cases again
    have nul := spelled.2 text.length le_rfl
    rw [Nat.zero_add, Function.update_of_ne (by omega), behind] at nul
    exact ⟨undisturbed, nul.trans (by simp)⟩
  · rintro ⟨undisturbed, zero⟩ v
    obtain ⟨name', m', done, letters, behind⟩ :=
      keeps.copies_text create_stops spells inside undisturbed v name
    refine ⟨_, handed_iff.mpr ⟨name', _, m', done, rfl⟩, spells_of spells (fun k below => ?_) ?_⟩
    · rw [Function.update_of_ne (by omega)]
      exact letters k below
    · rw [Function.update_of_ne (by omega), behind, zero]

theorem Keeps.execName_iff (keeps : Keeps m bytes) {r4 : BitVec 32} {text : List UInt8}
    (spells : Spells bytes r4.toNat text)
    (inside : r4.toNat + text.length < m.space.numPages.toNat * 128) (name : Memory) :
    (∀ v, ∃ handed, m.execName r4 v name = some handed ∧ Spells handed 0 text) ↔
      m.Undisturbed bytes r4 (text.length + 1) := by
  have handed_iff : ∀ {v : BitVec 32} {handed : Memory}, m.execName r4 v name = some handed ↔
      ∃ name' i m', m.copyName (fun v => lowByte v == 0) m.addresses r4 v name 0 = some (name', i, m') ∧
        Function.update name' i 0 = handed := by
    intro v handed
    simp [Paged.execName, Option.bind_eq_some_iff]
  constructor
  · intro right
    refine keeps.undisturbed inside fun c nonzero => ?_
    obtain ⟨handed, called, spelled⟩ := right (extended c)
    obtain ⟨name', i, m', done, rfl⟩ := handed_iff.mp called
    refine keeps.heard_right exec_stops nonzero spells inside done (fun k below => ?_) spelled
    exact Function.update_of_ne (by omega) _ _
  · intro undisturbed v
    obtain ⟨name', m', done, letters, -⟩ :=
      keeps.copies_text exec_stops spells inside undisturbed v name
    refine ⟨_, handed_iff.mpr ⟨name', _, m', done, rfl⟩, spells_of spells (fun k below => ?_) ?_⟩
    · rw [Function.update_of_ne (by omega)]
      exact letters k below
    · rw [Function.update_self]

theorem Keeps.writeBytes_iff (keeps : Keeps m bytes) {r4 : BitVec 32} {size : Nat}
    (inside : r4.toNat + size ≤ m.space.numPages.toNat * 128) (tmp_buffer : Memory) :
    (∀ tmp, ∃ handed, m.writeBytes r4 tmp size tmp_buffer = some handed ∧
      ∀ k, k < size → handed k = bytes (r4.toNat + k)) ↔ m.Undisturbed bytes r4 size := by
  cases size with
  | zero =>
    refine iff_of_true (fun tmp => ⟨tmp_buffer, rfl, fun k none => ?_⟩) trivial
    exact absurd none (Nat.not_lt_zero k)
  | succ size =>
    have handed_eq : ∀ {tmp : BitVec 32} {c : UInt8}, m.Resident r4 ∨ tmp = extended c →
        m.writeBytes r4 tmp (size + 1) tmp_buffer =
          some (tmp_buffer.splice 0 (size + 1) (heard bytes m r4 c)) := by
      intro tmp c known
      obtain ⟨m', copied⟩ := keeps.copyBytes inside known tmp_buffer 0
      unfold Paged.writeBytes
      rw [copied]
      rfl
    have byte : ∀ {c : UInt8} {k : Nat}, k ≤ size →
        tmp_buffer.splice 0 (size + 1) (heard bytes m r4 c) k = heard bytes m r4 c k := by
      intro c k bound
      rw [Memory.splice_inside (Nat.zero_le k) (by omega), Nat.sub_zero]
    constructor
    · intro right
      refine keeps.undisturbed (by omega) fun c _ k bound => ?_
      obtain ⟨handed, called, bytes_right⟩ := right (extended c)
      rw [handed_eq (.inr rfl)] at called
      cases called
      rw [← byte bound]
      exact bytes_right k (by omega)
    · intro undisturbed tmp
      refine ⟨_, handed_eq (c := 0) (.inl undisturbed.1), fun k bound => ?_⟩
      rw [byte (by omega)]
      exact keeps.right_of_undisturbed (by omega) undisturbed 0 k (by omega)

/-- The names and bytes that the system calls hand over are those in user memory exactly
when no page fault disturbs the copy; the name of a file must besides find a 0 behind it. -/
theorem user_copies_are_exact (keeps : Keeps m bytes) (r4 : BitVec 32) :
    (∀ text, Spells bytes r4.toNat text →
      r4.toNat + text.length < m.space.numPages.toNat * PageSize → ∀ name,
      ((∀ v, ∃ handed, m.createName r4 v name = some handed ∧ Spells handed 0 text) ↔
        m.Undisturbed bytes r4 (text.length + 1) ∧ name text.length = 0) ∧
      ((∀ v, ∃ handed, m.openName r4 v name = some handed ∧ Spells handed 0 text) ↔
        m.Undisturbed bytes r4 (text.length + 1) ∧ name text.length = 0) ∧
      ((∀ v, ∃ handed, m.execName r4 v name = some handed ∧ Spells handed 0 text) ↔
        m.Undisturbed bytes r4 (text.length + 1))) ∧
    ∀ size, r4.toNat + size ≤ m.space.numPages.toNat * PageSize → ∀ tmp_buffer,
      ((∀ tmp, ∃ handed, m.writeBytes r4 tmp size tmp_buffer = some handed ∧
        ∀ k, k < size → handed k = bytes (r4.toNat + k)) ↔ m.Undisturbed bytes r4 size) := by
  refine ⟨fun text spells inside name => ?_, fun size inside => keeps.writeBytes_iff inside⟩
  exact ⟨keeps.createName_iff spells inside name, keeps.createName_iff spells inside name,
    keeps.execName_iff spells inside name⟩

end

/-! ## A name across two pages -/

/-- A program of two pages with `hi` on the first one, and `ab` across the boundary. -/
def twoPages : Paged where
  mainMemory := fun _ => 0
  bitmap := fun _ => false
  space := { pageTable := blankTable, numPages := 2 }
  file :=
    { length := 256
      bytes := fun i => if i = 100 then 104 else if i = 101 then 105 else if i = 127 then 97 else
        if i = 128 then 98 else 0 }

theorem twoPages_fresh : twoPages.Fresh := ⟨fun _ => rfl, rfl, by decide, rfl⟩

theorem user_copies_are_exact_first_page : Keeps (twoPages.afterRead 0) twoPages.file.bytes ∧
    ∀ v name, ∃ handed,
      (twoPages.afterRead 0).execName 100 v name = some handed ∧ Spells handed 0 [104, 105] := by
  have keeps : Keeps (twoPages.afterRead 0) twoPages.file.bytes :=
    (twoPages_fresh.keeps.reads (v := extended 0) (c := 0) (by decide) (.inr rfl)).2.1
  have spells : Spells twoPages.file.bytes (100 : BitVec 32).toNat [104, 105] := by
    refine ⟨by simp, fun k bound => ?_⟩
    have few : k = 0 ∨ k = 1 ∨ k = 2 := by simp at bound; omega
    obtain rfl | rfl | rfl := few <;> rfl
  have undisturbed : (twoPages.afterRead 0).Undisturbed twoPages.file.bytes 100 3 := by
    refine ⟨?_, .inl ?_, .inl ?_, trivial⟩ <;> decide +kernel
  refine ⟨keeps, fun v name => ?_⟩
  have exact := (user_copies_are_exact keeps 100).1 [104, 105] spells (by decide +kernel) name
  exact exact.2.2.mpr undisturbed v

/-- The fault on the second page leaves the last byte of the first one in `v`. -/
theorem name_depends_on_residency :
    Spells twoPages.file.bytes 127 [97, 98] ∧ Keeps (twoPages.afterRead 127) twoPages.file.bytes ∧
    ∀ v name, ∃ handed, (twoPages.afterRead 127).execName 127 v name = some handed ∧
      Spells handed 0 [97, 97] ∧ ¬ Spells handed 0 [97, 98] := by
  have keeps : Keeps (twoPages.afterRead 127) twoPages.file.bytes :=
    (twoPages_fresh.keeps.reads (v := extended 0) (c := 0) (by decide) (.inr rfl)).2.1
  have spells : Spells twoPages.file.bytes 127 [97, 98] := by
    refine ⟨by simp, fun k bound => ?_⟩
    have few : k = 0 ∨ k = 1 ∨ k = 2 := by simp at bound; omega
    obtain rfl | rfl | rfl := few <;> rfl
  refine ⟨spells, keeps, fun v name => ?_⟩
  have heard₀ : heard twoPages.file.bytes (twoPages.afterRead 127) 127 0 0 = 97 := by decide +kernel
  have heard₁ : heard twoPages.file.bytes (twoPages.afterRead 127) 127 0 1 = 97 := by decide +kernel
  have heard₂ : heard twoPages.file.bytes (twoPages.afterRead 127) 127 0 2 = 0 := by decide +kernel
  have letters : ∀ k, k < 2 → heard twoPages.file.bytes (twoPages.afterRead 127) 127 0 k = 97 := by
    intro k bound
    obtain rfl | rfl : k = 0 ∨ k = 1 := by omega
    · exact heard₀
    · exact heard₁
  have enough : 2 < (twoPages.afterRead 127).addresses := by decide +kernel
  obtain ⟨m', copied⟩ := keeps.copies exec_stops (v := v) enough (by decide +kernel)
    (.inl (by decide +kernel)) name 0 (fun k bound => by rw [letters k bound]; decide) heard₂
  have letter : ∀ k, k < 2 → Function.update (name.splice 0 2
      (heard twoPages.file.bytes (twoPages.afterRead 127) 127 0)) (0 + 2) 0 k = 97 := by
    intro k bound
    rw [Function.update_of_ne (by omega), Memory.splice_inside (Nat.zero_le k) (by omega), Nat.sub_zero,
      letters k bound]
  refine ⟨_, by rw [Paged.execName, copied]; rfl, ⟨by simp, fun k bound => ?_⟩, fun right => ?_⟩
  · rw [Nat.zero_add]
    obtain rfl | rfl | rfl : k = 0 ∨ k = 1 ∨ k = 2 := by simp at bound; omega
    · exact letter 0 (by decide)
    · exact letter 1 (by decide)
    · exact Function.update_self _ _ _
  · have second := right.2 1 (by decide)
    rw [Nat.zero_add, letter 1 (by decide)] at second
    exact absurd second (by decide)

end Nachos.Paging
