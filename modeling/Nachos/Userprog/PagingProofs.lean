import Mathlib.Data.Fintype.Card
import Mathlib.Data.Fintype.EquivFin
import Nachos.Userprog.Paging

/-! Demand paging is transparent to one program: frames are handed out one after
the other, there are enough of them for all its pages, and so no page is ever
evicted. -/
namespace Nachos.Machine
open Effects

/-! ## The memory of the machine -/

/-- The sizes `ReadMem` and `WriteMem` know. -/
def Sized (size : Nat) : Prop := size = 1 ∨ size = 2 ∨ size = 4

theorem fetch_congr {memory memory' : Memory} {i j size : Nat}
    (same : ∀ k, k < size → memory (i + k) = memory' (j + k)) :
    fetch memory i size = fetch memory' j size := by
  unfold fetch
  split
  · have zeroth := same 0 (by omega)
    rw [Nat.add_zero, Nat.add_zero] at zeroth
    rw [zeroth]
  · have zeroth := same 0 (by omega)
    rw [Nat.add_zero, Nat.add_zero] at zeroth
    rw [zeroth, same 1 (by omega)]
  · rw [Memory.word_congr same]
  · rfl

theorem exists_fetch {size : Nat} (sized : Sized size) (memory : Memory) (i : Nat) :
    ∃ value, fetch memory i size = some value := by
  obtain rfl | rfl | rfl := sized <;> exact ⟨_, rfl⟩

theorem store_eq {size : Nat} (sized : Sized size) (memory : Memory) (i : Nat) (value : BitVec 32) :
    store memory i value size = some (memory.splice i size (Memory.wordByte value)) := by
  obtain rfl | rfl | rfl := sized <;> rfl

private theorem search_fold (table : PageTable) (vpn : Nat) (frames : List (Fin NumPhysPages))
    (start : Option (Fin NumPhysPages)) :
    let found := frames.foldl
      (fun pos i => if (table i).virtualPage.toNat = vpn then some i else pos) start
    (∀ i, found = some i → start = some i ∨ (table i).virtualPage.toNat = vpn) ∧
      (found = none ↔ start = none ∧ ∀ i ∈ frames, (table i).virtualPage.toNat ≠ vpn) := by
  induction frames generalizing start with
  | nil => exact ⟨fun _ => .inl, by simp⟩
  | cons first rest ih =>
    obtain ⟨some, none⟩ := ih (if (table first).virtualPage.toNat = vpn then some first else start)
    simp only [List.foldl_cons]
    refine ⟨fun i found => ?_, none.trans ?_⟩
    · obtain earlier | here := some i found
      · split at earlier
        · rename_i matched
          cases earlier
          exact .inr matched
        · exact .inl earlier
      · exact .inr here
    · by_cases matched : (table first).virtualPage.toNat = vpn
      · simp [matched]
      · simp [matched]

theorem search_some {table : PageTable} {vpn : Nat} {i : Fin NumPhysPages}
    (found : table.search vpn = some i) : (table i).virtualPage.toNat = vpn := by
  obtain impossible | here := (search_fold table vpn _ none).1 i found
  · cases impossible
  · exact here

theorem search_none {table : PageTable} {vpn : Nat} :
    table.search vpn = none ↔ ∀ i, (table i).virtualPage.toNat ≠ vpn := by
  refine (search_fold table vpn _ none).2.trans ⟨fun both i => both.2 i (List.mem_finRange i), ?_⟩
  exact fun absent => ⟨rfl, fun i _ => absent i⟩

/-- `find` takes a frame that is free, if there is one. -/
theorem find_some {map : Bitmap} {i : Fin NumPhysPages} (free : map i = false) :
    ∃ out, map out = false ∧ map.find = (some out, Function.update map out true) := by
  unfold Bitmap.find
  cases found : (List.finRange NumPhysPages).find? fun i => !map i with
  | none =>
    have taken := List.find?_eq_none.mp found i (List.mem_finRange i)
    simp [free] at taken
  | some out =>
    have out_free := List.find?_some found
    exact ⟨out, by simpa using out_free, rfl⟩

/-- The alignment test of `Translate`. -/
theorem misaligned_iff {size : Nat} (sized : Sized size) (addr : BitVec 32) :
    ((size = 4 ∧ addr &&& 3 ≠ 0) ∨ (size = 2 ∧ addr &&& 1 ≠ 0)) ↔ addr.toNat % size ≠ 0 := by
  have low : addr.toNat &&& (2 ^ 2 - 1) = addr.toNat % 2 ^ 2 := Nat.and_two_pow_sub_one_eq_mod _ 2
  have zero : ∀ x : BitVec 32, x ≠ 0 ↔ x.toNat ≠ 0 := fun x => by
    rw [Ne, Ne, BitVec.toNat_eq]
    rfl
  rw [zero, zero, BitVec.toNat_and, BitVec.toNat_and]
  obtain rfl | rfl | rfl := sized
  · simp [Nat.mod_one]
  · simp
  · simpa using congrArg (· ≠ 0) low

end Nachos.Machine

namespace Nachos.Paging
open Effects Machine

/-! ## A machine that stands for a flat memory -/

/-- The entry stands for a page. -/
def AddrSpace.Holds (space : AddrSpace) (i : Fin NumPhysPages) : Prop :=
  (space.pageTable i).virtualPage ≠ -1

/-- A page that is in memory is read from its frame, any other one from the file. -/
structure Backs (m : Paged) (bytes : Memory) : Prop where
  taken (i : Fin NumPhysPages) : m.bitmap i = true ↔ m.space.Holds i
  pages (i : Fin NumPhysPages) : m.space.Holds i →
    (m.space.pageTable i).virtualPage.toNat < m.space.numPages.toNat
  unique (i j : Fin NumPhysPages) : m.space.Holds i →
    (m.space.pageTable i).virtualPage = (m.space.pageTable j).virtualPage → i = j
  frame (i : Fin NumPhysPages) : (m.space.pageTable i).physicalPage.toNat = i
  writable (i : Fin NumPhysPages) : (m.space.pageTable i).readOnly = false
  fits : m.space.numPages.toNat ≤ NumPhysPages
  file : m.file.length = m.space.numPages.toNat * 128
  present (i : Fin NumPhysPages) : m.space.Holds i → ∀ o, o < 128 →
    m.mainMemory (i * 128 + o) =
      bytes ((m.space.pageTable i).virtualPage.toNat * 128 + o)
  absent (v : Nat) : v < m.space.numPages.toNat →
    (∀ i, (m.space.pageTable i).virtualPage.toNat ≠ v) → ∀ o, o < 128 →
    m.file.bytes (v * 128 + o) = bytes (v * 128 + o)

theorem blank_frame (j : Fin NumPhysPages) : (blankTable j).physicalPage.toNat = j := by
  show (BitVec.ofNat 32 j).toNat = j
  rw [BitVec.toNat_ofNat]
  have bound : (j : Nat) < 64 := j.isLt
  exact Nat.mod_eq_of_lt (by omega)

theorem Paged.Fresh.backs {m : Paged} (fresh : m.Fresh) : Backs m m.file.bytes := by
  have none : ∀ i, ¬ m.space.Holds i := by
    intro i holds
    rw [AddrSpace.Holds, fresh.table] at holds
    exact holds rfl
  refine ⟨fun i => ?_, fun i holds => ?_, fun i _ holds => ?_, fun i => ?_, fun i => ?_, fresh.fits,
    fresh.file, fun i holds => ?_, fun _ _ _ _ _ => rfl⟩
  · rw [fresh.bitmap i]
    exact iff_of_false (by decide) (none i)
  · exact absurd holds (none i)
  · exact absurd holds (none i)
  · rw [fresh.table]
    exact blank_frame i
  · rw [fresh.table]
    rfl
  · exact absurd holds (none i)

variable {m : Paged} {bytes : Memory}

/-- The number of an entry that stands for a page that exists. -/
theorem Backs.holds (backs : Backs m bytes) {i : Fin NumPhysPages}
    (inside : (m.space.pageTable i).virtualPage.toNat < m.space.numPages.toNat) : m.space.Holds i := by
  intro none
  rw [none] at inside
  have fits : m.space.numPages.toNat ≤ 64 := backs.fits
  have top : (-1 : BitVec 32).toNat = 4294967295 := by decide
  omega

/-- An access that is legal stays inside its page. -/
theorem legal_offset {size addr : Nat} (sized : Sized size) (aligned : addr % size = 0) :
    addr % 128 + size ≤ 128 := by
  obtain rfl | rfl | rfl := sized <;> omega

variable {addr : BitVec 32} {size : Nat}

theorem translate_illegal {table : PageTable} {numPages : BitVec 32} {writing : Bool}
    (sized : Sized size)
    (illegal : addr.toNat % size ≠ 0 ∨ numPages.toNat * 128 ≤ addr.toNat) :
    Translate table numPages addr size writing = .raises .AddressErrorException := by
  unfold Translate
  by_cases misaligned : addr.toNat % size ≠ 0
  · rw [if_pos ((misaligned_iff sized addr).mpr misaligned)]
  · rw [if_neg (mt (misaligned_iff sized addr).mp misaligned)]
    have outside := illegal.resolve_left misaligned
    exact if_pos ((Nat.le_div_iff_mul_le (by decide)).mpr outside)

theorem translate_absent {table : PageTable} {numPages : BitVec 32} {writing : Bool}
    (sized : Sized size) (aligned : addr.toNat % size = 0)
    (inside : addr.toNat < numPages.toNat * 128)
    (absent : ∀ i, (table i).virtualPage.toNat ≠ addr.toNat / 128) :
    Translate table numPages addr size writing = .raises .PageFaultException := by
  have vpn : addr.toNat / 128 < numPages.toNat := by omega
  unfold Translate
  rw [if_neg (mt (misaligned_iff sized addr).mp (by omega))]
  simp only [if_neg (Nat.not_le.mpr vpn), search_none.mpr absent]

/-- The table with the bits of one entry set. -/
def touched (table : PageTable) (i : Fin NumPhysPages) (dirty : Bool) : PageTable :=
  Function.update table i { table i with use := true, dirty := dirty }

theorem touched_entry (table : PageTable) (i : Fin NumPhysPages) (dirty : Bool) (j : Fin NumPhysPages) :
    (touched table i dirty j).virtualPage = (table j).virtualPage ∧
      (touched table i dirty j).physicalPage = (table j).physicalPage ∧
      (touched table i dirty j).readOnly = (table j).readOnly ∧
      (dirty = (table i).dirty → (touched table i dirty j).dirty = (table j).dirty) := by
  unfold touched
  by_cases here : j = i
  · rw [here, Function.update_self]
    exact ⟨rfl, rfl, rfl, fun same => same⟩
  · rw [Function.update_of_ne here]
    exact ⟨rfl, rfl, rfl, fun _ => rfl⟩

/-- The translation of a page that is in memory. -/
theorem translate_present {table : PageTable} {numPages : BitVec 32} {writing : Bool}
    (sized : Sized size) (aligned : addr.toNat % size = 0)
    (inside : addr.toNat < numPages.toNat * 128) {i : Fin NumPhysPages}
    (found : table.search (addr.toNat / 128) = some i) (frame : (table i).physicalPage.toNat = i)
    (allowed : ((table i).readOnly && writing) = false) :
    Translate table numPages addr size writing =
      .done (i * 128 + addr.toNat % 128, touched table i ((table i).dirty || writing)) := by
  have vpn : addr.toNat / 128 < numPages.toNat := by omega
  have offset := legal_offset sized aligned
  have bound : (i : Nat) < 64 := i.isLt
  unfold Translate
  rw [if_neg (mt (misaligned_iff sized addr).mp (by omega))]
  simp only [if_neg (Nat.not_le.mpr vpn), found, frame, allowed, Bool.false_eq_true, if_false]
  have fits : (i : Nat) * 128 + addr.toNat % 128 + size ≤ 64 * 128 := by omega
  rw [if_neg (Nat.not_le.mpr bound), if_pos fits]
  rfl

theorem Backs.translate (backs : Backs m bytes) (writing : Bool) (sized : Sized size)
    (aligned : addr.toNat % size = 0)
    (inside : addr.toNat < m.space.numPages.toNat * 128) {i : Fin NumPhysPages}
    (found : m.space.pageTable.search (addr.toNat / 128) = some i) :
    Translate m.space.pageTable m.space.numPages addr size writing =
      .done (i * 128 + addr.toNat % 128,
        touched m.space.pageTable i ((m.space.pageTable i).dirty || writing)) := by
  have allowed : ((m.space.pageTable i).readOnly && writing) = false := by
    rw [backs.writable i, Bool.false_and]
  exact translate_present sized aligned inside found (backs.frame i) allowed

/-! ## Accesses to pages in memory -/

/-- The bits of an entry change, and its page with them. -/
theorem Backs.touches (backs : Backs m bytes) {i : Fin NumPhysPages} {dirty : Bool}
    {mainMemory : Memory} {bytes' : Memory}
    (present : ∀ j, m.space.Holds j → ∀ o, o < 128 → mainMemory (j * 128 + o) =
      bytes' ((m.space.pageTable j).virtualPage.toNat * 128 + o))
    (absent : ∀ v, v < m.space.numPages.toNat →
      (∀ j, (m.space.pageTable j).virtualPage.toNat ≠ v) → ∀ o, o < 128 →
      bytes' (v * 128 + o) = bytes (v * 128 + o)) :
    Backs { m with
      mainMemory := mainMemory
      space := { m.space with pageTable := touched m.space.pageTable i dirty } } bytes' := by
  have entry := touched_entry m.space.pageTable i dirty
  refine ⟨fun j => ?_, fun j => ?_, fun j k => ?_, fun j => ?_, fun j => ?_, backs.fits, backs.file,
    fun j => ?_, fun v inside missing o bound => ?_⟩
  · rw [AddrSpace.Holds, (entry j).1]
    exact backs.taken j
  · rw [AddrSpace.Holds, (entry j).1]
    exact backs.pages j
  · rw [AddrSpace.Holds, (entry j).1, (entry k).1]
    exact backs.unique j k
  · rw [(entry j).2.1]
    exact backs.frame j
  · rw [(entry j).2.2.1]
    exact backs.writable j
  · rw [AddrSpace.Holds, (entry j).1]
    exact present j
  · have missing' : ∀ j, (m.space.pageTable j).virtualPage.toNat ≠ v := by
      intro j
      rw [← (entry j).1]
      exact missing j
    rw [absent v inside missing' o bound]
    exact backs.absent v inside missing' o bound

/-- The bytes of an access are those of its page. -/
theorem Backs.here (backs : Backs m bytes) (sized : Sized size) (aligned : addr.toNat % size = 0)
    (inside : addr.toNat < m.space.numPages.toNat * 128) {i : Fin NumPhysPages}
    (page : (m.space.pageTable i).virtualPage.toNat = addr.toNat / 128) {k : Nat} (bound : k < size) :
    m.mainMemory (i * 128 + addr.toNat % 128 + k) = bytes (addr.toNat + k) := by
  have offset := legal_offset sized aligned
  have holds : m.space.Holds i := backs.holds (by omega)
  have same := backs.present i holds (addr.toNat % 128 + k) (by omega)
  rw [page] at same
  have position : addr.toNat / 128 * 128 + (addr.toNat % 128 + k) = addr.toNat + k := by omega
  rw [Nat.add_assoc, same, position]

/-- Storing in the frame is storing in the memory it stands for. -/
theorem Backs.stores (backs : Backs m bytes) (sized : Sized size) (aligned : addr.toNat % size = 0)
    (inside : addr.toNat < m.space.numPages.toNat * 128) {i : Fin NumPhysPages}
    (page : (m.space.pageTable i).virtualPage.toNat = addr.toNat / 128) (source : Memory)
    {dirty : Bool} :
    Backs { m with
      mainMemory := m.mainMemory.splice (i * 128 + addr.toNat % 128) size source
      space := { m.space with pageTable := touched m.space.pageTable i dirty } }
      (bytes.splice addr.toNat size source) := by
  have offset := legal_offset sized aligned
  have here : m.space.Holds i := backs.holds (by omega)
  refine backs.touches (fun j holds o bound => ?_) fun v _ missing o bound => ?_
  · by_cases self : j = i
    · subst self
      rw [page]
      unfold Memory.splice
      by_cases stored : addr.toNat % 128 ≤ o ∧ o < addr.toNat % 128 + size
      · rw [if_pos (by omega), if_pos (by omega)]
        congr 1
        omega
      · rw [if_neg (by omega), if_neg (by omega), backs.present j holds o bound, page]
    · have apart : (j : Nat) ≠ i := fun same => self (Fin.ext same)
      have pages : (m.space.pageTable j).virtualPage.toNat ≠ addr.toNat / 128 := by
        intro same
        exact self (backs.unique j i holds (BitVec.eq_of_toNat_eq (same.trans page.symm)))
      rw [Memory.splice_outside (by omega), Memory.splice_outside (by omega)]
      exact backs.present j holds o bound
  · have other := missing i
    rw [page] at other
    exact Memory.splice_outside (by omega)

/-! ## Page faults -/

/-- While some page is missing, some frame is free: as many pages as there are frames
would be all of them. -/
theorem Backs.exists_free (backs : Backs m bytes) {v : Nat} (inside : v < m.space.numPages.toNat)
    (missing : ∀ i, (m.space.pageTable i).virtualPage.toNat ≠ v) : ∃ i, m.bitmap i = false := by
  by_contra full
  have holds : ∀ i, m.space.Holds i := by
    intro i
    refine (backs.taken i).mp ?_
    cases taken : m.bitmap i with
    | true => rfl
    | false => exact absurd ⟨i, taken⟩ full
  have fits : m.space.numPages.toNat ≤ 64 := backs.fits
  have bound : ∀ i, (m.space.pageTable i).virtualPage.toNat < 64 := fun i =>
    (backs.pages i (holds i)).trans_le fits
  have injective : Function.Injective fun i : Fin 64 =>
      (⟨(m.space.pageTable i).virtualPage.toNat, bound i⟩ : Fin 64) := by
    intro i j same
    exact backs.unique i j (holds i) (BitVec.eq_of_toNat_eq (Fin.mk.inj same))
  obtain ⟨i, page⟩ := Finite.injective_iff_surjective.mp injective ⟨v, inside.trans_le fits⟩
  exact missing i (Fin.mk.inj page)

/-- The state behind a page fault that found a free frame. -/
theorem PageFault_eq {out : Fin NumPhysPages} {bitmap : Bitmap}
    (found : m.bitmap.find = (some out, bitmap)) : m.PageFault addr =
      { m with
        mainMemory := fill m.mainMemory m.file (addr.toNat / 128) out
        bitmap := bitmap
        space := m.space.mapPage (addr.toNat / 128) out } := by
  unfold Paged.PageFault
  rw [found]

/-- A page that the file has is read whole. -/
theorem Backs.fill (backs : Backs m bytes) {v : Nat} (inside : v < m.space.numPages.toNat)
    (pos : Fin NumPhysPages) : fill m.mainMemory m.file v pos =
      m.mainMemory.splice (pos * 128) 128 fun k => m.file.bytes (v * 128 + k) := by
  have length : m.file.length = m.space.numPages.toNat * 128 := backs.file
  have whole : min 128 (m.file.length - v * 128) = 128 := by omega
  show (if m.file.length < v * 128 then m.mainMemory else m.mainMemory.splice (pos * 128)
    (min 128 (m.file.length - v * 128)) fun k => m.file.bytes (v * 128 + k)) = _
  rw [if_neg (by omega), whole]

theorem Backs.maps (backs : Backs m bytes) {v : Nat} (inside : v < m.space.numPages.toNat)
    (missing : ∀ i, (m.space.pageTable i).virtualPage.toNat ≠ v) {out : Fin NumPhysPages}
    (free : m.bitmap out = false) :
    Backs { m with
      mainMemory := Paging.fill m.mainMemory m.file v out
      bitmap := Function.update m.bitmap out true
      space := m.space.mapPage v out } bytes := by
  have fits : m.space.numPages.toNat ≤ 64 := backs.fits
  have number : (BitVec.ofNat 32 v).toNat = v := by
    rw [BitVec.toNat_ofNat]
    exact Nat.mod_eq_of_lt (by omega)
  have top : (-1 : BitVec 32).toNat = 4294967295 := by decide
  have real : BitVec.ofNat 32 v ≠ -1 := by
    intro none
    rw [none, top] at number
    omega
  have table : ∀ j, j = out ∧ ((m.space.mapPage v out).pageTable j).virtualPage = BitVec.ofNat 32 v ∧
      ((m.space.mapPage v out).pageTable j).physicalPage = (m.space.pageTable j).physicalPage ∧
      ((m.space.mapPage v out).pageTable j).readOnly = false ∨
      j ≠ out ∧ (m.space.mapPage v out).pageTable j = m.space.pageTable j := by
    intro j
    unfold AddrSpace.mapPage
    by_cases here : j = out
    · subst here
      refine .inl ⟨rfl, ?_⟩
      simp only [Function.update_self, and_self]
    · exact .inr ⟨here, Function.update_of_ne here _ _⟩
  have unheld : ¬ m.space.Holds out := by
    rw [← backs.taken, free]
    decide
  refine ⟨fun j => ?_, fun j holds => ?_, fun j k holds same => ?_, fun j => ?_, fun j => ?_, fits,
    backs.file, fun j holds o bound => ?_, fun w small absent o bound => ?_⟩
  · obtain ⟨rfl, page, -⟩ | ⟨other, same⟩ := table j
    · rw [AddrSpace.Holds, page]
      exact iff_of_true (Function.update_self _ _ _) real
    · rw [AddrSpace.Holds, same]
      show Function.update m.bitmap out true j = true ↔ _
      rw [Function.update_of_ne other]
      exact backs.taken j
  · obtain ⟨-, page, -⟩ | ⟨-, same⟩ := table j
    · rw [page, number]
      exact inside
    · rw [AddrSpace.Holds, same] at holds
      rw [same]
      exact backs.pages j holds
  · obtain ⟨rfl, page, -⟩ | ⟨other, entry⟩ := table j <;>
      obtain ⟨rfl, page', -⟩ | ⟨other', entry'⟩ := table k
    · rfl
    · rw [page, entry'] at same
      exact absurd (same ▸ number) (missing k)
    · rw [page', entry] at same
      exact absurd (same ▸ number) (missing j)
    · rw [AddrSpace.Holds, entry] at holds
      rw [entry, entry'] at same
      exact backs.unique j k holds same
  · obtain ⟨-, -, frame, -⟩ | ⟨-, entry⟩ := table j
    · rw [frame]
      exact backs.frame j
    · rw [entry]
      exact backs.frame j
  · obtain ⟨-, -, -, writable⟩ | ⟨-, entry⟩ := table j
    · exact writable
    · rw [entry]
      exact backs.writable j
  · show Paging.fill m.mainMemory m.file v out (j * 128 + o) = _
    rw [backs.fill inside]
    obtain ⟨rfl, page, -⟩ | ⟨other, entry⟩ := table j
    · rw [page, number, Memory.splice_inside (by omega) (by omega), Nat.add_sub_cancel_left]
      exact backs.absent v inside missing o bound
    · rw [AddrSpace.Holds, entry] at holds
      have apart : (j : Nat) ≠ out := fun same => other (Fin.ext same)
      rw [entry, Memory.splice_outside (by omega)]
      exact backs.present j holds o bound
  · have small' : w < m.space.numPages.toNat := small
    refine backs.absent w small' (fun j here => ?_) o bound
    obtain ⟨rfl, -⟩ | ⟨-, entry⟩ := table j
    · exact unheld (backs.holds (here.trans_lt small'))
    · exact absent j (by rw [entry]; exact here)

/-- The handler takes a free frame for the page. -/
theorem Backs.faults (backs : Backs m bytes) (inside : addr.toNat < m.space.numPages.toNat * 128)
    (missing : ∀ i, (m.space.pageTable i).virtualPage.toNat ≠ addr.toNat / 128) :
    m.bitmap.find.1 ≠ none ∧ Backs (m.PageFault addr) bytes ∧
      (m.PageFault addr).space.numPages = m.space.numPages ∧
      ∃ i, ((m.PageFault addr).space.pageTable i).virtualPage.toNat = addr.toNat / 128 := by
  have page : addr.toNat / 128 < m.space.numPages.toNat := by omega
  obtain ⟨i, free⟩ := backs.exists_free page missing
  obtain ⟨out, free, found⟩ := find_some free
  rw [PageFault_eq found]
  have taken : m.bitmap.find.1 ≠ none := by
    rw [found]
    exact Option.some_ne_none out
  refine ⟨taken, backs.maps page missing free, rfl, out, ?_⟩
  show ((Function.update m.space.pageTable out _) out).virtualPage.toNat = addr.toNat / 128
  rw [Function.update_self]
  show (BitVec.ofNat 32 (addr.toNat / 128)).toNat = addr.toNat / 128
  rw [BitVec.toNat_ofNat]
  exact Nat.mod_eq_of_lt (by omega)

/-! ## Transparency -/

/-- What the calls of `ReadMem` and `WriteMem` do once the address is translated. -/
theorem Backs.attempt_present (backs : Backs m bytes) {access : Access} (sized : Sized access.size)
    (legal : ¬ access.Illegal (m.space.numPages.toNat * 128)) {i : Fin NumPhysPages}
    (found : m.space.pageTable.search (access.addr.toNat / 128) = some i) :
    ∃ m', m.attempt access = ((flatAccess (m.space.numPages.toNat * 128) bytes access).1, m') ∧
      Backs m' (flatAccess (m.space.numPages.toNat * 128) bytes access).2 ∧
      m'.space.numPages = m.space.numPages := by
  obtain ⟨aligned, inside⟩ := not_or.mp legal
  have aligned := not_not.mp aligned
  have inside := Nat.lt_of_not_le inside
  have page := search_some found
  unfold flatAccess
  rw [if_neg legal]
  cases access with
  | read addr size =>
    have sized : Sized size := sized
    obtain ⟨value, fetched⟩ := exists_fetch sized bytes addr.toNat
    have same : fetch m.mainMemory (i * 128 + addr.toNat % 128) size = some value := by
      rw [← fetched]
      exact fetch_congr fun k bound => backs.here sized aligned inside page bound
    have translated := backs.translate false sized aligned inside found
    simp only [Access.addr] at translated
    simp only [Paged.attempt, ReadMem, translated, same, fetched]
    exact ⟨_, rfl, backs.touches (fun j => backs.present j) fun _ _ _ _ _ => rfl, rfl⟩
  | write addr size value =>
    have sized : Sized size := sized
    have translated := backs.translate true sized aligned inside found
    simp only [Access.addr] at translated
    simp only [Paged.attempt, WriteMem, translated, store_eq sized]
    exact ⟨_, rfl, backs.stores sized aligned inside page _, rfl⟩

/-- The other calls raise an exception and change nothing. -/
theorem attempt_raises {access : Access} {exception : ExceptionType}
    (raised : ∀ writing, Translate m.space.pageTable m.space.numPages access.addr access.size writing =
      .raises exception) : m.attempt access = (.raised exception, m) := by
  cases access with
  | read addr size =>
    have raised : Translate m.space.pageTable m.space.numPages addr size false = _ := raised false
    simp only [Paged.attempt, ReadMem, raised]
  | write addr size value =>
    have raised : Translate m.space.pageTable m.space.numPages addr size true = _ := raised true
    simp only [Paged.attempt, WriteMem, raised]

/-- The flat memory answers every access without a page fault. -/
theorem flatAccess_answers (length : Nat) (bytes : Memory) (access : Access) :
    (flatAccess length bytes access).1 ≠ .raised .PageFaultException := by
  unfold flatAccess
  split
  · exact fun same => by cases same
  · split <;> split <;> exact Reply.noConfusion

theorem perform_answered {access : Access} {reply : Reply} {m' : Paged}
    (answered : m.attempt access = (reply, m')) (final : reply ≠ .raised .PageFaultException)
    (tries : Nat) : m.perform access (tries + 1) = some (reply, m') := by
  rw [Paged.perform, answered]
  split
  · rename_i faulted
    cases faulted
    exact absurd rfl final
  · rfl

theorem perform_faulted {access : Access}
    (faulted : m.attempt access = (.raised .PageFaultException, m)) (tries : Nat) :
    m.perform access (tries + 1) = (m.PageFault access.addr).perform access tries := by
  rw [Paged.perform, faulted]

/-- An access is answered as by the flat memory, and tried at most twice. -/
theorem Backs.perform (backs : Backs m bytes) {access : Access} (sized : Sized access.size) :
    ∃ m', m.perform access 2 = some ((flatAccess (m.space.numPages.toNat * 128) bytes access).1, m') ∧
      Backs m' (flatAccess (m.space.numPages.toNat * 128) bytes access).2 ∧
      m'.space.numPages = m.space.numPages := by
  have final := flatAccess_answers (m.space.numPages.toNat * 128) bytes access
  by_cases illegal : access.Illegal (m.space.numPages.toNat * 128)
  · have raised := attempt_raises fun writing => translate_illegal sized illegal
    refine ⟨m, ?_, ?_, rfl⟩
    · rw [perform_answered raised (by decide)]
      unfold flatAccess
      rw [if_pos illegal]
    · unfold flatAccess
      rw [if_pos illegal]
      exact backs
  · obtain ⟨aligned, inside⟩ := not_or.mp illegal
    have aligned := not_not.mp aligned
    have inside := Nat.lt_of_not_le inside
    cases found : m.space.pageTable.search (access.addr.toNat / 128) with
    | some i =>
      obtain ⟨m', answered, backs', same⟩ := backs.attempt_present sized illegal found
      exact ⟨m', perform_answered answered final 1, backs', same⟩
    | none =>
      have missing := search_none.mp found
      have faulted := attempt_raises (m := m) fun writing =>
        translate_absent sized aligned inside missing
      obtain ⟨-, mapped, pages, i, page⟩ := backs.faults inside missing
      rw [← pages] at illegal final ⊢
      rw [perform_faulted faulted]
      obtain ⟨j, again⟩ : ∃ j, (m.PageFault access.addr).space.pageTable.search
          (access.addr.toNat / 128) = some j := by
        apply Option.ne_none_iff_exists'.mp
        exact fun none => search_none.mp none i page
      obtain ⟨m', answered, backs', same⟩ := mapped.attempt_present sized illegal again
      exact ⟨m', perform_answered answered final 0, backs', same⟩

theorem Backs.performAll (backs : Backs m bytes) {accesses : List Access}
    (sized : ∀ access ∈ accesses, Sized access.size) :
    ∃ m', m.performAll 2 accesses =
        some ((flatAccesses (m.space.numPages.toNat * 128) bytes accesses).1, m') ∧
      Backs m' (flatAccesses (m.space.numPages.toNat * 128) bytes accesses).2 ∧
      m'.space.numPages = m.space.numPages := by
  induction accesses generalizing m bytes with
  | nil => exact ⟨m, rfl, backs, rfl⟩
  | cons access rest ih =>
    obtain ⟨m₁, performed, backs₁, pages⟩ := backs.perform (sized access (by simp))
    obtain ⟨m₂, others, backs₂, pages'⟩ := ih backs₁ fun access inside =>
      sized access (List.mem_cons_of_mem _ inside)
    rw [pages] at others backs₂
    refine ⟨m₂, ?_, backs₂, pages'.trans pages⟩
    simp only [Paged.performAll, performed, Option.bind_eq_bind, Option.bind_some, others, flatAccesses]
    rfl

/-- Every sequence of accesses, each tried at most twice, gets the replies of the flat
memory that holds what the file did. After any such sequence, an access that faults finds
a free frame. -/
theorem demand_paging_is_transparent (fresh : m.Fresh) {accesses : List Access}
    (sized : ∀ access ∈ accesses, Sized access.size) :
    ∃ m', m.performAll 2 accesses = some
        ((flatAccesses (m.space.numPages.toNat * PageSize) m.file.bytes accesses).1, m') ∧
      ∀ access : Access, Sized access.size →
        (m'.attempt access).1 = .raised .PageFaultException → m'.bitmap.find.1 ≠ none := by
  obtain ⟨m', performed, backs, pages⟩ := fresh.backs.performAll sized
  refine ⟨m', performed, fun access size faulted => ?_⟩
  by_cases illegal : access.Illegal (m'.space.numPages.toNat * 128)
  · rw [attempt_raises fun writing => translate_illegal size illegal] at faulted
    cases faulted
  · have inside := Nat.lt_of_not_le (not_or.mp illegal).2
    cases found : m'.space.pageTable.search (access.addr.toNat / 128) with
    | some i =>
      obtain ⟨m₂, answered, -⟩ := backs.attempt_present size illegal found
      rw [answered] at faulted
      exact absurd faulted (flatAccess_answers _ _ _)
    | none => exact (backs.faults inside (search_none.mp found)).1

/-- A machine with a program of one page. -/
def onePage : Paged where
  mainMemory := fun _ => 0
  bitmap := fun _ => false
  space := { pageTable := blankTable, numPages := 1 }
  file := { length := 128, bytes := fun i => UInt8.ofNat i }

theorem demand_paging_is_transparent_one_page : ∃ m',
    onePage.performAll 2 [.read 4 4, .write 8 2 0xffff, .read 9 1, .read 6 4, .read 128 1] =
      some ([.value 0x07060504, .stored, .value 0xffffffff, .raised .AddressErrorException,
        .raised .AddressErrorException], m') := by
  have fresh : onePage.Fresh := ⟨fun _ => rfl, rfl, by decide, rfl⟩
  have sized : ∀ access ∈ [.read 4 4, .write 8 2 0xffff, .read 9 1, .read 6 4, .read 128 1],
      Sized (Access.size access) := by simp [Access.size, Sized]
  obtain ⟨m', performed, -⟩ := demand_paging_is_transparent fresh sized
  refine ⟨m', performed.trans ?_⟩
  rfl

end Nachos.Paging
