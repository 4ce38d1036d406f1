import Nachos.Machine.MipsSafety

/-! What `Translate` answers, on a machine with a page table or a TLB in any state: an address in
the frame of an entry for the page, with the bits of that entry set and no others. Accesses
through different frames do not meet. -/
namespace Nachos.Mips.UserMemory
open Machine Paging Tlb

variable {m m' after after' : UserMemory} {addr addr' : Word} {size size' : Nat} {writing writing' : Bool}
  {physAddr physAddr' pos pos' : Nat} {which : ExceptionType}

/-- The entry at a position of the TLB, or of the page table where there is none. -/
def entry (m : UserMemory) (pos : Nat) : Option TranslationEntry :=
  match m.tlb with
  | none => if inside : pos < NumPhysPages then some (m.pageTable ⟨pos, inside⟩) else none
  | some tlb => if inside : pos < TLBSize then some (tlb ⟨pos, inside⟩).toTranslationEntry else none

/-- The use bit and the dirty bit at a position. -/
def bits (m : UserMemory) (pos : Nat) : Option (Bool × Bool) :=
  (m.entry pos).map fun entry => (entry.use, entry.dirty)

/-- The position at which `Translate` finds the page of an address. -/
def found (m : UserMemory) (addr : Word) : Option Nat :=
  match m.tlb with
  | none => (m.pageTable.search (addr.toNat / PageSize)).map Fin.val
  | some tlb => (tlb.search (addr.toNat / PageSize)).map Fin.val

/-- The access goes to a frame, through the entry at a position. -/
structure Through (m : UserMemory) (addr : Word) (size : Nat) (writing : Bool) (physAddr : Nat)
    (after : UserMemory) (pos : Nat) (entry : TranslationEntry) : Prop where
  found : m.found addr = some pos
  there : m.entry pos = some entry
  page : entry.virtualPage.toNat = addr.toNat / PageSize
  frame : entry.physicalPage.toNat < NumPhysPages
  start : entry.physicalPage.toNat * PageSize ≤ physAddr
  stop : physAddr + size ≤ entry.physicalPage.toNat * PageSize + PageSize
  offset : physAddr % PageSize = addr.toNat % PageSize
  used : after.bits pos = some (true, entry.dirty || writing)
  others : ∀ i, i ≠ pos → after.bits i = m.bits i

/-- The arithmetic of a frame. -/
theorem frame_range (frame : Nat) (sized : Sized size) (aligned : addr.toNat % size = 0) :
    frame * PageSize ≤ frame * PageSize + addr.toNat % PageSize ∧
      frame * PageSize + addr.toNat % PageSize + size ≤ frame * PageSize + PageSize ∧
      (frame * PageSize + addr.toNat % PageSize) % PageSize = addr.toNat % PageSize := by
  have offset := legal_offset sized aligned
  show frame * 128 ≤ frame * 128 + addr.toNat % 128 ∧
    frame * 128 + addr.toNat % 128 + size ≤ frame * 128 + 128 ∧
    (frame * 128 + addr.toNat % 128) % 128 = addr.toNat % 128
  omega

/-- What a page table answers. -/
theorem table_translates {table table' : PageTable} {pageTableSize : Word} (sized : Sized size)
    (translated : Machine.Translate table pageTableSize addr size writing = .done (physAddr, table')) :
    ∃ pos, table.search (addr.toNat / PageSize) = some pos ∧
      (table pos).physicalPage.toNat < NumPhysPages ∧ addr.toNat % size = 0 ∧
      physAddr = (table pos).physicalPage.toNat * PageSize + addr.toNat % PageSize ∧
      table' = Function.update table pos
        { table pos with use := true, dirty := (table pos).dirty || writing } := by
  unfold Machine.Translate at translated
  rw [if_congr (misaligned_iff sized addr) rfl rfl] at translated
  by_cases odd : addr.toNat % size ≠ 0
  · rw [if_pos odd] at translated
    cases translated
  rw [if_neg odd] at translated
  dsimp only at translated
  split at translated
  · cases translated
  · split at translated
    · cases translated
    · rename_i pos search
      split at translated
      · cases translated
      · split at translated
        · cases translated
        · rename_i inside
          split at translated
          · cases translated
            exact ⟨pos, search, not_le.mp inside, not_not.mp odd, rfl, rfl⟩
          · cases translated

theorem hit_entry (tlb : TLB) (find i : Fin TLBSize) :
    (tlb.hit find i).toTranslationEntry = (tlb i).toTranslationEntry := by
  unfold TLB.hit
  split <;> rfl

/-- What a TLB answers. -/
theorem tlb_translates {tlb tlb' : TLB} (sized : Sized size)
    (translated : Tlb.Translate tlb addr size writing = (.done physAddr, tlb')) :
    ∃ pos, tlb.search (addr.toNat / PageSize) = some pos ∧
      (tlb pos).physicalPage.toNat < NumPhysPages ∧ addr.toNat % size = 0 ∧
      physAddr = (tlb pos).physicalPage.toNat * PageSize + addr.toNat % PageSize ∧
      tlb' = Function.update (tlb.hit pos) pos
        { tlb.hit pos pos with use := true, dirty := (tlb.hit pos pos).dirty || writing } := by
  unfold Tlb.Translate at translated
  rw [if_congr (misaligned_iff sized addr) rfl rfl] at translated
  by_cases odd : addr.toNat % size ≠ 0
  · rw [if_pos odd] at translated
    cases translated
  rw [if_neg odd] at translated
  dsimp only at translated
  split at translated
  · cases translated
  · rename_i pos search
    have frame : (tlb.hit pos pos).physicalPage = (tlb pos).physicalPage :=
      congrArg TranslationEntry.physicalPage (hit_entry tlb pos pos)
    split at translated
    · cases translated
    · split at translated
      · cases translated
      · rename_i inside
        rw [frame] at inside
        split at translated
        · cases translated
          exact ⟨pos, search, not_le.mp inside, not_not.mp odd, by rw [frame], rfl⟩
        · cases translated

/-- A TLB that refuses an access keeps its bits. -/
theorem tlb_refuses {tlb tlb' : TLB} (translated : Tlb.Translate tlb addr size writing = (.raises which, tlb'))
    (i : Fin TLBSize) : (tlb' i).toTranslationEntry = (tlb i).toTranslationEntry := by
  unfold Tlb.Translate at translated
  split at translated
  · cases translated
    rfl
  · dsimp only at translated
    split at translated
    · cases translated
      rfl
    · split at translated
      · cases translated
        exact hit_entry tlb _ i
      · split at translated
        · cases translated
          exact hit_entry tlb _ i
        · split at translated <;> cases translated

theorem entry_of_table (noTlb : m.tlb = none) (pos : Nat) :
    m.entry pos = if inside : pos < NumPhysPages then some (m.pageTable ⟨pos, inside⟩) else none := by
  unfold entry
  rw [noTlb]

theorem entry_of_tlb {tlb : TLB} (there : m.tlb = some tlb) (pos : Nat) : m.entry pos =
    if inside : pos < TLBSize then some (tlb ⟨pos, inside⟩).toTranslationEntry else none := by
  unfold entry
  rw [there]

/-- The bits of page tables that agree at a position. -/
theorem bits_eq_of_table (noTlb : m.tlb = none) (noTlb' : after.tlb = none)
    (same : ∀ i : Fin NumPhysPages, (i : Nat) = pos → after.pageTable i = m.pageTable i) :
    after.bits pos = m.bits pos := by
  unfold bits
  rw [entry_of_table noTlb, entry_of_table noTlb']
  by_cases inside : pos < NumPhysPages
  · rw [dif_pos inside, dif_pos inside, same ⟨pos, inside⟩ rfl]
  · rw [dif_neg inside, dif_neg inside]

/-- The bits of TLBs that agree at a position, but for the ages. -/
theorem bits_eq_of_tlb {tlb tlb' : TLB} (there : m.tlb = some tlb) (there' : after.tlb = some tlb')
    (same : ∀ i : Fin TLBSize, (i : Nat) = pos → (tlb' i).toTranslationEntry = (tlb i).toTranslationEntry) :
    after.bits pos = m.bits pos := by
  unfold bits
  rw [entry_of_tlb there, entry_of_tlb there']
  by_cases inside : pos < TLBSize
  · rw [dif_pos inside, dif_pos inside, same ⟨pos, inside⟩ rfl]
  · rw [dif_neg inside, dif_neg inside]

/-- A translation that ends goes through an entry. -/
theorem translate_through (sized : Sized size)
    (translated : m.Translate addr size writing = (.done physAddr, after)) :
    ∃ pos entry, Through m addr size writing physAddr after pos entry := by
  unfold Translate at translated
  cases there : m.tlb with
  | none =>
    rw [there] at translated
    dsimp only at translated
    cases result : Machine.Translate m.pageTable m.pageTableSize addr size writing with
    | raises => rw [result] at translated; cases translated
    | aborts => rw [result] at translated; cases translated
    | done answer =>
      obtain ⟨physAddr', table⟩ := answer
      rw [result] at translated
      cases translated
      obtain ⟨pos, search, frame, aligned, rfl, rfl⟩ := table_translates sized result
      obtain ⟨start, stop, offset⟩ := frame_range (m.pageTable pos).physicalPage.toNat sized aligned
      refine ⟨pos, m.pageTable pos, ?_, ?_, search_some search, frame, start, stop, offset, ?_, ?_⟩
      · unfold found
        rw [there]
        dsimp only
        rw [search]
        rfl
      · rw [entry_of_table there, dif_pos pos.isLt]
      · unfold bits
        rw [entry_of_table rfl, dif_pos pos.isLt]
        dsimp only
        rw [Function.update_self]
        rfl
      · intro i other
        refine bits_eq_of_table there rfl fun j here => ?_
        exact Function.update_of_ne (fun same => other (by rw [← here, same])) ..
  | some tlb =>
    rw [there] at translated
    dsimp only at translated
    rcases result : Tlb.Translate tlb addr size writing with ⟨outcome, tlb'⟩
    rw [result] at translated
    cases translated
    obtain ⟨pos, search, frame, aligned, rfl, rfl⟩ := tlb_translates sized result
    obtain ⟨start, stop, offset⟩ := frame_range (tlb pos).physicalPage.toNat sized aligned
    have page := List.find?_some search
    rw [Bool.and_eq_true, decide_eq_true_eq] at page
    have same := hit_entry tlb pos
    refine ⟨pos, (tlb pos).toTranslationEntry, ?_, ?_, page.2, frame, start, stop, offset, ?_, ?_⟩
    · unfold found
      rw [there]
      dsimp only
      rw [search]
      rfl
    · rw [entry_of_tlb there, dif_pos pos.isLt]
    · unfold bits
      rw [entry_of_tlb rfl, dif_pos pos.isLt]
      dsimp only
      rw [Function.update_self, ← same]
      rfl
    · intro i other
      refine bits_eq_of_tlb there rfl fun j here => ?_
      dsimp only
      rw [Function.update_of_ne (fun equal => other (by rw [← here, equal])), same]

/-- A translation that is refused sets no bit. -/
theorem translate_refused (translated : m.Translate addr size writing = (.raises which, after)) (pos : Nat) :
    after.bits pos = m.bits pos := by
  unfold Translate at translated
  cases there : m.tlb with
  | none =>
    rw [there] at translated
    dsimp only at translated
    cases result : Machine.Translate m.pageTable m.pageTableSize addr size writing with
    | raises => rw [result] at translated; cases translated; rfl
    | aborts => rw [result] at translated; cases translated
    | done answer => rw [result] at translated; cases translated
  | some tlb =>
    rw [there] at translated
    dsimp only at translated
    rcases result : Tlb.Translate tlb addr size writing with ⟨outcome, tlb'⟩
    rw [result] at translated
    cases translated
    exact bits_eq_of_tlb there rfl fun i _ => tlb_refuses result i

/-- Accesses through entries with different frames do not meet. -/
theorem through_disjoint {entry entry' : TranslationEntry}
    (through : Through m addr size writing physAddr after pos entry)
    (through' : Through m' addr' size' writing' physAddr' after' pos' entry')
    (distinct : entry.physicalPage ≠ entry'.physicalPage) :
    physAddr + size ≤ physAddr' ∨ physAddr' + size' ≤ physAddr := by
  have start : entry.physicalPage.toNat * 128 ≤ physAddr := through.start
  have stop : physAddr + size ≤ entry.physicalPage.toNat * 128 + 128 := through.stop
  have start' : entry'.physicalPage.toNat * 128 ≤ physAddr' := through'.start
  have stop' : physAddr' + size' ≤ entry'.physicalPage.toNat * 128 + 128 := through'.stop
  have frames : entry.physicalPage.toNat ≠ entry'.physicalPage.toNat :=
    fun same => distinct (BitVec.eq_of_toNat_eq same)
  omega

/-- `Translate` never fails its last `ASSERT`. When it succeeds, the physical address is in the
frame of an entry for the page, at the offset of the address, and only the bits of that entry
change; when it raises an exception, none do. What two translations reach through different
frames does not overlap. -/
theorem translations_stay_in_frames :
    (∀ (m : UserMemory) addr size writing, Sized size →
      (m.Translate addr size writing).1 ≠ .aborts ∧
      (∀ physAddr after, m.Translate addr size writing = (.done physAddr, after) →
        ∃ pos entry, Through m addr size writing physAddr after pos entry) ∧
      ∀ which after, m.Translate addr size writing = (.raises which, after) →
        ∀ pos, after.bits pos = m.bits pos) ∧
    ∀ (m m' : UserMemory) addr addr' size size' writing writing' physAddr physAddr' after after' pos pos'
      entry entry', Through m addr size writing physAddr after pos entry →
      Through m' addr' size' writing' physAddr' after' pos' entry' →
      entry.physicalPage ≠ entry'.physicalPage →
      physAddr + size ≤ physAddr' ∨ physAddr' + size' ≤ physAddr :=
  ⟨fun m addr _ writing sized => ⟨m.translate_ends addr writing sized,
      fun _ _ translated => translate_through sized translated,
      fun _ _ translated pos => translate_refused translated pos⟩,
    fun _ _ _ _ _ _ _ _ _ _ _ _ _ _ _ _ through through' distinct =>
      through_disjoint through through' distinct⟩

/-- Each page in the frame of its number, and no TLB. -/
def identity : UserMemory where
  mainMemory := fun _ => 0
  pageTable := identityTable
  pageTableSize := 64
  tlb := none

/-- Bytes of the first and the second page do not overlap. -/
theorem identity_frames :
    ∃ after after' physAddr physAddr', identity.Translate 4 4 false = (.done physAddr, after) ∧
      identity.Translate 132 4 true = (.done physAddr', after') ∧
      (physAddr + 4 ≤ physAddr' ∨ physAddr' + 4 ≤ physAddr) := by
  obtain ⟨sound, disjoint⟩ := translations_stay_in_frames
  have word : Sized 4 := .inr (.inr rfl)
  have first : Machine.Translate identityTable 64 4 4 false = _ :=
    translate_present word rfl (by decide) (show identityTable.search 0 = some 0 by decide) rfl rfl
  have second : Machine.Translate identityTable 64 132 4 true = _ :=
    translate_present word rfl (by decide) (show identityTable.search 1 = some 1 by decide) rfl rfl
  have translated : ∃ after, identity.Translate 4 4 false = (.done 4, after) := by
    unfold Translate identity
    dsimp only
    rw [first]
    exact ⟨_, rfl⟩
  have translated' : ∃ after, identity.Translate 132 4 true = (.done 132, after) := by
    unfold Translate identity
    dsimp only
    rw [second]
    exact ⟨_, rfl⟩
  obtain ⟨after, translated⟩ := translated
  obtain ⟨after', translated'⟩ := translated'
  obtain ⟨pos, entry, through⟩ := (sound _ _ _ _ word).2.1 _ _ translated
  obtain ⟨pos', entry', through'⟩ := (sound _ _ _ _ word).2.1 _ _ translated'
  refine ⟨after, after', 4, 132, translated, translated', ?_⟩
  refine disjoint _ _ _ _ _ _ _ _ _ _ _ _ _ _ _ _ through through' fun same => ?_
  have start : entry.physicalPage.toNat * 128 ≤ 4 := through.start
  have stop : 132 + 4 ≤ entry'.physicalPage.toNat * 128 + 128 := through'.stop
  rw [same] at start
  omega

end Nachos.Mips.UserMemory
