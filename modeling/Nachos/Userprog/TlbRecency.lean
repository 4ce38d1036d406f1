import Mathlib.Data.Finset.Max
import Nachos.Userprog.Tlb

/-! Which entry of the TLB a miss replaces. The age of a valid entry counts the accesses since the
last one that hit it or loaded it, so the oldest entry is the one used least recently. -/
namespace Nachos.Tlb
open Effects Machine Paging

/-! ## Accesses -/

/-- The entry that the handler of a miss loads: one that is not valid, or else the oldest;
`none` is -1. -/
def TLB.chosen (tlb : TLB) : Option (Fin TLBSize) :=
  match (List.finRange TLBSize).find? fun i => !(tlb.age i).valid with
  | some i => some i
  | none => tlb.age.oldest

/-- A TLB after accesses from the start, with the entries they hit or loaded, the last one
first. The page tables are those of any address spaces. -/
inductive Accessed : TLB → List (Fin TLBSize) → Prop where
  | empty {tlb : TLB} (invalid : ∀ i, (tlb i).valid = false) : Accessed tlb []
  | hit {tlb tlb' : TLB} {history : List (Fin TLBSize)} {outcome : Outcome Nat} {i : Fin TLBSize}
      (before : Accessed tlb history) (addr : BitVec 32) (size : Nat) (writing : Bool)
      (found : tlb.search (addr.toNat / PageSize) = some i)
      (translated : Translate tlb addr size writing = (outcome, tlb'))
      (aligned : outcome ≠ .raises .AddressErrorException) : Accessed tlb' (i :: history)
  | miss {tlb tlb' : TLB} {history : List (Fin TLBSize)} {i : Fin TLBSize} (before : Accessed tlb history)
      (addr : BitVec 32) (size : Nat) (writing : Bool) (pageTable : PageTable)
      (missed : Translate tlb addr size writing = (.raises .PageFaultException, tlb))
      (loads : tlb.chosen = some i) (serviced : PageFault tlb pageTable addr = some tlb') :
      Accessed tlb' (i :: history)

variable {tlb tlb' : TLB} {history : List (Fin TLBSize)} {i j : Fin TLBSize} {addr : BitVec 32} {size : Nat}
  {writing : Bool} {outcome : Outcome Nat} {pageTable : PageTable}

/-- A hit makes one entry young and the others older, whatever becomes of the access. -/
theorem hit_ages (found : tlb.search (addr.toNat / PageSize) = some i)
    (translated : Translate tlb addr size writing = (outcome, tlb'))
    (aligned : outcome ≠ .raises .AddressErrorException) (j : Fin TLBSize) :
    (tlb' j).valid = (tlb j).valid ∧ (tlb' j).cnt = if j = i then 0 else (tlb j).cnt + 1 := by
  have older : (tlb.hit i j).valid = (tlb j).valid ∧
      (tlb.hit i j).cnt = if j = i then 0 else (tlb j).cnt + 1 := by
    unfold TLB.hit
    by_cases same : j = i
    · rw [if_pos same, if_pos same]
      exact ⟨rfl, rfl⟩
    · rw [if_neg same, if_neg same]
      exact ⟨rfl, rfl⟩
  unfold Translate at translated
  split at translated
  · cases translated
    exact absurd rfl aligned
  · dsimp only at translated
    rw [found] at translated
    dsimp only at translated
    split at translated
    · cases translated
      exact older
    · split at translated
      · cases translated
        exact older
      · have kept : ∀ entry : TLBEntry, entry.valid = (tlb.hit i i).valid → entry.cnt = (tlb.hit i i).cnt →
            (Function.update (tlb.hit i) i entry j).valid = (tlb.hit i j).valid ∧
              (Function.update (tlb.hit i) i entry j).cnt = (tlb.hit i j).cnt := by
          intro entry valid cnt
          by_cases same : j = i
          · rw [same, Function.update_self]
            exact ⟨valid, cnt⟩
          · rw [Function.update_of_ne same]
            exact ⟨rfl, rfl⟩
        obtain ⟨valid, cnt⟩ := kept
          { tlb.hit i i with use := true, dirty := (tlb.hit i i).dirty || writing } rfl rfl
        split at translated
        · cases translated
          exact ⟨valid.trans older.1, cnt.trans older.2⟩
        · cases translated
          exact ⟨valid.trans older.1, cnt.trans older.2⟩

theorem age_valid (tlb : TLB) (j : Fin TLBSize) : (tlb.age j).valid = (tlb j).valid := by
  unfold TLB.age
  split <;> rfl

theorem age_cnt (valid : (tlb j).valid = true) : (tlb.age j).cnt = (tlb j).cnt + 1 := by
  unfold TLB.age
  rw [if_pos valid]

/-- What the handler does with the entry it chooses, which is valid afterwards. -/
theorem PageFault_loads (loads : tlb.chosen = some i) (inside : addr.toNat / PageSize < NumPhysPages) :
    PageFault tlb pageTable addr = some (Function.update tlb.age i
      { (tlb.age i).load (pageTable ⟨addr.toNat / PageSize, inside⟩) with valid := true }) := by
  unfold TLB.chosen at loads
  unfold PageFault
  rw [dif_pos inside]
  dsimp only
  cases free : (List.finRange TLBSize).find? fun i => !(tlb.age i).valid with
  | some first =>
    rw [free] at loads
    cases loads
    rfl
  | none =>
    rw [free] at loads
    dsimp only at loads ⊢
    have taken := List.find?_eq_none.mp free i (List.mem_finRange i)
    have valid : (tlb.age i).valid = true := by simpa using taken
    rw [loads, Option.map_some, ← valid]
    rfl

theorem PageFault_inside (serviced : PageFault tlb pageTable addr = some tlb') :
    addr.toNat / PageSize < NumPhysPages := by
  by_contra outside
  unfold PageFault at serviced
  rw [dif_neg outside] at serviced
  cases serviced

/-- A miss that is serviced loads one entry and makes the other valid ones older. -/
theorem miss_ages (loads : tlb.chosen = some i) (serviced : PageFault tlb pageTable addr = some tlb')
    (j : Fin TLBSize) : (j = i → (tlb' j).valid = true ∧ (tlb' j).cnt = 0) ∧
      (j ≠ i → (tlb' j).valid = (tlb j).valid ∧ ((tlb j).valid = true → (tlb' j).cnt = (tlb j).cnt + 1)) := by
  have inside := PageFault_inside serviced
  rw [PageFault_loads loads inside] at serviced
  obtain rfl := Option.some.inj serviced
  constructor
  · rintro rfl
    rw [Function.update_self]
    exact ⟨rfl, rfl⟩
  · intro other
    rw [Function.update_of_ne other]
    exact ⟨age_valid tlb j, age_cnt⟩

/-! ## Ages -/

/-- The age of a valid entry is the number of accesses since its last one. -/
theorem Accessed.age_eq (accessed : Accessed tlb history) (valid : (tlb i).valid = true) :
    i ∈ history ∧ (tlb i).cnt = history.idxOf i := by
  induction accessed generalizing i with
  | empty invalid =>
    rw [invalid i] at valid
    cases valid
  | @hit tlb tlb' history outcome latest before addr size writing found translated aligned ih =>
    obtain ⟨same, cnt⟩ := hit_ages found translated aligned i
    rw [same] at valid
    obtain ⟨member, age⟩ := ih valid
    refine ⟨List.mem_cons_of_mem _ member, cnt.trans ?_⟩
    by_cases this : i = latest
    · rw [if_pos this, this, List.idxOf_cons_self]
      rfl
    · rw [if_neg this, age, List.idxOf_cons_ne _ (Ne.symm this)]
      rfl
  | @miss tlb tlb' history latest before addr size writing pageTable missed loads serviced ih =>
    obtain ⟨loaded, kept⟩ := miss_ages loads serviced i
    by_cases this : i = latest
    · rw [(loaded this).2, this, List.idxOf_cons_self]
      exact ⟨List.mem_cons_self, rfl⟩
    · obtain ⟨same, older⟩ := kept this
      rw [same] at valid
      obtain ⟨member, age⟩ := ih valid
      rw [older valid, age, List.idxOf_cons_ne _ (Ne.symm this)]
      exact ⟨List.mem_cons_of_mem _ member, rfl⟩

theorem idxOf_ne (first : i ∈ history) (distinct : i ≠ j) : history.idxOf i ≠ history.idxOf j := by
  intro same
  exact distinct ((List.idxOf_inj first).mp same)

/-! ## The victim -/

/-- The loop over the ages finds the greatest one, if it is there once and over the age to beat. -/
theorem oldest_fold (greatest : ∀ j, j ≠ i → (tlb j).cnt < (tlb i).cnt) (entries : List (Fin TLBSize))
    (best : Int × Option (Fin TLBSize))
    (start : best = ((tlb i).cnt, some i) ∨ i ∈ entries ∧ best.1 < (tlb i).cnt) :
    (entries.foldl (fun (best : Int × Option (Fin TLBSize)) j =>
      if best.1 < (tlb j).cnt then ((tlb j).cnt, some j) else best) best).2 = some i := by
  induction entries generalizing best with
  | nil =>
    rcases start with rfl | ⟨member, -⟩
    · rfl
    · cases member
  | cons j rest ih =>
    rw [List.foldl_cons]
    apply ih
    rcases start with rfl | ⟨member, less⟩
    · have notMore : ¬ (tlb i).cnt < (tlb j).cnt := by
        by_cases same : j = i
        · rw [same]
          exact lt_irrefl _
        · exact not_lt.mpr (greatest j same).le
      exact .inl (if_neg notMore)
    · by_cases same : j = i
      · subst same
        exact .inl (if_pos less)
      · refine .inr ⟨(List.mem_cons.mp member).resolve_left (Ne.symm same), ?_⟩
        split
        · exact greatest j same
        · exact less

theorem oldest_eq (positive : 0 < (tlb i).cnt) (greatest : ∀ j, j ≠ i → (tlb j).cnt < (tlb i).cnt) :
    tlb.oldest = some i :=
  oldest_fold greatest _ _ (.inr ⟨List.mem_finRange i, positive⟩)

/-- In a full TLB some entry was accessed longest ago. -/
theorem exists_least_recent (history : List (Fin TLBSize)) (members : ∀ i, i ∈ history) :
    ∃ victim, ∀ j, j ≠ victim → history.idxOf j < history.idxOf victim := by
  obtain ⟨victim, -, greatest⟩ := Finset.exists_max_image Finset.univ (fun i : Fin TLBSize => history.idxOf i)
    ⟨0, Finset.mem_univ _⟩
  refine ⟨victim, fun j other => ?_⟩
  exact lt_of_le_of_ne (greatest j (Finset.mem_univ j)) (idxOf_ne (members j) other)

/-- After any accesses, the ages of the valid entries are distinct and tell which was accessed
later. If all entries are valid, the handler of a miss replaces the one whose last access is
the oldest. -/
theorem tlb_replaces_least_recent (accessed : Accessed tlb history) :
    (∀ i j, (tlb i).valid = true → (tlb j).valid = true → i ≠ j → (tlb i).cnt ≠ (tlb j).cnt) ∧
    (∀ i j, (tlb i).valid = true → (tlb j).valid = true →
      ((tlb i).cnt < (tlb j).cnt ↔ history.idxOf i < history.idxOf j)) ∧
    ((∀ i, (tlb i).valid = true) → ∃ victim, tlb.age.oldest = some victim ∧
      (∀ j, j ≠ victim → history.idxOf j < history.idxOf victim) ∧
      ∀ pageTable addr, (inside : addr.toNat / PageSize < NumPhysPages) →
        PageFault tlb pageTable addr = some (Function.update tlb.age victim
          { (tlb.age victim).load (pageTable ⟨addr.toNat / PageSize, inside⟩) with valid := true })) := by
  refine ⟨fun i j valid valid' distinct => ?_, fun i j valid valid' => ?_, fun full => ?_⟩
  · obtain ⟨member, age⟩ := accessed.age_eq valid
    obtain ⟨-, age'⟩ := accessed.age_eq valid'
    rw [age, age', Ne, Int.natCast_inj]
    exact idxOf_ne member distinct
  · rw [(accessed.age_eq valid).2, (accessed.age_eq valid').2, Int.ofNat_lt]
  · obtain ⟨victim, greatest⟩ := exists_least_recent history fun i => (accessed.age_eq (full i)).1
    have aged : ∀ i, (tlb.age i).cnt = history.idxOf i + 1 := fun i => by
      rw [age_cnt (full i), (accessed.age_eq (full i)).2]
    have oldest : tlb.age.oldest = some victim := by
      refine oldest_eq ?_ fun j other => ?_
      · rw [aged]
        omega
      · have less := greatest j other
        rw [aged, aged]
        omega
    have loads : tlb.chosen = some victim := by
      have noFree : ((List.finRange TLBSize).find? fun i => !(tlb.age i).valid) = none := by
        apply List.find?_eq_none.mpr
        intro i _
        rw [age_valid, full i]
        decide
      unfold TLB.chosen
      rw [noFree]
      exact oldest
    exact ⟨victim, oldest, greatest, fun pageTable addr inside => PageFault_loads loads inside⟩

/-! ## A full TLB -/

/-- A TLB after one more miss. -/
def afterMiss (tlb : TLB) (i : Fin TLBSize) (entry : TranslationEntry) : TLB :=
  Function.update tlb.age i { (tlb.age i).load entry with valid := true }

/-- Page `i` is in frame `i`. -/
def framed (i : Fin NumPhysPages) : TranslationEntry :=
  { virtualPage := BitVec.ofNat 32 i, physicalPage := BitVec.ofNat 32 i, valid := true, readOnly := false
    use := false, dirty := false }

theorem fewer_entries : TLBSize ≤ NumPhysPages := by decide

/-- After misses of the pages 0 to 3. -/
def full : TLB :=
  (List.finRange TLBSize).foldl (fun tlb i => afterMiss tlb i (framed (i.castLE fewer_entries))) booted.tlb

theorem Accessed.serves (before : Accessed tlb history) (addr : BitVec 32) (i : Fin TLBSize)
    (aligned : addr.toNat % 4 = 0)
    (absent : tlb.search (addr.toNat / PageSize) = none) (inside : addr.toNat / PageSize < NumPhysPages)
    (loads : tlb.chosen = some i) :
    Accessed (afterMiss tlb i (framed ⟨addr.toNat / PageSize, inside⟩)) (i :: history) := by
  have missed : Translate tlb addr 4 false = (.raises .PageFaultException, tlb) := by
    unfold Translate
    rw [if_neg (mt (misaligned_iff (.inr (.inr rfl)) addr).mp (by omega))]
    simp only [absent]
  exact before.miss addr 4 false framed missed loads (PageFault_loads loads inside)

theorem full_accessed : Accessed full [3, 2, 1, 0] := by
  have zero := Accessed.empty fun i => (rfl : (booted.tlb i).valid = false)
  have one := zero.serves 0 0 (by decide) (by decide) (by decide) (by decide)
  have two := one.serves 128 1 (by decide) (by decide) (by decide) (by decide)
  have three := two.serves 256 2 (by decide) (by decide) (by decide) (by decide)
  exact three.serves 384 3 (by decide) (by decide) (by decide) (by decide)

/-- The next miss replaces the entry of page 0. -/
theorem first_page_is_replaced : full.age.oldest = some 0 := by
  obtain ⟨-, -, replaces⟩ := tlb_replaces_least_recent full_accessed
  obtain ⟨victim, oldest, greatest, -⟩ := replaces (by decide)
  have last : victim = 0 := by
    by_contra other
    have less := greatest 0 (Ne.symm other)
    revert victim
    decide
  rw [oldest, last]

end Nachos.Tlb
