import Mathlib.Data.List.FinRange
import Mathlib.Logic.Relation
import Nachos.Userprog.PagingProofs

/-! The build with a TLB (`USE_TLB`): translation by the TLB (`machine/translate.cc`)
and the handler of a miss (`userprog/exception.cc`), over page tables that are set up
once (`userprog/addrspace.cc`).

The tables are indexed by frames and their `virtualPage` is -1 until the handler of
the other build sets it. The handler of this build copies the -1 into the TLB, so a
miss is followed by the same miss. -/
namespace Nachos.Tlb
open Effects Machine Paging

abbrev TLBSize : Nat := 4

/-- An entry of the TLB; `cnt` is its age. -/
structure TLBEntry extends TranslationEntry where
  cnt : Int

abbrev TLB := Fin TLBSize → TLBEntry

/-! ## Translation -/

/-- The first valid entry for the page. -/
def TLB.search (tlb : TLB) (vpn : Nat) : Option (Fin TLBSize) :=
  (List.finRange TLBSize).find? fun i => (tlb i).valid && decide ((tlb i).virtualPage.toNat = vpn)

/-- A hit makes the entry young and all others older. -/
def TLB.hit (tlb : TLB) (find : Fin TLBSize) : TLB := fun i =>
  if i = find then { tlb i with cnt := 0 } else { tlb i with cnt := (tlb i).cnt + 1 }

/-- `Machine::Translate` with a TLB. -/
def Translate (tlb : TLB) (virtAddr : BitVec 32) (size : Nat) (writing : Bool) : Outcome Nat × TLB :=
  if (size = 4 ∧ virtAddr &&& 3 ≠ 0) ∨ (size = 2 ∧ virtAddr &&& 1 ≠ 0) then
    (.raises .AddressErrorException, tlb)
  else
    let vpn := virtAddr.toNat / PageSize
    let offset := virtAddr.toNat % PageSize
    match tlb.search vpn with
    | none => (.raises .PageFaultException, tlb)
    | some find =>
      let tlb := tlb.hit find
      let entry := tlb find
      if entry.readOnly && writing then (.raises .ReadOnlyException, tlb)
      else if NumPhysPages ≤ entry.physicalPage.toNat then (.raises .BusErrorException, tlb)
      else
        let physAddr := entry.physicalPage.toNat * PageSize + offset
        let tlb := Function.update tlb find { entry with use := true, dirty := entry.dirty || writing }
        if physAddr + size ≤ MemorySize then (.done physAddr, tlb) else (.aborts, tlb)

/-! ## The handler -/

/-- All valid entries get older. -/
def TLB.age (tlb : TLB) : TLB := fun i =>
  if (tlb i).valid then { tlb i with cnt := (tlb i).cnt + 1 } else tlb i

/-- The oldest entry; `none` is -1. -/
def TLB.oldest (tlb : TLB) : Option (Fin TLBSize) :=
  ((List.finRange TLBSize).foldl
    (fun (best : Int × Option (Fin TLBSize)) i => if best.1 < (tlb i).cnt then ((tlb i).cnt, some i) else best)
    (0, none)).2

/-- What an entry becomes when a page is loaded into it. -/
def TLBEntry.load (old : TLBEntry) (entry : TranslationEntry) : TLBEntry :=
  { old with
    virtualPage := entry.virtualPage, physicalPage := entry.physicalPage, readOnly := entry.readOnly
    use := false, dirty := false, cnt := 0 }

/-- `ExceptionHandler(PageFaultException)` with a TLB; `none` if an index is outside its
array. -/
def PageFault (tlb : TLB) (pageTable : PageTable) (badVAddr : BitVec 32) : Option TLB :=
  let vpn := badVAddr.toNat / PageSize
  if inside : vpn < NumPhysPages then
    let entry := pageTable ⟨vpn, inside⟩
    let tlb := tlb.age
    match (List.finRange TLBSize).find? fun i => !(tlb i).valid with
    | some i => some (Function.update tlb i { (tlb i).load entry with valid := true })
    | none => tlb.oldest.map fun maxidx => Function.update tlb maxidx ((tlb maxidx).load entry)
  else none

/-! ## The machine and the address spaces -/

variable {A : Type}

/-- The TLB, the address spaces, and whose turn it is. -/
structure State (A : Type) where
  tlb : TLB
  space : A → AddrSpace
  current : A

namespace State

/-- One attempt to use an address: a miss ends with the handler, any other exception with a
failed `ASSERT`. -/
def attempt (m : State A) (addr : BitVec 32) (size : Nat) (writing : Bool) : Option (State A) :=
  match Translate m.tlb addr size writing with
  | (.done _, tlb) => some { m with tlb := tlb }
  | (.raises .PageFaultException, tlb) => do
    let tlb ← PageFault tlb (m.space m.current).pageTable addr
    return { m with tlb := tlb }
  | _ => none

end State

/-- A program uses an address, another one gets its turn (`RestoreState`), or a program is
loaded. -/
inductive Step [DecidableEq A] : State A → State A → Prop where
  | uses {m m' : State A} (addr : BitVec 32) (size : Nat) (writing : Bool)
      (goes_on : m.attempt addr size writing = some m') : Step m m'
  | switches {m : State A} (next : A) : Step m { m with current := next }
  | loads {m : State A} (a : A) (numPages : BitVec 32) (fits : numPages.toNat ≤ NumPhysPages) :
      Step m { m with space := Function.update m.space a { pageTable := blankTable, numPages := numPages } }

/-- No TLB entry is valid, and all address spaces are as they were set up. -/
structure Starts (m : State A) : Prop where
  invalid (i : Fin TLBSize) : (m.tlb i).valid = false
  table (a : A) : (m.space a).pageTable = blankTable
  fits (a : A) : (m.space a).numPages.toNat ≤ NumPhysPages

/-! ## What the TLB holds -/

/-- The entry is a copy of one in the page table, and has not been used. -/
structure Copied (entry : TLBEntry) : Prop where
  page : entry.virtualPage = -1
  source : ∃ i, (blankTable i).physicalPage = entry.physicalPage ∧ (blankTable i).readOnly = entry.readOnly
  unused : entry.use = false ∧ entry.dirty = false
  age : 0 ≤ entry.cnt

/-- What every state of a run has. -/
structure Kept (m : State A) : Prop where
  table (a : A) : (m.space a).pageTable = blankTable
  fits (a : A) : (m.space a).numPages.toNat ≤ NumPhysPages
  copied (i : Fin TLBSize) : (m.tlb i).valid = true → Copied (m.tlb i)

/-- No page has the number -1, so the TLB never has an entry for it. -/
theorem search_none {tlb : TLB} (copied : ∀ i, (tlb i).valid = true → Copied (tlb i)) (addr : BitVec 32) :
    tlb.search (addr.toNat / PageSize) = none := by
  apply List.find?_eq_none.mpr
  intro i _ found
  rw [Bool.and_eq_true, decide_eq_true_eq] at found
  have top : (-1 : BitVec 32).toNat = 4294967295 := by decide
  have page := found.2
  rw [(copied i found.1).page, top] at page
  have page : 4294967295 = addr.toNat / 128 := page
  have bound := addr.isLt
  omega

theorem translate_misses {tlb : TLB} (copied : ∀ i, (tlb i).valid = true → Copied (tlb i))
    {addr : BitVec 32} {size : Nat} (sized : Sized size) (aligned : addr.toNat % size = 0) (writing : Bool) :
    Translate tlb addr size writing = (.raises .PageFaultException, tlb) := by
  unfold Translate
  rw [if_neg (mt (misaligned_iff sized addr).mp (by omega))]
  simp only [search_none copied]

theorem copied_age {tlb : TLB} (copied : ∀ i, (tlb i).valid = true → Copied (tlb i)) (i : Fin TLBSize) :
    (tlb.age i).valid = (tlb i).valid ∧
      ((tlb.age i).valid = true → Copied (tlb.age i) ∧ 0 < (tlb.age i).cnt) := by
  unfold TLB.age
  by_cases valid : (tlb i).valid = true
  · rw [if_pos valid]
    obtain ⟨page, source, unused, age⟩ := copied i valid
    have older : 0 < (tlb i).cnt + 1 := by omega
    exact ⟨rfl, fun _ => ⟨⟨page, source, unused, older.le⟩, older⟩⟩
  · rw [if_neg valid]
    exact ⟨rfl, fun valid' => absurd valid' valid⟩

/-- When all entries have an age, one of them is the oldest. -/
theorem exists_oldest {tlb : TLB} (aged : ∀ i, 0 < (tlb i).cnt) : ∃ i, tlb.oldest = some i := by
  have kept : ∀ (entries : List (Fin TLBSize)) (best : Int × Option (Fin TLBSize)), best.2 ≠ none →
      (entries.foldl (fun best i => if best.1 < (tlb i).cnt then ((tlb i).cnt, some i) else best) best).2 ≠
        none := by
    intro entries
    induction entries with
    | nil => exact fun best some => some
    | cons i rest ih =>
      intro best some
      rw [List.foldl_cons]
      split
      · exact ih _ (Option.some_ne_none i)
      · exact ih _ some
  have first : List.finRange TLBSize = 0 :: (List.finRange 3).map Fin.succ := List.finRange_succ
  apply Option.ne_none_iff_exists'.mp
  unfold TLB.oldest
  rw [first, List.foldl_cons, if_pos (aged 0)]
  exact kept _ _ (Option.some_ne_none _)

/-- The handler loads a copy of the entry of the page table at the number of the page. -/
theorem faults {tlb : TLB} (copied : ∀ i, (tlb i).valid = true → Copied (tlb i)) {addr : BitVec 32}
    (inside : addr.toNat / PageSize < NumPhysPages) :
    ∃ tlb', PageFault tlb blankTable addr = some tlb' ∧ ∀ i, (tlb' i).valid = true → Copied (tlb' i) := by
  have loaded : ∀ old : TLBEntry, ∀ valid, Copied
      { old.load (blankTable ⟨addr.toNat / PageSize, inside⟩) with valid := valid } := fun old valid =>
    ⟨rfl, ⟨⟨_, inside⟩, rfl, rfl⟩, ⟨rfl, rfl⟩, le_rfl⟩
  have updated : ∀ (i : Fin TLBSize) (entry : TLBEntry), Copied entry → ∀ j,
      (Function.update tlb.age i entry j).valid = true → Copied (Function.update tlb.age i entry j) := by
    intro i entry fine j valid
    by_cases here : j = i
    · rw [here, Function.update_self]
      exact fine
    · rw [Function.update_of_ne here] at valid ⊢
      exact ((copied_age copied j).2 valid).1
  unfold PageFault
  rw [dif_pos inside]
  cases free : (List.finRange TLBSize).find? fun i => !(tlb.age i).valid with
  | some i =>
    simp only [free]
    exact ⟨_, rfl, updated i _ (loaded (tlb.age i) true)⟩
  | none =>
    have aged : ∀ i, 0 < (tlb.age i).cnt := by
      intro i
      have taken := List.find?_eq_none.mp free i (List.mem_finRange i)
      exact ((copied_age copied i).2 (by simpa using taken)).2
    obtain ⟨maxidx, oldest⟩ := exists_oldest aged
    simp only [free, oldest, Option.map_some]
    exact ⟨_, rfl, updated maxidx _ (loaded (tlb.age maxidx) (tlb.age maxidx).valid)⟩

section
variable [DecidableEq A] {m m' : State A}

theorem Kept.step (kept : Kept m) (step : Step m m') : Kept m' := by
  cases step with
  | uses addr size writing goes_on =>
    unfold State.attempt at goes_on
    have missed : Translate m.tlb addr size writing = (.raises .PageFaultException, m.tlb) ∨
        Translate m.tlb addr size writing = (.raises .AddressErrorException, m.tlb) := by
      unfold Translate
      split
      · exact .inr rfl
      · exact .inl (by simp only [search_none kept.copied])
    obtain missed | misaligned := missed
    · simp only [missed, kept.table] at goes_on
      by_cases inside : addr.toNat / PageSize < NumPhysPages
      · obtain ⟨tlb, served, copied⟩ := faults kept.copied inside
        simp only [served, Option.bind_eq_bind, Option.bind_some] at goes_on
        cases goes_on
        exact ⟨kept.table, kept.fits, copied⟩
      · have outside : PageFault m.tlb blankTable addr = none := dif_neg inside
        simp only [outside, Option.bind_eq_bind, Option.bind_none] at goes_on
        cases goes_on
    · simp only [misaligned] at goes_on
      cases goes_on
  | switches next => exact ⟨kept.table, kept.fits, kept.copied⟩
  | loads a numPages fits =>
    refine ⟨fun b => ?_, fun b => ?_, kept.copied⟩
    · by_cases same : b = a
      · simp only [same, Function.update_self]
      · simp only [Function.update_of_ne same, kept.table]
    · by_cases same : b = a
      · simp only [same, Function.update_self]
        exact fits
      · simp only [Function.update_of_ne same]
        exact kept.fits b

theorem Starts.kept_run {start : State A} (starts : Starts start) (run : Relation.ReflTransGen Step start m) :
    Kept m := by
  induction run with
  | refl =>
    refine ⟨starts.table, starts.fits, fun i valid => ?_⟩
    rw [starts.invalid i] at valid
    cases valid
  | tail _ step ih => exact ih.step step

/-- In every state of every run, each address inside the address space is missed, and missed
again when the handler is back; each address behind it is taken for a miss as well, with an
index outside the page table from the 64th page on. The entries of the TLB agree with the
page table of the running program, and no bit is lost because none is ever set. -/
theorem tlb_never_hits {start : State A} (starts : Starts start) (run : Relation.ReflTransGen Step start m) :
    (∀ addr size writing, Sized size → addr.toNat % size = 0 →
      addr.toNat < (m.space m.current).numPages.toNat * PageSize →
      ∃ tlb, PageFault m.tlb (m.space m.current).pageTable addr = some tlb ∧
        (Translate m.tlb addr size writing).1 = .raises .PageFaultException ∧
        (Translate tlb addr size writing).1 = .raises .PageFaultException) ∧
    (∀ addr size writing, Sized size → addr.toNat % size = 0 →
      (m.space m.current).numPages.toNat * PageSize ≤ addr.toNat →
      (Translate m.tlb addr size writing).1 = .raises .PageFaultException ∧
      (NumPhysPages * PageSize ≤ addr.toNat → PageFault m.tlb (m.space m.current).pageTable addr = none)) ∧
    ∀ i, (m.tlb i).valid = true →
      (∃ j, ((m.space m.current).pageTable j).virtualPage = (m.tlb i).virtualPage ∧
        ((m.space m.current).pageTable j).physicalPage = (m.tlb i).physicalPage ∧
        ((m.space m.current).pageTable j).readOnly = (m.tlb i).readOnly) ∧
      (m.tlb i).use = false ∧ (m.tlb i).dirty = false := by
  have kept := starts.kept_run run
  refine ⟨fun addr size writing sized aligned inside => ?_, fun addr size writing sized aligned _ => ?_,
    fun i valid => ?_⟩
  · have fits : (m.space m.current).numPages.toNat ≤ 64 := kept.fits m.current
    have page : addr.toNat / PageSize < NumPhysPages := by
      show addr.toNat / 128 < 64
      have inside : addr.toNat < (m.space m.current).numPages.toNat * 128 := inside
      omega
    obtain ⟨tlb, served, copied⟩ := faults kept.copied page
    rw [kept.table]
    refine ⟨tlb, served, ?_, ?_⟩
    · rw [translate_misses kept.copied sized aligned]
    · rw [translate_misses copied sized aligned]
  · refine ⟨by rw [translate_misses kept.copied sized aligned], fun behind => dif_neg ?_⟩
    show ¬ addr.toNat / 128 < 64
    have behind : 64 * 128 ≤ addr.toNat := behind
    omega
  · obtain ⟨page, ⟨j, frame, readOnly⟩, unused, -⟩ := kept.copied i valid
    rw [kept.table, page]
    exact ⟨⟨j, rfl, frame, readOnly⟩, unused⟩

end

/-! ## Accesses of two programs -/

/-- A machine that has just booted, with a program of one page and one of two. -/
def booted : State Bool where
  tlb := fun _ =>
    { virtualPage := 0, physicalPage := 0, valid := false, readOnly := false, use := false, dirty := false
      cnt := 0 }
  space := fun a => { pageTable := blankTable, numPages := if a then 2 else 1 }
  current := false

theorem booted_starts : Starts booted := ⟨fun _ => rfl, fun _ => rfl, fun a => by cases a <;> decide⟩

/-- The first program has missed address 4 and the second one, after a context switch, address
132. The TLB holds an entry for each, and the second program misses again. -/
theorem tlb_never_hits_after_switch :
    ∃ m, Relation.ReflTransGen Step booted m ∧ m.current = true ∧
      (m.tlb 0).valid = true ∧ (m.tlb 0).physicalPage = 0 ∧ (m.tlb 1).valid = true ∧ (m.tlb 1).physicalPage = 1 ∧
      (∃ tlb, PageFault m.tlb (m.space m.current).pageTable 132 = some tlb ∧
        (Translate m.tlb 132 4 false).1 = .raises .PageFaultException ∧
        (Translate tlb 132 4 false).1 = .raises .PageFaultException) ∧
      ((m.tlb 1).use = false ∧ (m.tlb 1).dirty = false) := by
  have missed : Relation.ReflTransGen Step booted _ := .single (.uses 4 4 false rfl)
  have switched := missed.tail (.switches true)
  have missed' := switched.tail (.uses 132 4 false rfl)
  obtain ⟨inside, -, agrees⟩ := tlb_never_hits booted_starts missed'
  exact ⟨_, missed', rfl, rfl, rfl, rfl, rfl, inside 132 4 false (.inr (.inr rfl)) rfl (by decide), (agrees 1 rfl).2⟩

/-- The handler has served the miss of the first instruction, and it is missed again. Behind
the page table the handler reads outside of it. -/
theorem miss_is_not_served :
    (∃ tlb, PageFault booted.tlb (booted.space booted.current).pageTable 0 = some tlb ∧
      (Translate tlb 0 4 false).1 = .raises .PageFaultException) ∧
    (Translate booted.tlb 8192 4 false).1 = .raises .PageFaultException ∧
    (PageFault booted.tlb (booted.space booted.current).pageTable 8192).isNone = true := by
  refine ⟨⟨_, rfl, ?_⟩, ?_, ?_⟩ <;> decide +kernel

end Nachos.Tlb
