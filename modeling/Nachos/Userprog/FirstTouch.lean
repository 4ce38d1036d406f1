import Nachos.Userprog.PagingAmongOthers
import Nachos.Userprog.SegmentLoading

/-! What a program finds in the parts of its space that nobody filled. The constructor
copies two segments and leaves the rest of `virtual_memory` alone, though `bin/noff.h` wants
the uninitialised data zeroed before use: there the program reads what the sectors of a new
file held, or what an earlier program left in an old one. -/
namespace Nachos.Loading
open Effects Machine FileHeader OpenFile
open Paging (AddrSpace BackingFile Paged blankTable)

variable {layout : Layout} {disk disk' : Disk} {vis : Counters} {fs : FileSystem} {executable : OpenFile}
  {e v : Int} {lenE len : Nat} {noffH : NoffHeader}

/-- The file that page faults work on. -/
def backingFile (disk : Disk) : BackingFile where
  length := (headerAt disk ((tableAt disk 1).lookup virtualMemory)).numBytes.toNat
  bytes := fileByte disk (headerAt disk ((tableAt disk 1).lookup virtualMemory))

/-- The address is in neither segment. -/
def NoffHeader.Outside (noffH : NoffHeader) (o : Nat) : Prop := ¬ noffH.code.Covers o ∧ ¬ noffH.initData.Covers o

/-- The constructor returns, and whatever the memory holds then and whichever frames are
taken, a byte outside the two segments is 0 when the program reads it first. -/
def ZeroAtFirstTouch (fs : FileSystem) (executable : OpenFile) (e : Int) (disk : Disk) (vis : Counters) : Prop :=
  Ensures (newAddrSpace fs executable) (fun result disk' _ => ∀ mainMemory bitmap,
    Paged.ReadsZero { mainMemory := mainMemory, bitmap := bitmap, space := result.1, file := backingFile disk' }
      (noffHeader disk e).Outside) (fun _ => False) disk vis

/-- Outside the segments there are zeros: in the sectors that a new file gets, or in the
old file. -/
def OutsideZero (disk : Disk) (noffH : NoffHeader) : Prop :=
  match (tableAt disk 1).entryIndex virtualMemory with
  | none => noffH.numPages.toNat ≤ 40 ∧ ∀ o, o < noffH.space → noffH.Outside o →
      ∀ s, Allotted disk noffH.numPages.toNat (o / 128) s → (disk s).mem (o % 128) = 0
  | some _ => noffH.space ≤ (backingFile disk).length ∧
      ∀ o, o < noffH.space → noffH.Outside o → (backingFile disk).bytes o = 0

/-- There is room for `virtual_memory`, or it is there and the segments lie in it. -/
inductive Provided (layout : Layout) (fs : FileSystem) (e : Int) (disk : Disk) : Prop
  | new (absent : (tableAt disk 1).entryIndex virtualMemory = none)
      (roomy : Roomy disk (noffHeader disk e).numPages.toNat)
  | old (v : Int) (len : Nat) (backing : Backing layout fs disk v len) (other : e ≠ v)
      (within : ∀ segment ∈ [(noffHeader disk e).code, (noffHeader disk e).initData], segment.Within 0 len)

theorem Backing.file (backing : Backing layout fs disk v len) :
    backingFile disk = { length := len, bytes := fileByte disk (headerAt disk v) } := by
  obtain ⟨i, present, sector⟩ := backing.named
  have found : (tableAt disk 1).lookup virtualMemory = v := by
    unfold Directory.lookup
    rw [present]
    exact sector
  unfold backingFile
  rw [found, backing.headed.length, Int.toNat_natCast]

theorem Contained.outside_stack {pages o : Nat} (contained : Contained noffH pages)
    (stack : pages * PageSize ≤ o + UserStackSize) : noffH.Outside o := by
  have above : ∀ segment ∈ [noffH.code, noffH.initData, noffH.uninitData], ¬ segment.Covers o := by
    rintro segment member ⟨low, high⟩
    unfold Segment.count at high
    have positive : 0 < segment.size.toInt := by omega
    obtain ⟨start, stop⟩ := contained.below segment member positive
    have place := toNat_of_nonneg start
    simp only [PageSize, UserStackSize] at stack stop
    omega
  exact ⟨above _ (by simp), above _ (by simp)⟩

/-- What the program reads is what the file holds once the constructor has returned. -/
theorem Backing.readsZero_iff (backing : Backing layout fs disk v len)
    (few : noffH.numPages.toNat ≤ NumPhysPages) (enough : noffH.space ≤ len) {region : Nat → Prop} :
    (∀ mainMemory bitmap, Paged.ReadsZero
      { mainMemory := mainMemory, bitmap := bitmap
        space := { pageTable := blankTable, numPages := noffH.numPages }, file := backingFile disk } region) ↔
      ∀ o, o < noffH.space → region o → fileByte disk (headerAt disk v) o = 0 := by
  rw [backing.file]
  have started : ∀ mainMemory bitmap, Paged.Started
      { mainMemory := mainMemory, bitmap := bitmap
        space := { pageTable := blankTable, numPages := noffH.numPages }
        file := { length := len, bytes := fileByte disk (headerAt disk v) } } :=
    fun _ _ => ⟨rfl, few, enough⟩
  constructor
  · intro zero
    exact (started (fun _ => 0) fun _ => false).readsZero_iff.mp (zero _ _)
  · exact fun zero mainMemory bitmap => (started mainMemory bitmap).readsZero_iff.mpr zero

theorem Contained.segments {pages : Nat} (contained : Contained noffH pages) :
    ∀ segment ∈ [noffH.code, noffH.initData], segment.Within 0 (pages * PageSize : Nat) := by
  simp only [List.mem_cons, List.not_mem_nil, or_false, forall_eq_or_imp, forall_eq]
  exact ⟨contained.code, contained.initData⟩

theorem Contained.several {pages : Nat} (contained : Contained noffH pages) : 8 ≤ pages := by
  have stack := contained.stack
  simp only [UserStackSize, PageSize] at stack
  omega

/-- What the constructor makes of a new file. -/
theorem Loadable.ensures_made (loadable : Loadable layout fs executable e lenE disk)
    (absent : (tableAt disk 1).entryIndex virtualMemory = none)
    (roomy : Roomy disk (noffHeader disk e).numPages.toNat)
    (contained : Contained (noffHeader disk e) (noffHeader disk e).numPages.toNat)
    (fits : (noffHeader disk e).numPages.toNat ≤ 40) :
    Ensures (newAddrSpace fs executable) (fun result disk' _ => ∃ v fs',
      result.1 = { pageTable := blankTable, numPages := (noffHeader disk e).numPages } ∧
      Backing (layout.add v false) fs' disk' v (noffHeader disk e).space ∧
      Made disk disk' e v (noffHeader disk e)) (fun _ => False) disk vis := by
  have several := contained.several
  exact loadable.ensures_new absent roomy (by omega) fits contained.segments
    fun _ fs' _ _ v backing made => ⟨v, fs', rfl, backing, made⟩

/-- Outside its segments a program reads zeros exactly if they are already there. -/
theorem first_touch_zero_iff (loadable : Loadable layout fs executable e lenE disk)
    (contained : Contained (noffHeader disk e) (noffHeader disk e).numPages.toNat)
    (provided : Provided layout fs e disk) :
    ZeroAtFirstTouch fs executable e disk vis ↔ OutsideZero disk (noffHeader disk e) := by
  have several := contained.several
  cases provided with
  | new absent roomy =>
    unfold OutsideZero
    rw [absent]
    dsimp only
    constructor
    · intro zero
      have fits : (noffHeader disk e).numPages.toNat ≤ 40 := by
        by_contra huge
        have stops : Ensures (newAddrSpace fs executable) (fun _ _ _ => False) (fun _ => True) disk vis :=
          loadable.ensures_huge absent roomy (by omega) trivial
        obtain ⟨-, -, -, -, impossible⟩ := ensures_both zero stops
        exact impossible
      refine ⟨fits, fun o bound outside s allotted => ?_⟩
      obtain ⟨⟨space, _, _⟩, disk', _, zero, v, fs', rfl, backing, made⟩ :=
        ensures_both zero (loadable.ensures_made absent roomy contained fits)
      have bytes := (backing.readsZero_iff loadable.pages le_rfl).mp zero o bound outside
      obtain ⟨s', allotted', place⟩ := made.rest o bound outside.1 outside.2
      rw [allotted.unique allotted', ← place]
      exact bytes
    · rintro ⟨fits, zero⟩
      refine loadable.ensures_new absent roomy (by omega) fits contained.segments ?_
      intro executable' fs' disk' vis' v backing made
      refine (backing.readsZero_iff loadable.pages le_rfl).mpr fun o bound outside => ?_
      obtain ⟨s, allotted, place⟩ := made.rest o bound outside.1 outside.2
      exact place.trans (zero o bound outside s allotted)
  | old v len backing other inside =>
    obtain ⟨i, present, -⟩ := backing.named
    unfold OutsideZero
    rw [present]
    dsimp only
    rw [backing.file]
    constructor
    · intro zero
      have loads : Ensures (newAddrSpace fs executable) (fun result disk' _ => ∃ fs',
          result.1 = { pageTable := blankTable, numPages := (noffHeader disk e).numPages } ∧
          Backing layout fs' disk' v len ∧ Filled disk disk' e v len (noffHeader disk e))
          (fun _ => True) disk vis :=
        loadable.ensures_old backing other inside fun _ fs' _ _ backing' filled => ⟨fs', rfl, backing', filled⟩
      obtain ⟨⟨space, _, _⟩, disk', _, zero, fs', rfl, backing', filled⟩ := ensures_both zero loads
      have enough : (noffHeader disk e).space ≤ len := by
        by_contra short
        have top : (noffHeader disk e).space = (noffHeader disk e).numPages.toNat * 128 := rfl
        -- the last byte of the stack, in a memory full of ones
        refine @Paged.not_readsZero_of_short ⟨fun _ => 1, fun _ => false, ⟨blankTable, _⟩, _⟩ rfl loadable.pages _
          ((noffHeader disk e).space - 1) ?_ ?_ (contained.outside_stack ?_)
          (fun _ => (by decide : (1 : UInt8) ≠ 0)) (zero _ _)
        · show _ < (noffHeader disk e).numPages.toNat * 128
          omega
        · rw [backing'.file]
          show len ≤ _
          omega
        · simp only [PageSize, UserStackSize]
          omega
      refine ⟨enough, fun o bound outside => ?_⟩
      have bytes := (backing'.readsZero_iff loadable.pages enough).mp zero o bound outside
      exact (filled.rest o (by omega) outside.1 outside.2).symm.trans bytes
    · rintro ⟨enough, zero⟩
      have enough : (noffHeader disk e).space ≤ len := enough
      refine loadable.ensures_old backing other inside ?_
      intro executable' fs' disk' vis' backing' filled
      refine (backing'.readsZero_iff loadable.pages enough).mpr fun o bound outside => ?_
      have bound : o < (noffHeader disk e).space := bound
      exact (filled.rest o (by omega) outside.1 outside.2).trans (zero o bound outside)

/-! ## A program of four bytes -/

theorem contained_at_zero (header : noffHeader disk 6 = noffAt 0) :
    Contained (noffHeader disk 6) (noffHeader disk 6).numPages.toNat := by
  rw [header]
  exact ((placed_iff (by rw [numPages_noffAt]; decide)).mp ⟨by decide, by decide, by decide⟩).2

theorem mem_filled (c : UInt8) {i : Nat} (inside : i < 128) : Block.mem (fun _ => c : Sector) i = c := by
  unfold Block.mem
  rw [dif_pos (show i < SectorSize from inside)]

/-- A disk that was all zeros. -/
theorem first_touch_zero_on_zeros : ∃ layout fs executable disk, Loadable layout fs executable 6 44 disk ∧
    ZeroAtFirstTouch fs executable 6 disk fun _ => 0 := by
  obtain ⟨layout, fs, executable, disk, installed⟩ :=
    exists_installed zeroMachine_blank (noffImage [0, 0, 0, 0]) (by decide) (by decide)
  have header : noffHeader disk 6 = noffAt 0 := (installed.header (by decide)).trans (by decide)
  have loadable := installed.loadable (by decide) header
  refine ⟨layout, fs, executable, disk, loadable, (first_touch_zero_iff loadable (contained_at_zero header)
    (.new installed.absent (installed.roomy header))).mpr ?_⟩
  unfold OutsideZero
  rw [installed.absent, header, numPages_noffAt]
  refine ⟨by decide, fun o _ _ s allotted => ?_⟩
  rw [installed.rest s allotted.1.2]
  exact mem_filled 0 (by omega)

/-- A disk that was full of ones when it was formatted. -/
theorem first_touch_stale : ∃ layout fs executable disk, Loadable layout fs executable 6 44 disk ∧
    Contained (noffHeader disk 6) (noffHeader disk 6).numPages.toNat ∧ Provided layout fs 6 disk ∧
    ¬ ZeroAtFirstTouch fs executable 6 disk fun _ => 0 := by
  have blank : System.Blank { zeroMachine with disk := fun _ _ => 1 } := ⟨fun _ => rfl, fun _ => rfl⟩
  obtain ⟨layout, fs, executable, disk, installed⟩ :=
    exists_installed blank (noffImage [0, 0, 0, 0]) (by decide) (by decide)
  have header : noffHeader disk 6 = noffAt 0 := (installed.header (by decide)).trans (by decide)
  have loadable := installed.loadable (by decide) header
  have contained := contained_at_zero header
  refine ⟨layout, fs, executable, disk, loadable, contained, .new installed.absent (installed.roomy header),
    fun zero => ?_⟩
  have pages : (noffHeader disk 6).numPages.toNat = 9 := by
    rw [header, numPages_noffAt]
    rfl
  obtain ⟨result, disk', _, zero, v, fs', same, backing, made⟩ := ensures_both zero
    (loadable.ensures_made installed.absent (installed.roomy header) contained (by omega))
  rw [same] at zero
  have space : (noffHeader disk 6).space = 9 * 128 := congrArg (· * 128) pages
  have outside : (noffHeader disk 6).Outside 4 := by
    rw [header]
    exact ⟨by decide, by decide⟩
  obtain ⟨s, allotted, place⟩ := made.rest 4 (by omega) outside.1 outside.2
  have zeros := (backing.readsZero_iff loadable.pages le_rfl).mp zero 4 (by omega) outside
  rw [place, installed.rest s allotted.1.2] at zeros
  exact absurd ((mem_filled 1 (by decide)).symm.trans zeros) (by decide)

end Nachos.Loading
