import Nachos.Userprog.LoadingProofs

/-! When a program is loaded as its header says. The constructor compares the number of
pages with the number of frames; it never compares an address with the size of the
space, and of the forty to sixty-four pages it admits the file system makes no file. -/
namespace Nachos.Loading
open Effects Machine FileHeader OpenFile
open Paging (AddrSpace BackingFile blankTable)

variable {layout : Layout} {disk disk' : Disk} {vis : Counters} {fs : FileSystem} {executable : OpenFile}
  {e : Int} {lenE : Nat} {noffH : NoffHeader}

/-- The segments lie in a space of so many pages, below the stack at its top. -/
structure Contained (noffH : NoffHeader) (numPages : Nat) : Prop where
  code : noffH.code.Within 0 (numPages * PageSize : Nat)
  initData : noffH.initData.Within 0 (numPages * PageSize : Nat)
  uninitData : noffH.uninitData.Within 0 (numPages * PageSize : Nat)
  stack : UserStackSize ≤ numPages * PageSize
  below : ∀ segment ∈ [noffH.code, noffH.initData, noffH.uninitData],
    segment.Within 0 ((numPages * PageSize : Nat) - UserStackSize)

/-- The constructor returns; code, data and stack fit into the space, and every byte of
the two segments can be read back. -/
def LoadsExactly (fs : FileSystem) (executable : OpenFile) (e : Int) (disk : Disk) (vis : Counters) : Prop :=
  Ensures (newAddrSpace fs executable) (fun result disk' vis' =>
    Contained (noffHeader disk e) result.1.numPages.toNat ∧
    ∀ segment ∈ [(noffHeader disk e).code, (noffHeader disk e).initData], ∀ k, k < segment.count →
      Ensures (readBack result.2.2 (segment.virtualAddr.toNat + k)) (fun reply _ _ =>
        reply = (1, fileByte disk (headerAt disk e) (segment.inFileAddr.toNat + k)))
        (fun _ => False) disk' vis') (fun _ => False) disk vis

/-- The sum of the three sizes. -/
def NoffHeader.total (noffH : NoffHeader) : Int :=
  (noffH.code.size + noffH.initData.size + noffH.uninitData.size).toInt

/-- The sum, rounded up to pages, is at most thirty-two pages, and no segment reaches
beyond it. -/
structure Placed (noffH : NoffHeader) : Prop where
  lower : -128 < noffH.total
  upper : noffH.total ≤ 4096
  segments : ∀ segment ∈ [noffH.code, noffH.initData, noffH.uninitData],
    segment.Within 0 ((noffH.total + 127) / 128 * 128)

/-- The pages behind the stack are those of the sum. -/
theorem placed_iff (few : noffH.numPages.toNat ≤ NumPhysPages) :
    Placed noffH ↔ noffH.numPages.toNat ≤ 40 ∧ Contained noffH noffH.numPages.toNat := by
  change noffH.numPages.toNat ≤ 64 at few
  rw [numPages_toNat] at few ⊢
  have size : noffH.size.toNat = ((noffH.code.size + noffH.initData.size + noffH.uninitData.size).toNat +
      1024) % 4294967296 := BitVec.toNat_add _ _
  have bound := (noffH.code.size + noffH.initData.size + noffH.uninitData.size).isLt
  have total : noffH.total = _ := BitVec.toInt_eq_toNat_cond _
  generalize (noffH.code.size + noffH.initData.size + noffH.uninitData.size).toNat = sum at *
  unfold sectorsFor at few ⊢
  constructor
  · rintro ⟨lower, upper, segments⟩
    have top : (((noffH.size.toNat + 127) / 128 * PageSize : Nat) : Int) - UserStackSize =
        (noffH.total + 127) / 128 * 128 := by
      simp only [PageSize, UserStackSize]
      split at total <;> omega
    have inside : ∀ segment ∈ [noffH.code, noffH.initData, noffH.uninitData],
        segment.Within 0 ((noffH.size.toNat + 127) / 128 * PageSize : Nat) := by
      intro segment member positive
      obtain ⟨low, high⟩ := segments segment member positive
      refine ⟨low, ?_⟩
      simp only [UserStackSize] at top
      omega
    refine ⟨by split at total <;> omega, inside _ (by simp), inside _ (by simp), inside _ (by simp), ?_, ?_⟩
    · simp only [PageSize, UserStackSize] at top ⊢
      omega
    · rw [top]
      exact segments
  · rintro ⟨fits, -, -, -, stack, below⟩
    simp only [PageSize, UserStackSize] at stack below
    have lower : -128 < noffH.total := by
      rw [total]
      split <;> omega
    have upper : noffH.total ≤ 4096 := by
      rw [total]
      split <;> omega
    have top : (((noffH.size.toNat + 127) / 128 * 128 : Nat) : Int) - (1024 : Nat) =
        (noffH.total + 127) / 128 * 128 := by
      split at total <;> omega
    rw [top] at below
    exact ⟨lower, upper, below⟩

/-- A program is loaded as its header says exactly if its segments lie below the sum of
their sizes. -/
theorem segments_load_iff (loadable : Loadable layout fs executable e lenE disk)
    (absent : (tableAt disk 1).entryIndex virtualMemory = none)
    (roomy : Roomy disk (noffHeader disk e).numPages.toNat) :
    LoadsExactly fs executable e disk vis ↔ Placed (noffHeader disk e) := by
  rw [placed_iff loadable.pages]
  constructor
  · intro loads
    obtain ⟨result, disk', vis', ⟨contained, -⟩, same⟩ := ensures_both loads (loadable.ensures_pages)
    rw [same] at contained
    refine ⟨?_, contained⟩
    by_contra huge
    have stops : Ensures (newAddrSpace fs executable) (fun _ _ _ => False) (fun _ => True) disk vis :=
      loadable.ensures_huge absent roomy (by omega) trivial
    obtain ⟨-, -, -, -, impossible⟩ := ensures_both loads stops
    exact impossible
  · rintro ⟨fits, contained⟩
    have within : ∀ segment ∈ [(noffHeader disk e).code, (noffHeader disk e).initData],
        segment.Within 0 (noffHeader disk e).space := by
      simp only [List.mem_cons, List.not_mem_nil, or_false, forall_eq_or_imp, forall_eq]
      exact ⟨contained.code, contained.initData⟩
    have stack : UserStackSize ≤ (noffHeader disk e).numPages.toNat * 128 := contained.stack
    simp only [UserStackSize] at stack
    refine loadable.ensures_new absent roomy (by omega) fits within ?_
    intro executable' fs' disk' vis' v backing made
    refine ⟨contained, fun segment member k less => ?_⟩
    have positive : 0 < segment.size.toInt := by
      unfold Segment.count at less
      omega
    obtain ⟨low, high⟩ := within segment member positive
    have place := toNat_of_nonneg low
    have covered : segment.Covers (segment.virtualAddr.toNat + k) := ⟨by omega, by omega⟩
    have inside : segment.virtualAddr.toNat + k < (noffHeader disk e).space := by
      unfold Segment.count at less
      omega
    refine backing.ensures_readBack inside fun _ _ => ?_
    have stored : fileByte disk' (headerAt disk' v) (segment.virtualAddr.toNat + k) =
        segment.byte disk e (segment.virtualAddr.toNat + k) := by
      simp only [List.mem_cons, List.not_mem_nil, or_false] at member
      rcases member with rfl | rfl
      · exact made.code _ inside covered
      · exact made.initData _ inside covered
    unfold Segment.byte at stored
    rw [stored, Nat.add_sub_cancel_left]

/-! ## An executable on a new disk -/

/-- A file with these bytes, on a formatted disk, and a handle on it. -/
structure Installed (machine : SynchDisk) (image : List UInt8) (layout : Layout) (fs : FileSystem)
    (executable : OpenFile) (disk : Disk) : Prop where
  sheltered : Sheltered layout disk
  mounted : Mounted fs disk
  opened : Opened layout disk executable 6 image.length
  bytes : ∀ o, o < image.length → fileByte disk (headerAt disk 6) o = image.getD o 0
  absent : (tableAt disk 1).entryIndex virtualMemory = none
  slot : (tableAt disk 1).freeSlot ≠ none
  low : 113 ≤ (diskMap disk).clearBelow 128
  rest : ∀ s, ¬ (diskMap disk).Marked s → disk s = machine.disk s

/-- On any machine that has not been used yet such a file can be made. -/
theorem exists_installed {machine : SynchDisk} (blank : System.Blank machine) (image : List UInt8)
    (some : 0 < image.length) (short : image.length ≤ 1024) :
    ∃ layout fs executable disk, Installed machine image layout fs executable disk := by
  have few : sectorsFor image.length ≤ 8 := sectorsFor_le_iff.mpr (by omega)
  obtain ⟨fs₀, booted, -, ⟨shape, mounted₀⟩, -⟩ := blank.formats
  have sheltered₀ := shape.consistent.sheltered
  have creates : Ensures (fs₀.Create nameA image.length) (fun result disk' _ => ∃ i,
      Created emptyLayout booted.disk disk' 1 6 i nameA false image.length ∧ Mounted result.2 disk')
      (fun _ => False) booted.disk booted.visNum :=
    shape.ensures_Create mounted₀ (by decide) (by decide) (by decide) (by decide) few
      fun _ disk' i created mounted => ⟨i, created, mounted⟩
  obtain ⟨⟨_, fs⟩, disk₁, _, ⟨i, created, mounted₁⟩, -⟩ := ensures_both creates creates
  have sheltered₁ := created.sheltered sheltered₀
  have opened₁ : Opened (emptyLayout.add 6 false) disk₁ { hdr := headerAt disk₁ 6, seekPosition := 0 } 6
      image.length := ⟨.inl rfl, created.headed, Agrees.refl _, .of_direct few⟩
  have writes : Ensures (OpenFile.WriteAt { hdr := headerAt disk₁ 6, seekPosition := 0 }
      (fun o => image.getD o 0) image.length (0 : Nat)) (fun result disk' _ =>
        Grew (emptyLayout.add 6 false) disk₁ disk' 6 image.length image.length ∧
        Opened (emptyLayout.add 6 false) disk' result.2 6 image.length ∧
        (∀ o, o < image.length → fileByte disk' (headerAt disk' 6) o = image.getD o 0) ∧
        ∀ s, ¬ (diskMap disk').Marked s → disk' s = disk₁ s) (fun _ => False) disk₁ (fun _ => 0) := by
    have whole : max image.length (0 + image.length) = image.length := by omega
    refine ensures_WriteAt_file sheltered₁ opened₁.known opened₁.known opened₁.headed opened₁.current some
      (by omega) (.inl (by rw [Nat.zero_add]; exact few)) (by rw [Nat.zero_add]; omega)
      (opened₁.small.mono le_rfl (Nat.min_le_left _ _)) ?_
    intro file' disk' written grew current _
    rw [whole] at grew
    refine ⟨grew, opened₁.written grew current, fun o bound => ?_, fun s clear => ?_⟩
    · rw [written.content_inside sheltered₁ opened₁.known opened₁.headed opened₁.current current opened₁.small
        (by omega) bound, if_pos (by omega), Nat.sub_zero]
    · exact (sheltered₁.header opened₁.known opened₁.headed opened₁.current few).free_kept written
        (by rw [whole]; exact few) clear
  obtain ⟨⟨_, executable⟩, disk, _, ⟨grew, opened, bytes, kept⟩, -⟩ := ensures_both writes writes
  have sheltered := grew.sheltered sheltered₁
  have sameRoot := grew.other_table sheltered₁ sheltered₁.root
  have same : sectorsFor image.length - sectorsFor image.length = 0 := Nat.sub_self _
  have marks : ∀ s, (diskMap disk).Marked s ↔ (diskMap disk₁).Marked s := fun s => by
    have exactly := grew.taken.exactly s
    rw [same] at exactly
    simpa [FileHeader.slots] using exactly
  refine ⟨_, fs, executable, disk, sheltered, grew.mounted sheltered₁ mounted₁, opened, bytes, ?_, ?_, ?_, ?_⟩
  · rw [Directory.entryIndex_congr sameRoot]
    exact created.entryIndex_none sheltered₀ (shape.absent (by decide) (by decide)) (by decide)
  · rw [Directory.freeSlot_congr sameRoot]
    intro none
    -- a slot that the new file has not taken
    obtain ⟨j, low, bound, other⟩ : ∃ j, 2 ≤ j ∧ j < 10 ∧ j ≠ i :=
      ⟨if i = 2 then 3 else 2, by split <;> omega, by split <;> omega, by split <;> omega⟩
    have used := List.find?_eq_none.mp none j (List.mem_range.mpr (show j < 10 from bound))
    have entry := created.old_entry sheltered₀ sheltered₀.root bound (.inr other)
    rw [entry.inUse, shape.table.unused j low bound] at used
    exact used rfl
  · have room := shape.room
    have taken := BitMap.freeCount_takes created.taken
    rw [claimed_direct created.headed.sectors few] at taken
    simp only [List.length_cons, length_slots] at taken
    have count : (diskMap disk).freeCount = (diskMap disk₁).freeCount :=
      BitMap.Same.freeCount ⟨rfl, marks⟩
    have size : (diskMap disk).numBits = 1024 := rfl
    have split := @BitMap.freeCount_le_clearBelow (diskMap disk) 128
    omega
  · intro s clear
    have clear₁ : ¬ (diskMap disk₁).Marked s := fun marked => clear ((marks s).mpr marked)
    have clear₀ : ¬ (diskMap booted.disk).Marked s := fun marked =>
      clear₁ ((created.taken.exactly s).mpr (.inl marked))
    rw [shape.marked] at clear₀
    exact (kept s clear).trans ((created.rest s clear₁).trans (shape.rest s (by omega)))

/-- A program of four bytes that goes to an address. -/
def noffAt (virtualAddr : BitVec 32) : NoffHeader where
  noffMagic := NOFFMAGIC
  code := { virtualAddr := virtualAddr, inFileAddr := 40, size := 4 }
  initData := { virtualAddr := 0, inFileAddr := 0, size := 0 }
  uninitData := { virtualAddr := 0, inFileAddr := 0, size := 0 }

/-- Its NOFF file. -/
def noffImage (virtualAddr : List UInt8) : List UInt8 :=
  [173, 223, 186, 0] ++ virtualAddr ++ [40, 0, 0, 0, 4, 0, 0, 0] ++ List.replicate 24 0 ++ [1, 2, 3, 4]

theorem numPages_noffAt (virtualAddr : BitVec 32) : (noffAt virtualAddr).numPages = 9 := by
  have size : (noffAt virtualAddr).size = 1028 := rfl
  unfold NoffHeader.numPages
  rw [size]
  decide

theorem Installed.header {machine : SynchDisk} {image : List UInt8}
    (installed : Installed machine image layout fs executable disk) (long : noffSize ≤ image.length) :
    noffHeader disk 6 = .ofBytes fun o => image.getD o 0 :=
  ofBytes_congr fun j bound => installed.bytes j (lt_of_lt_of_le bound long)

theorem Installed.roomy {machine : SynchDisk} {image : List UInt8} {virtualAddr : BitVec 32}
    (installed : Installed machine image layout fs executable disk)
    (header : noffHeader disk 6 = noffAt virtualAddr) : Roomy disk (noffHeader disk 6).numPages.toNat := by
  rw [header, numPages_noffAt]
  have low := installed.low
  exact ⟨installed.slot, le_trans (by decide) low, fun few => absurd few (by decide)⟩

/-- The program passes the checks, wherever it goes. -/
theorem Installed.loadable {machine : SynchDisk} {image : List UInt8} {virtualAddr : BitVec 32}
    (installed : Installed machine image layout fs executable disk) (long : image.length = 44)
    (header : noffHeader disk 6 = noffAt virtualAddr) :
    Loadable layout fs executable 6 44 disk := by
  have opened := installed.opened
  rw [long] at opened
  refine ⟨installed.sheltered, installed.mounted, opened, by decide, ?_, ?_, ?_, ?_⟩ <;> rw [header]
  · rfl
  · rw [numPages_noffAt]
    decide
  · intro segment member _
    simp only [noffAt, List.mem_cons, List.not_mem_nil, or_false] at member
    rcases member with rfl | rfl
    · exact (by decide : 0 ≤ (40 : BitVec 32).toInt ∧ (40 : BitVec 32).toInt + (4 : BitVec 32).toInt ≤ (44 : Nat))
    · exact (by decide : 0 ≤ (0 : BitVec 32).toInt ∧ (0 : BitVec 32).toInt + (0 : BitVec 32).toInt ≤ (44 : Nat))
  · intro _ positive
    exact absurd positive (by decide : ¬ 0 < (0 : BitVec 32).toInt)

/-- Four bytes of code that go to address 0. -/
theorem segments_load_at_zero : ∃ layout fs executable disk, Loadable layout fs executable 6 44 disk ∧
    LoadsExactly fs executable 6 disk fun _ => 0 := by
  obtain ⟨layout, fs, executable, disk, installed⟩ :=
    exists_installed zeroMachine_blank (noffImage [0, 0, 0, 0]) (by decide) (by decide)
  have header : noffHeader disk 6 = noffAt 0 := (installed.header (by decide)).trans (by decide)
  have loadable := installed.loadable (by decide) header
  refine ⟨layout, fs, executable, disk, loadable,
    (segments_load_iff loadable installed.absent (installed.roomy header)).mpr ?_⟩
  rw [header]
  exact ⟨by decide, by decide, by decide⟩

/-- Four bytes of code that go to address 100000, in a space of nine pages. -/
theorem segments_load_beyond : ∃ layout fs executable disk, Loadable layout fs executable 6 44 disk ∧
    (tableAt disk 1).entryIndex virtualMemory = none ∧ Roomy disk (noffHeader disk 6).numPages.toNat ∧
    ¬ LoadsExactly fs executable 6 disk fun _ => 0 := by
  obtain ⟨layout, fs, executable, disk, installed⟩ :=
    exists_installed zeroMachine_blank (noffImage [160, 134, 1, 0]) (by decide) (by decide)
  have header : noffHeader disk 6 = noffAt 100000 := (installed.header (by decide)).trans (by decide)
  have loadable := installed.loadable (by decide) header
  refine ⟨layout, fs, executable, disk, loadable, installed.absent, installed.roomy header, fun loads => ?_⟩
  obtain ⟨result, disk', vis', ⟨contained, -⟩, same⟩ := ensures_both loads loadable.ensures_pages
  rw [same, header, numPages_noffAt] at contained
  exact absurd (contained.code (by decide)).2 (by decide)

end Nachos.Loading
