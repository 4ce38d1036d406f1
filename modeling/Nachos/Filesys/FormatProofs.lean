import Nachos.Filesys.FileProofs

/-! Formatting. Whatever the disk held, the constructor returns without failing
an `ASSERT` and leaves a consistent disk: sectors 0 to 5 hold the free map and
an empty root directory, and every other sector is as it was. -/
namespace Nachos
open Effects FileHeader

variable {disk disk' : Disk} {vis : Counters} {fault : Fault → Prop}

/-- The layout of an empty disk. -/
def emptyLayout : Layout where
  files := ∅
  dirs := {1}

/-- What formatting leaves on the disk. -/
structure Formatted (disk disk' : Disk) : Prop where
  map : IsMapHeader (headerAt disk' 0)
  mapHeaded : Headed disk' 0 128
  rootHeaded : Headed disk' 1 360
  slots : ∀ k, k < 3 → (headerAt disk' 1).dataSectors k = ((3 + k : Nat) : Int)
  table : Directory.Fresh (tableAt disk' 1) 1 1
  marked : ∀ s, (diskMap disk').Marked s ↔ 0 ≤ s ∧ s < 6
  rest : ∀ s, s < 0 ∨ 6 ≤ s → disk' s = disk s

namespace Formatted

theorem head_iff {h : Int} : emptyLayout.Head h ↔ h = 0 ∨ h = 1 := by
  simp [Layout.Head, emptyLayout]

theorem node_iff {n : Int × Bool} : emptyLayout.Node n ↔ n = (1, true) := by
  obtain ⟨h, flag⟩ := n
  cases flag <;> simp [Layout.Node, emptyLayout]

/-- The six sectors in use, each with its role. -/
theorem claims_iff (formatted : Formatted disk disk') {k : Int × Part} {s : Int} :
    Claims emptyLayout disk' k s ↔
      (k = (0, .header) ∧ s = 0) ∨ (k = (1, .header) ∧ s = 1) ∨ (k = (0, .data 0) ∧ s = 2) ∨
      ∃ j, j < 3 ∧ k = (1, .data j) ∧ s = ((3 + j : Nat) : Int) := by
  obtain ⟨h, part⟩ := k
  have one : sectorsFor 128 = 1 := rfl
  have three : sectorsFor 360 = 3 := rfl
  have mapSectors := formatted.mapHeaded.sectors
  have rootSectors := formatted.rootHeaded.sectors
  rw [one] at mapSectors
  rw [three] at rootSectors
  unfold Claims
  dsimp only
  rw [head_iff]
  constructor
  · rintro ⟨rfl | rfl, owned⟩
    · cases part with
      | header => exact .inl ⟨rfl, owned⟩
      | data j =>
        obtain ⟨bound, place⟩ := owned
        have zeroth : j = 0 := by omega
        subst zeroth
        rw [dataSector_direct (by omega), formatted.map.slot] at place
        exact .inr (.inr (.inl ⟨rfl, place⟩))
      | indirect =>
        obtain ⟨large, -⟩ := owned
        omega
    · cases part with
      | header => exact .inr (.inl ⟨rfl, owned⟩)
      | data j =>
        obtain ⟨bound, place⟩ := owned
        have less : j < 3 := by omega
        rw [dataSector_direct (by omega), formatted.slots j less] at place
        exact .inr (.inr (.inr ⟨j, less, rfl, place⟩))
      | indirect =>
        obtain ⟨large, -⟩ := owned
        omega
  · rintro (⟨same, rfl⟩ | ⟨same, rfl⟩ | ⟨same, rfl⟩ | ⟨j, less, same, rfl⟩)
    · obtain ⟨rfl, rfl⟩ := Prod.mk.inj same
      exact ⟨.inl rfl, rfl⟩
    · obtain ⟨rfl, rfl⟩ := Prod.mk.inj same
      exact ⟨.inr rfl, rfl⟩
    · obtain ⟨rfl, rfl⟩ := Prod.mk.inj same
      refine ⟨.inl rfl, by omega, ?_⟩
      rw [dataSector_direct (by omega), formatted.map.slot]
    · obtain ⟨rfl, rfl⟩ := Prod.mk.inj same
      refine ⟨.inr rfl, by omega, ?_⟩
      rw [dataSector_direct (by omega), formatted.slots j less]

theorem storage (formatted : Formatted disk disk') :
    Partition (Claims emptyLayout disk') (diskMap disk').Marked where
  exactly := fun s => by
    simp only [formatted.marked, formatted.claims_iff]
    constructor
    · intro range
      by_cases zeroth : s = 0
      · exact ⟨(0, .header), .inl ⟨rfl, zeroth⟩⟩
      by_cases first : s = 1
      · exact ⟨(1, .header), .inr (.inl ⟨rfl, first⟩)⟩
      by_cases second : s = 2
      · exact ⟨(0, .data 0), .inr (.inr (.inl ⟨rfl, second⟩))⟩
      · exact ⟨(1, .data (s.toNat - 3)), .inr (.inr (.inr ⟨_, by omega, rfl, by omega⟩))⟩
    · rintro ⟨k, ⟨-, rfl⟩ | ⟨-, rfl⟩ | ⟨-, rfl⟩ | ⟨j, less, -, rfl⟩⟩ <;> omega
  single := fun k k' s first second => by
    rw [formatted.claims_iff] at first second
    rcases first with ⟨rfl, here⟩ | ⟨rfl, here⟩ | ⟨rfl, here⟩ | ⟨j, less, rfl, here⟩ <;>
      rcases second with ⟨rfl, there⟩ | ⟨rfl, there⟩ | ⟨rfl, there⟩ | ⟨j', less', rfl, there⟩ <;>
        first | rfl | omega | skip
    have same : j = j' := by omega
    rw [same]

theorem tree (formatted : Formatted disk disk') :
    Rooted (Child disk') emptyLayout.Node (1, true) where
  top := node_iff.mpr rfl
  closed := fun p i c known link => by
    rw [node_iff.mp known] at link
    exact absurd link (childless formatted.table i c)
  named := fun c known other => absurd (node_iff.mp known) other
  once := fun p p' i i' c known _ link => by
    rw [node_iff.mp known] at link
    exact absurd link (childless formatted.table i c)
  ranked := ⟨fun _ => 0, fun p i c known link => by
    rw [node_iff.mp known] at link
    exact absurd link (childless formatted.table i c)⟩

/-- A formatted disk is consistent. -/
theorem consistent (formatted : Formatted disk disk') : Consistent emptyLayout disk' where
  partition := formatted.storage
  storage := formatted.storage.shelter
  tree := formatted.tree
  kinds := fun _ _ => id
  mapAlone := ⟨by simp [emptyLayout], id⟩
  map := formatted.map
  headed := fun h known => by
    rcases head_iff.mp known with rfl | rfl
    · exact ⟨128, formatted.mapHeaded⟩
    · exact ⟨360, formatted.rootHeaded⟩
  tables := fun h dir => by
    obtain rfl : h = 1 := dir
    exact formatted.rootHeaded
  self := fun h dir => by
    obtain rfl : h = 1 := dir
    exact ⟨formatted.table.self, formatted.table.parent⟩
  dots := fun h dir => by
    obtain rfl : h = 1 := dir
    exact formatted.table.selfSector
  dads := fun p dir i c link => by
    obtain rfl : p = 1 := dir
    exact absurd link (childless formatted.table i _)
  rootSelf := ⟨formatted.table.selfSector, formatted.table.parentSector, formatted.table.selfType,
    formatted.table.parentType⟩
  names := fun h dir i j boundI boundJ usedI usedJ equal => by
    obtain rfl : h = 1 := dir
    exact formatted.table.names boundI boundJ usedI usedJ equal

theorem sheltered (formatted : Formatted disk disk') : Sheltered emptyLayout disk' :=
  formatted.consistent.sheltered

/-- A formatted disk has no name but the two dots. -/
theorem absent {name : Name} (formatted : Formatted disk disk')
    (notDot : ¬ Name.strncmpEq (Name.chars [dot]) name.chars FileNameMaxLen = true)
    (notDots : ¬ Name.strncmpEq (Name.chars [dot, dot]) name.chars FileNameMaxLen = true) :
    (tableAt disk' 1).entryIndex name = none := by
  cases found : (tableAt disk' 1).entryIndex name with
  | none => rfl
  | some j =>
    obtain ⟨bound, used, text⟩ := Directory.entryIndex_some found
    by_cases low : 2 ≤ j
    · have clear := formatted.table.unused j low bound
      rw [used] at clear
      cases clear
    · obtain rfl | rfl : j = 0 ∨ j = 1 := by omega
      · exact absurd (Name.strncmpEq_trans (Name.strncmpEq_symm formatted.table.self.2) text) notDot
      · exact absurd (Name.strncmpEq_trans (Name.strncmpEq_symm formatted.table.parent.2) text)
          notDots

end Formatted

/-- The counters with one handle open on the free map and one on the root. -/
def mountedCounters (vis : Counters) : Counters :=
  Function.update (Function.update vis 0 (vis 0 + 1)) 1 (vis 1 + 1)

/-- The first `n` bits are set and no other. -/
def BitMap.Prefix (bitmap : BitMap) (n : Nat) : Prop :=
  bitmap.numBits = 1024 ∧ ∀ s, bitmap.Marked s ↔ 0 ≤ s ∧ s < n

theorem BitMap.Prefix.run {bitmap : BitMap} {n : Nat} (marks : bitmap.Prefix n) {size : Nat}
    (positive : 0 < size) (fits : n + size ≤ 1024) : bitmap.FirstRun size n where
  fits := by rw [marks.1]; exact fits
  clear := fun j _ set => by have bound := (marks.2 _).mp set; omega
  least := fun b less => ⟨0, positive, (marks.2 _).mpr ⟨by omega, by omega⟩⟩

theorem BitMap.Prefix.takes {bitmap after : BitMap} {n size : Nat} {hdr : FileHeader}
    (marks : bitmap.Prefix n) (taken : bitmap.Takes (hdr.slots 0 size) after)
    (slots : ∀ k, k < size → hdr.dataSectors k = ((n + k : Nat) : Int)) :
    after.Prefix (n + size) := by
  refine ⟨taken.size.trans marks.1, fun s => ?_⟩
  rw [taken.exactly, marks.2, mem_slots]
  constructor
  · rintro (old | ⟨k, less, rfl⟩)
    · omega
    · rw [Nat.zero_add, slots k less]
      omega
  · intro range
    by_cases old : s < n
    · exact .inl ⟨range.1, old⟩
    · refine .inr ⟨s.toNat - n, by omega, ?_⟩
      rw [Nat.zero_add, slots _ (by omega)]
      omega

theorem BitMap.Prefix.mark {bitmap : BitMap} {n : Nat} (marks : bitmap.Prefix n)
    (room : n < 1024) : ∃ after, bitmap.Mark n = .ok after ∧ after.Prefix (n + 1) := by
  have low : (0 : Int) ≤ n := by omega
  have high : (n : Int) < bitmap.numBits := by rw [marks.1]; omega
  refine ⟨_, mark_ok low high, marks.1, fun s => ?_⟩
  rw [marked_markWord low high, marks.2]
  omega

/-- On a map whose first `n` bits are set, `Allocate` takes the next ones. -/
theorem ensures_Allocate_prefix {post : Bool × FileHeader × BitMap → Disk → Counters → Prop}
    {hdr : FileHeader} {bitmap : BitMap} {n size : Nat} (marks : bitmap.Prefix n)
    (positive : 0 < size) (small : sectorsFor size ≤ 8) (fits : n + sectorsFor size ≤ 1024)
    (holds : ∀ (hdr' : FileHeader) (after : BitMap), hdr'.numBytes = size →
      hdr'.numSectors = sectorsFor size →
      (∀ k, k < sectorsFor size → hdr'.dataSectors k = ((n + k : Nat) : Int)) →
      after.Prefix (n + sectorsFor size) → post (true, hdr', after) disk vis) :
    Ensures (hdr.Allocate bitmap size) post fault disk vis := by
  have some : 0 < sectorsFor size := by
    unfold sectorsFor
    omega
  have run := marks.run some fits
  refine ensures_Allocate_direct marks.1 small run.le_freeCount (fun none => absurd run (none n)) ?_
  intro hdr' after bytes sectors taken first
  obtain ⟨b, run', slots⟩ := first (.inr ⟨some, n, run⟩)
  obtain rfl := run'.unique run
  exact holds hdr' after bytes sectors slots (marks.takes taken slots)

/-- The second half of formatting: two headers are written, opened, and used to
write the free map and the root's table. -/
private theorem ensures_install {post : FileSystem → Disk → Counters → Prop}
    {mapHdr dirHdr : FileHeader} {freeMap : BitMap} {directory : Directory}
    (map : IsMapHeader mapHdr) (mapSectors : mapHdr.numSectors = 1)
    (length : dirHdr.numBytes = 360) (sectors : dirHdr.numSectors = 3)
    (slots : ∀ k, k < 3 → dirHdr.dataSectors k = ((3 + k : Nat) : Int))
    (number : dirHdr.sectorNumber = 1) (marks : freeMap.Prefix 6)
    (fresh : directory.Fresh 1 1)
    (holds : ∀ fs disk', Formatted disk disk' → Mounted fs disk' →
      post fs disk' (mountedCounters vis)) :
    Ensures (do
      mapHdr.WriteBack FreeMapSector
      dirHdr.WriteBack DirectorySector
      let freeMapFile ← OpenFile.new FreeMapSector
      let directoryFile ← OpenFile.new DirectorySector
      let freeMapFile ← freeMap.WriteBack freeMapFile
      let directoryFile ← directory.WriteBack directoryFile
      return { freeMapFile := freeMapFile, directoryFile := directoryFile }) post fault disk vis := by
  have valid₀ : ValidSector FreeMapSector := by decide
  have valid₁ : ValidSector DirectorySector := by decide
  apply ensures_bind
  refine ensures_WriteBack valid₀ ?_
  apply ensures_bind
  refine ensures_WriteBack valid₁ ?_
  generalize start : Function.update (Function.update disk FreeMapSector mapHdr.raw)
    DirectorySector dirHdr.raw = disk₁
  have stored₀ : disk₁ 0 = mapHdr.raw := by
    rw [← start, Function.update_of_ne (by decide)]
    exact Function.update_self _ _ _
  have stored₁ : disk₁ 1 = dirHdr.raw := by
    rw [← start]
    exact Function.update_self _ _ _
  have number₀ : FileHeader.sectorNumber ⟨disk₁ 0⟩ = 0 := by
    rw [stored₀]
    exact map.number
  have number₁ : FileHeader.sectorNumber ⟨disk₁ 1⟩ = 1 := by
    rw [stored₁]
    exact number
  apply ensures_bind
  refine OpenFile.ensures_new valid₀ (by rw [FreeMapSector, number₀]; exact valid₀) ?_
  rw [FreeMapSector, number₀]
  apply ensures_bind
  refine OpenFile.ensures_new valid₁ (by rw [DirectorySector, number₁]; exact valid₁) ?_
  rw [DirectorySector, number₁, stored₀, stored₁]
  apply ensures_bind
  refine BitMap.ensures_WriteBack marks.1 map ?_
  intro mapHdr' disk₂ agrees₂ header₂ same₂ frame₂
  apply ensures_bind
  have table : Directory.IsTableHeader dirHdr :=
    ⟨length, fun k bound => by rw [slots k bound]; constructor <;> simp <;> omega, by rw [number]; exact valid₁⟩
  refine Directory.ensures_WriteBack fresh.size table ?_ ?_ ?_
  · intro k bound
    rw [slots k bound, number]
    omega
  · intro k k' bound bound' same
    rw [slots k bound, slots k' bound'] at same
    omega
  · intro dirHdr' disk₃ agrees₃ header₃ same₃ frame₃
    rw [number] at header₃ frame₃
    apply ensures_pure
    have counters : Function.update (Function.update vis 0 (vis 0 + 1)) 1
        (Function.update vis 0 (vis 0 + 1) 1 + 1) = mountedCounters vis := by
      unfold mountedCounters
      rw [Function.update_of_ne (by decide : (1 : Int) ≠ 0)]
    rw [counters]
    have apart : ∀ s : Int, s = 0 ∨ s = 2 ∨ s < 0 ∨ 6 ≤ s → disk₃ s = disk₂ s := by
      intro s outside
      refine frame₃ s (by omega) fun k bound => ?_
      rw [slots k bound]
      omega
    have header₀ : headerAt disk₃ 0 = mapHdr' := by
      unfold headerAt
      rw [apart 0 (by omega), header₂]
    have header₁ : headerAt disk₃ 1 = dirHdr' := by
      unfold headerAt
      rw [header₃]
    have map' := map.agrees agrees₂
    have marked : ∀ s, (diskMap disk₃).Marked s ↔ 0 ≤ s ∧ s < 6 := by
      intro s
      rw [(diskMap_same (apart 2 (by omega))).marks, same₂.marks]
      exact marks.2 s
    refine holds _ _ ⟨?_, ⟨?_, ?_, ?_, by decide⟩, ⟨?_, ?_, ?_, by decide⟩, ?_, ?_, marked, ?_⟩ ⟨?_, ?_⟩
    · rw [header₀]
      exact map'
    · rw [header₀]
      exact map'.length
    · rw [header₀]
      exact agrees₂.numSectors.trans mapSectors
    · rw [header₀]
      exact map'.number
    · rw [header₁]
      exact agrees₃.numBytes.trans length
    · rw [header₁]
      exact agrees₃.numSectors.trans sectors
    · rw [header₁]
      exact agrees₃.sectorNumber.trans number
    · intro k bound
      rw [header₁, agrees₃.dataSectors (by omega)]
      exact slots k bound
    · unfold tableAt
      rw [header₁]
      exact fresh.congr same₃
    · intro s outside
      rw [apart s (by omega), frame₂ s (by omega) (by omega), ← start,
        Function.update_of_ne (by simp; omega), Function.update_of_ne (by simp; omega)]
    · unfold Current
      rw [header₀]
      exact Agrees.refl _
    · unfold Current
      rw [header₁]
      exact Agrees.refl _

theorem ensures_format {post : FileSystem → Disk → Counters → Prop}
    (holds : ∀ fs disk', Formatted disk disk' → Mounted fs disk' →
      post fs disk' (mountedCounters vis)) :
    Ensures FileSystem.format post fault disk vis := by
  have one : sectorsFor 128 = 1 := rfl
  have three : sectorsFor 360 = 3 := rfl
  unfold FileSystem.format
  apply ensures_bind
  refine BitMap.ensures_create ?_
  intro blank bits clear
  have marks₀ : blank.Prefix 0 := ⟨bits, fun s => ⟨fun set => absurd set (clear s), by omega⟩⟩
  apply ensures_bind
  apply ensures_bind
  apply ensures_uninitialized
  intro storage
  apply ensures_pure
  have rootValid : ValidSector rootSector := by decide
  have fresh := Directory.make_fresh storage rootValid rootValid
  apply ensures_bind
  apply ensures_bind
  apply ensures_uninitialized
  intro storage₁
  apply ensures_pure
  apply ensures_bind
  apply ensures_bind
  apply ensures_uninitialized
  intro storage₂
  apply ensures_pure
  apply ensures_bind
  obtain ⟨marked₁, computed₁, marks₁⟩ := marks₀.mark (by omega)
  refine ensures_checked computed₁ ?_
  apply ensures_bind
  obtain ⟨marked₂, computed₂, marks₂⟩ := marks₁.mark (by omega)
  refine ensures_checked computed₂ ?_
  apply ensures_bind
  refine ensures_Allocate_prefix marks₂ (by decide) (by decide) (by decide) ?_
  intro mapHdr after₁ mapBytes mapSectors mapSlots marks₃
  apply ensures_bind
  refine ensures_ASSERT rfl ?_
  apply ensures_bind
  refine ensures_Allocate_prefix marks₃ (by decide) (by decide) (by decide) ?_
  intro dirHdr after₂ dirBytes dirSectors dirSlots marks₄
  apply ensures_bind
  refine ensures_ASSERT rfl ?_
  -- setting the header's own number leaves the other fields alone
  have kept : ∀ (hdr : FileHeader) (value : Int) (offset : Nat), offset + 4 ≤ 124 →
      (hdr.setSectorNumber value).field offset = hdr.field offset := fun hdr value offset bound =>
    field_setField_of_disjoint (by omega) (by omega)
  refine ensures_install ⟨?_, ?_, ?_⟩ ?_ ?_ ?_ ?_ ?_ marks₄ fresh holds
  · exact (kept _ _ _ (by omega)).trans mapBytes
  · exact (kept _ _ _ (by omega)).trans (mapSlots 0 (by decide))
  · exact field_setField_self (by omega) (by decide) (by decide)
  · exact (kept _ _ _ (by omega)).trans mapSectors
  · exact (kept _ _ _ (by omega)).trans dirBytes
  · exact (kept _ _ _ (by omega)).trans dirSectors
  · intro k bound
    exact (kept _ _ _ (by omega)).trans (dirSlots k bound)
  · exact field_setField_self (by omega) (by decide) (by decide)

end Nachos
