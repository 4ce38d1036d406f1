import Nachos.Filesys.Refinement

/-! Runs on one directory in which no file grows beyond eight sectors. Handles
may share a file, so a header written back through an old handle can replace a
newer one and lose sectors: they stay marked and belong to no file on disk. A
deed remembers which file a sector was handed out for. Every header, on disk
and in a handle, lists sectors deeded to its own file, and that is enough for
the files to stay apart in every state such a run reaches. -/
namespace Nachos
open Effects FileHeader OpenFile

/-- The file, by its header sector, that each sector was handed out for. -/
abbrev Deeds := Int → Option Int

/-- A header, on disk or in a handle, of a file of `len` bytes in sector `h`. -/
structure Deeded (deeds : Deeds) (hdr : FileHeader) (h : Int) (len : Nat) : Prop where
  length : hdr.numBytes = len
  sectors : hdr.numSectors = sectorsFor len
  small : sectorsFor len ≤ 8
  number : hdr.sectorNumber = h
  owned : ∀ k, k < sectorsFor len → deeds (hdr.dataSectors k) = some h
  distinct : (hdr.slots 0 (sectorsFor len)).Nodup

/-- One flat directory of small files, each within its deeds. -/
structure Stocked (layout : Layout) (deeds : Deeds) (disk : Disk) : Prop where
  sheltered : Sheltered layout disk
  flat : layout.dirs = {1}
  files : ∀ h ∈ layout.files, ∃ len, Deeded deeds (headerAt disk h) h len
  known : ∀ s h, deeds s = some h → h ∈ layout.files
  marked : ∀ s h, deeds s = some h → (diskMap disk).Marked s
  apart : ∀ s h, deeds s = some h → ¬ layout.Head s ∧ s ≠ 2 ∧
    ∀ k, k < 3 → s ≠ (headerAt disk 1).dataSectors k

section Deeds

variable {layout : Layout} {deeds deeds' : Deeds} {disk disk' : Disk} {hdr hdr' : FileHeader}
  {h q s : Int} {len : Nat}

theorem Deeded.agrees (deeded : Deeded deeds hdr h len) (agrees : Agrees hdr' hdr) :
    Deeded deeds hdr' h len := by
  have small := deeded.small
  have slot : ∀ k, k < sectorsFor len → hdr'.dataSectors k = hdr.dataSectors k := fun k bound =>
    agrees.dataSectors (by omega)
  refine ⟨agrees.numBytes.trans deeded.length, agrees.numSectors.trans deeded.sectors, small,
    agrees.sectorNumber.trans deeded.number, fun k bound => ?_, ?_⟩
  · rw [slot k bound]
    exact deeded.owned k bound
  · have same : hdr'.slots 0 (sectorsFor len) = hdr.slots 0 (sectorsFor len) :=
      slots_congr fun i bound => agrees.dataSectors (by omega)
    rw [same]
    exact deeded.distinct

theorem Deeded.mono (deeded : Deeded deeds hdr h len)
    (more : ∀ s, deeds s = some h → deeds' s = some h) : Deeded deeds' hdr h len :=
  { deeded with owned := fun k bound => more _ (deeded.owned k bound) }

/-- What a small file lays claim to besides its header is deeded to it. -/
theorem Deeded.part {part : Part} (deeded : Deeded deeds (headerAt disk h) h len)
    (owned : HasPart disk h part s) (data : part ≠ .header) : deeds s = some h := by
  have small := deeded.small
  have sectors := deeded.sectors
  cases part with
  | header => exact absurd rfl data
  | data k =>
    obtain ⟨inside, rfl⟩ := owned
    rw [dataSector_direct (by omega)]
    exact deeded.owned k (by omega)
  | indirect =>
    have large := owned.1
    omega

theorem Deeded.claimed (deeded : Deeded deeds (headerAt disk h) h len) :
    claimed disk h = h :: (headerAt disk h).slots 0 (sectorsFor len) :=
  claimed_direct deeded.sectors deeded.small

namespace Stocked

theorem notMap (stocked : Stocked layout deeds disk) (known : h ∈ layout.files) : h ≠ 0 := by
  rintro rfl
  exact stocked.sheltered.mapAlone.2 known

theorem notRoot (stocked : Stocked layout deeds disk) (known : h ∈ layout.files) : h ≠ 1 := by
  rintro rfl
  exact stocked.sheltered.kinds 1 stocked.sheltered.root known

/-- Nobody but the file in question lays claim to a deeded sector. -/
theorem claim_owner {part : Part} (stocked : Stocked layout deeds disk) (deed : deeds s = some h)
    (known : layout.Head q) (owned : HasPart disk q part s) : q = h := by
  have sheltered := stocked.sheltered
  obtain ⟨notHead, notTwo, notSlot⟩ := stocked.apart s h deed
  by_cases data : part = .header
  · subst data
    obtain rfl : s = q := owned
    exact absurd known notHead
  rcases known with rfl | dir | file
  · have sectors := sheltered.map_headed.sectors
    have one : sectorsFor 128 = 1 := rfl
    cases part with
    | header => exact absurd rfl data
    | data k =>
      obtain ⟨inside, rfl⟩ := owned
      obtain rfl : k = 0 := by omega
      rw [dataSector_direct (by omega), sheltered.map.slot] at notTwo
      exact absurd rfl notTwo
    | indirect =>
      have large := owned.1
      omega
  · rw [stocked.flat] at dir
    obtain rfl : q = 1 := dir
    have sectors := (sheltered.tables 1 sheltered.root).sectors
    have three : sectorsFor 360 = 3 := rfl
    cases part with
    | header => exact absurd rfl data
    | data k =>
      obtain ⟨inside, rfl⟩ := owned
      exact absurd (dataSector_direct (by omega)) (notSlot k (by omega))
    | indirect =>
      have large := owned.1
      omega
  · obtain ⟨len, deeded⟩ := stocked.files q file
    exact Option.some.inj ((deeded.part owned data).symm.trans deed)

/-- An entry of the directory names the directory itself or a file. -/
theorem entry {i : Nat} (stocked : Stocked layout deeds disk) (bound : i < 10)
    (used : (tableAt disk 1).inUse i = true) : (tableAt disk 1).sector i = 1 ∨
      (tableAt disk 1).sector i ∈ layout.files ∧ (tableAt disk 1).type i ≠ 0 := by
  have sheltered := stocked.sheltered
  by_cases low : 2 ≤ i
  · have node := (sheltered.child sheltered.root low bound used).2
    by_cases kind : (tableAt disk 1).type i = 0
    · rw [decide_eq_true kind] at node
      have dir : (tableAt disk 1).sector i ∈ layout.dirs := node
      rw [stocked.flat] at dir
      exact .inl dir
    · rw [decide_eq_false kind] at node
      exact .inr ⟨node, kind⟩
  · obtain rfl | rfl : i = 0 ∨ i = 1 := by omega
    · exact .inl sheltered.rootSelf.1
    · exact .inl sheltered.rootSelf.2.1

/-- A header within its deeds can be used by itself. -/
theorem header (stocked : Stocked layout deeds disk) (known : h ∈ layout.files)
    (deeded : Deeded deeds hdr h len) : ConsistentHeader disk hdr len := by
  have sheltered := stocked.sheltered
  have head : layout.Head h := .inr (.inr known)
  obtain ⟨notMap, notTwo⟩ := sheltered.file_apart known
  refine ⟨deeded.length, deeded.sectors, deeded.small, ?_, fun k bound => ?_, fun k bound => ?_,
    deeded.distinct, sheltered.map, ?_⟩
  · rw [deeded.number]
    exact ⟨sheltered.head_marked head, notMap, notTwo⟩
  · exact stocked.marked _ h (deeded.owned k bound)
  · obtain ⟨notHead, two, -⟩ := stocked.apart _ h (deeded.owned k bound)
    rw [deeded.number]
    exact ⟨fun same => notHead (same ▸ head), fun same => notHead (.inl same), two⟩
  · exact ⟨sheltered.head_marked (.inl rfl), sheltered.part_marked (.inl rfl) sheltered.map_data⟩

/-- Clock texts do not matter. -/
theorem quiet (stocked : Stocked layout deeds disk) (quiet : Quiet layout disk disk') :
    Stocked layout deeds disk' := by
  have sheltered := stocked.sheltered
  have root := quiet.agrees (.inr (.inl sheltered.root))
  refine ⟨quiet.sheltered sheltered, stocked.flat, fun h file => ?_, stocked.known,
    fun s h deed => ?_, fun s h deed => ?_⟩
  · obtain ⟨len, deeded⟩ := stocked.files h file
    exact ⟨len, deeded.agrees (quiet.agrees (.inr (.inr file)))⟩
  · exact ((quiet.map sheltered).marks s).mpr (stocked.marked s h deed)
  · obtain ⟨notHead, notTwo, notSlot⟩ := stocked.apart s h deed
    refine ⟨notHead, notTwo, fun k bound => ?_⟩
    rw [root.dataSectors (by omega)]
    exact notSlot k bound

end Stocked

/-! ## Accesses through a handle -/

/-- The effect of an access through a header of file `h`: that header is on disk now, the
other files are left alone, and what is newly deeded was free. -/
structure Stored (layout : Layout) (deeds deeds' : Deeds) (disk disk' : Disk) (h : Int)
    (hdr' : FileHeader) : Prop where
  file : h ∈ layout.files
  header : disk' h = hdr'.raw
  copy : ∃ len, Deeded deeds' hdr' h len
  map : Agrees (headerAt disk' 0) (headerAt disk 0)
  marks : ∀ s, (diskMap disk).Marked s → (diskMap disk').Marked s
  more : ∀ s, deeds' s = deeds s ∨
    deeds' s = some h ∧ ¬ (diskMap disk).Marked s ∧ (diskMap disk').Marked s
  others : ∀ s, s ≠ h → s ≠ 0 → s ≠ 2 → deeds' s ≠ some h → disk' s = disk s

namespace Stored

theorem stored_header (stored : Stored layout deeds deeds' disk disk' h hdr') :
    headerAt disk' h = hdr' := by
  unfold headerAt
  rw [stored.header]

/-- Deeds that were given stay. -/
theorem deed (stored : Stored layout deeds deeds' disk disk' h hdr')
    (stocked : Stocked layout deeds disk) (given : deeds s = some q) : deeds' s = some q := by
  obtain same | ⟨-, clear, -⟩ := stored.more s
  · exact same.trans given
  · exact absurd (stocked.marked s q given) clear

/-- A marked sector that was not the file's is left alone. -/
theorem kept (stored : Stored layout deeds deeds' disk disk' h hdr')
    (marked : (diskMap disk).Marked s) (other : deeds s ≠ some h) (notHeader : s ≠ h)
    (notMap : s ≠ 0) (notTwo : s ≠ 2) : disk' s = disk s := by
  refine stored.others s notHeader notMap notTwo fun given => ?_
  obtain same | ⟨-, clear, -⟩ := stored.more s
  · exact other (same.symm.trans given)
  · exact clear marked

theorem other_header (stored : Stored layout deeds deeds' disk disk' h hdr')
    (stocked : Stocked layout deeds disk) (known : layout.Head q) (other : q ≠ h) :
    Agrees (headerAt disk' q) (headerAt disk q) := by
  by_cases notMap : q = 0
  · subst notMap
    exact stored.map
  · rw [headerAt_congr (stored.kept (stocked.sheltered.head_marked known) ?_ other notMap ?_)]
    · exact Agrees.refl _
    · exact fun given => (stocked.apart q h given).1 known
    · rintro rfl
      exact stocked.sheltered.two_not_head known

theorem root_header (stored : Stored layout deeds deeds' disk disk' h hdr')
    (stocked : Stocked layout deeds disk) : Agrees (headerAt disk' 1) (headerAt disk 1) :=
  stored.other_header stocked (.inr (.inl stocked.sheltered.root)) (stocked.notRoot stored.file).symm

theorem root_slot (stored : Stored layout deeds deeds' disk disk' h hdr')
    (stocked : Stocked layout deeds disk) {k : Nat} (bound : k < 3) :
    disk' ((headerAt disk 1).dataSectors k) = disk ((headerAt disk 1).dataSectors k) := by
  have sheltered := stocked.sheltered
  have root : layout.Head 1 := .inr (.inl sheltered.root)
  have owned := sheltered.table_slot sheltered.root bound
  have notHead := sheltered.not_head root owned (by simp)
  refine stored.kept (sheltered.part_marked root owned) (fun given => ?_) ?_ ?_ ?_
  · exact (stocked.apart _ h given).2.2 k bound rfl
  · exact fun same => notHead (same ▸ .inr (.inr stored.file))
  · exact fun same => notHead (.inl same)
  · exact sheltered.ne_two root owned (.inl (by decide))

theorem same_table (stored : Stored layout deeds deeds' disk disk' h hdr')
    (stocked : Stocked layout deeds disk) :
    Directory.Same (tableAt disk' 1) (tableAt disk 1) :=
  Directory.tableOf_congr (fun k bound => (stored.root_header stocked).dataSectors (by omega))
    fun k bound => stored.root_slot stocked bound

theorem other_part {part : Part} (stored : Stored layout deeds deeds' disk disk' h hdr')
    (stocked : Stocked layout deeds disk) (known : layout.Head q) (other : q ≠ h) :
    HasPart disk' q part s ↔ HasPart disk q part s := by
  refine hasPart_congr (stored.other_header stocked known other) fun large => ?_
  have sheltered := stocked.sheltered
  have owned : HasPart disk q .indirect ((headerAt disk q).dataSectors 8) := ⟨large, rfl⟩
  have notHead := sheltered.not_head known owned (by simp)
  refine stored.kept (sheltered.part_marked known owned) (fun given => ?_) ?_ ?_ ?_
  · exact other (stocked.claim_owner given known owned)
  · exact fun same => notHead (same ▸ .inr (.inr stored.file))
  · exact fun same => notHead (.inl same)
  · exact sheltered.ne_two known owned (.inr (by simp))

/-- The files stay apart, although the header on disk may list other sectors than
before. -/
theorem storage (stored : Stored layout deeds deeds' disk disk' h hdr')
    (stocked : Stocked layout deeds disk) :
    Shelter (Claims layout disk') (diskMap disk').Marked := by
  have sheltered := stocked.sheltered
  have head : layout.Head h := .inr (.inr stored.file)
  obtain ⟨len, deeded⟩ := stored.copy
  rw [← stored.stored_header] at deeded
  have distinct : (claimed disk' h).Nodup := by
    rw [deeded.claimed]
    refine List.nodup_cons.mpr ⟨fun member => ?_, deeded.distinct⟩
    obtain ⟨k, bound, same⟩ := mem_slots.mp member
    rw [Nat.zero_add] at same
    have given := deeded.owned k bound
    rw [same] at given
    obtain old | ⟨-, clear, -⟩ := stored.more h
    · exact (stocked.apart h h (old.symm.trans given)).1 head
    · exact clear (sheltered.head_marked head)
  refine sheltered.storage.exchange (fun key => key.1 = h) (fun key s => HasPart disk' h key.2 s)
    ?_ stored.marks ?_ ?_ ?_
  · rintro ⟨q, part⟩ s
    by_cases own : q = h
    · subst own
      simp only [Claims, head, true_and, not_true_eq_false, and_false, false_or]
    · simp only [Claims, own, not_false_eq_true, and_true, false_and, or_false]
      exact and_congr_right fun known => stored.other_part stocked known own
  · rintro ⟨q, part⟩ s - owned
    by_cases data : part = .header
    · subst data
      obtain rfl : s = h := owned
      exact stored.marks _ (sheltered.head_marked head)
    · have given := deeded.part owned data
      obtain same | ⟨-, -, marked⟩ := stored.more s
      · exact stored.marks s (stocked.marked s h (same.symm.trans given))
      · exact marked
  · rintro ⟨q, part⟩ ⟨q', part'⟩ s own own' first second
    exact Prod.ext (own.trans own'.symm) (part_unique distinct first second)
  · rintro ⟨q, part⟩ ⟨q', part'⟩ s ⟨known, owned⟩ other - new
    by_cases data : part' = .header
    · subst data
      obtain rfl : s = h := new
      exact other (congrArg Prod.fst (sheltered.storage.single (q, part) (s, .header) s
        ⟨known, owned⟩ ⟨head, rfl⟩))
    · have given := deeded.part new data
      obtain same | ⟨-, clear, -⟩ := stored.more s
      · exact other (stocked.claim_owner (same.symm.trans given) known owned)
      · exact clear (sheltered.part_marked known owned)

theorem stocked (stored : Stored layout deeds deeds' disk disk' h hdr')
    (before : Stocked layout deeds disk) : Stocked layout deeds' disk' := by
  have sheltered := before.sheltered
  have file : ∀ q ∈ layout.files, ∃ len, Deeded deeds' (headerAt disk' q) q len := by
    intro q known
    by_cases own : q = h
    · subst own
      rw [stored.stored_header]
      exact stored.copy
    · obtain ⟨len, deeded⟩ := before.files q known
      exact ⟨len, (deeded.agrees (stored.other_header before (.inr (.inr known)) own)).mono
        fun s given => stored.deed before given⟩
  have root : Headed disk' 1 360 := by
    have agrees := stored.root_header before
    obtain ⟨length, sectors, number, fits⟩ := sheltered.tables 1 sheltered.root
    exact ⟨agrees.numBytes.trans length, agrees.numSectors.trans sectors,
      agrees.sectorNumber.trans number, fits⟩
  have only : ∀ q ∈ layout.dirs, q = 1 := fun q dir => by
    rw [before.flat] at dir
    exact dir
  refine ⟨sheltered.same_tables (stored.storage before) (sheltered.map.agrees stored.map) ?_ ?_ ?_,
    before.flat, file, ?_, ?_, ?_⟩
  · rintro q (rfl | dir | known)
    · obtain ⟨length, sectors, number, fits⟩ := sheltered.map_headed
      exact ⟨128, stored.map.numBytes.trans length, stored.map.numSectors.trans sectors,
        stored.map.sectorNumber.trans number, fits⟩
    · rw [only q dir]
      exact ⟨360, root⟩
    · obtain ⟨len, deeded⟩ := file q known
      exact ⟨len, deeded.length, deeded.sectors, deeded.number, deeded.small.trans (by omega)⟩
  · intro q dir
    rw [only q dir]
    exact root
  · intro q dir
    rw [only q dir]
    exact stored.same_table before
  · intro s q given
    obtain same | ⟨new, -, -⟩ := stored.more s
    · exact before.known s q (same.symm.trans given)
    · obtain rfl := Option.some.inj (new.symm.trans given)
      exact stored.file
  · intro s q given
    obtain same | ⟨-, -, marked⟩ := stored.more s
    · exact stored.marks s (before.marked s q (same.symm.trans given))
    · exact marked
  · intro s q given
    have slot : ∀ k, k < 3 → (headerAt disk' 1).dataSectors k = (headerAt disk 1).dataSectors k :=
      fun k bound => (stored.root_header before).dataSectors (by omega)
    obtain same | ⟨-, clear, -⟩ := stored.more s
    · obtain ⟨notHead, notTwo, notSlot⟩ := before.apart s q (same.symm.trans given)
      exact ⟨notHead, notTwo, fun k bound => by rw [slot k bound]; exact notSlot k bound⟩
    · refine ⟨fun known => clear (sheltered.head_marked known), ?_, fun k bound => ?_⟩
      · rintro rfl
        exact clear (sheltered.part_marked (.inl rfl) sheltered.map_data)
      · rw [slot k bound]
        rintro rfl
        exact clear (sheltered.part_marked (.inr (.inl sheltered.root))
          (sheltered.table_slot sheltered.root bound))

end Stored

/-- Writing a header back with another clock text. -/
theorem Stocked.clock (stocked : Stocked layout deeds disk) (known : h ∈ layout.files)
    (deeded : Deeded deeds hdr h len) (agrees : Agrees hdr' hdr) :
    Stored layout deeds deeds disk (Function.update disk h hdr'.raw) h hdr' := by
  obtain ⟨notMap, notTwo⟩ := stocked.sheltered.file_apart known
  have map : diskMap (Function.update disk h hdr'.raw) = diskMap disk := by
    unfold diskMap
    rw [Function.update_of_ne notTwo.symm]
  refine ⟨known, Function.update_self .., ⟨len, deeded.agrees agrees⟩, ?_, ?_, fun _ => .inl rfl,
    fun s other _ _ _ => Function.update_of_ne other ..⟩
  · rw [headerAt_congr (Function.update_of_ne notMap.symm ..)]
    exact Agrees.refl _
  · rw [map]
    exact fun _ marked => marked

/-- The deeds after these sectors were handed out to `h`. -/
def Deeds.grant (deeds : Deeds) (h : Int) (sectors : List Int) : Deeds := fun s =>
  if s ∈ sectors then some h else deeds s

theorem Deeds.grant_new {sectors : List Int} (member : s ∈ sectors) :
    deeds.grant h sectors s = some h := if_pos member

theorem Deeds.grant_old {sectors : List Int} (other : s ∉ sectors) :
    deeds.grant h sectors s = deeds s := if_neg other

/-- A write through a header within its deeds stays there. -/
theorem Stocked.written {source : Memory} {n pos : Nat} (stocked : Stocked layout deeds disk)
    (known : h ∈ layout.files) (deeded : Deeded deeds hdr h len)
    (written : Written disk disk' hdr hdr' source pos n len)
    (fits : sectorsFor (max len (pos + n)) ≤ 8) :
    Stored layout deeds (deeds.grant h (hdr'.slots (sectorsFor len)
      (sectorsFor (max len (pos + n)) - sectorsFor len))) disk disk' h hdr' := by
  have header := stocked.header known deeded
  have after := header.written written fits
  have small := deeded.small
  generalize granted : hdr'.slots (sectorsFor len)
    (sectorsFor (max len (pos + n)) - sectorsFor len) = sectors
  have taken := written.taken
  rw [granted] at taken
  -- every slot of the new header is an old one or newly granted
  have owned : ∀ k, k < sectorsFor (max len (pos + n)) →
      deeds.grant h sectors (hdr'.dataSectors k) = some h := by
    intro k bound
    by_cases member : hdr'.dataSectors k ∈ sectors
    · exact Deeds.grant_new member
    · have old : k < sectorsFor len := by
        by_contra new
        refine member (granted ▸ mem_slots.mpr ⟨k - sectorsFor len, by omega, ?_⟩)
        rw [Nat.add_sub_cancel' (by omega)]
      rw [Deeds.grant_old member, written.slots k (by omega) (.inl old)]
      exact deeded.owned k old
  refine ⟨known, ?_, ⟨_, after.length, after.sectors, after.small, written.number.trans deeded.number,
    owned, after.distinct⟩, written.map, fun s => ?_, fun s => ?_, fun s notHeader notMap notTwo other => ?_⟩
  · have stored := written.header
    rwa [deeded.number] at stored
  · exact fun marked => (taken.exactly s).mpr (.inl marked)
  · by_cases member : s ∈ sectors
    · exact .inr ⟨Deeds.grant_new member, (taken.fresh s member).2.2,
        (taken.exactly s).mpr (.inr member)⟩
    · exact .inl (Deeds.grant_old member)
  · refine written.frame s (by rwa [deeded.number]) notMap notTwo fun k _ high same => other ?_
    have bound : k < sectorsFor (max len (pos + n)) := lt_sectorsFor_iff.mpr (by omega)
    rw [same, blockSector_direct (by omega)]
    exact owned k bound

/-! ## Creation and removal -/

/-- A new file of up to eight sectors. -/
theorem Created.stocked {hs : Int} {i : Nat} {name : Name}
    (created : Created layout disk disk' 1 hs i name false len) (before : Stocked layout deeds disk)
    (fits : sectorsFor len ≤ 8) :
    Stocked (layout.add hs false)
      (deeds.grant hs ((headerAt disk' hs).slots 0 (sectorsFor len))) disk' := by
  have sheltered := before.sheltered
  obtain ⟨length, sectors, number, -⟩ := created.headed
  have taken := created.taken
  rw [claimed_direct sectors fits] at taken
  generalize granted : (headerAt disk' hs).slots 0 (sectorsFor len) = slots at taken
  have distinct := List.nodup_cons.mp taken.distinct
  have fresh : ∀ s, s ∈ slots → ¬ (diskMap disk).Marked s := fun s member =>
    (taken.fresh s (List.mem_cons_of_mem _ member)).2.2
  have old : ∀ s q, deeds s = some q → deeds.grant hs slots s = some q := fun s q given =>
    (Deeds.grant_old fun member => fresh s member (before.marked s q given)).trans given
  have header : ∀ q, layout.Head q → Agrees (headerAt disk' q) (headerAt disk q) := fun q known =>
    created.frame.headers q known (created.header_unchanged sheltered known)
  have slot : ∀ k, k < 3 → (headerAt disk' 1).dataSectors k = (headerAt disk 1).dataSectors k :=
    fun k bound => (header 1 (.inr (.inl sheltered.root))).dataSectors (by omega)
  refine ⟨created.sheltered sheltered, before.flat, fun q known => ?_, fun s q given => ?_,
    fun s q given => ?_, fun s q given => ?_⟩
  · rcases known with rfl | known
    · refine ⟨len, length, sectors, fits, number, fun k bound => Deeds.grant_new ?_, ?_⟩
      · rw [← granted]
        exact mem_slots.mpr ⟨k, bound, by rw [Nat.zero_add]⟩
      · rw [granted]
        exact distinct.2
    · obtain ⟨len', deeded⟩ := before.files q known
      exact ⟨len', (deeded.agrees (header q (.inr (.inr known)))).mono fun s => old s q⟩
  · by_cases member : s ∈ slots
    · rw [Deeds.grant_new member] at given
      obtain rfl := Option.some.inj given
      exact .inl rfl
    · rw [Deeds.grant_old member] at given
      exact .inr (before.known s q given)
  · by_cases member : s ∈ slots
    · exact (taken.exactly s).mpr (.inr (List.mem_cons_of_mem _ member))
    · rw [Deeds.grant_old member] at given
      exact (taken.exactly s).mpr (.inl (before.marked s q given))
  · rw [Layout.head_add]
    by_cases member : s ∈ slots
    · have clear := fresh s member
      refine ⟨?_, ?_, fun k bound => ?_⟩
      · rintro (known | rfl)
        · exact clear (sheltered.head_marked known)
        · exact distinct.1 member
      · rintro rfl
        exact clear (sheltered.part_marked (.inl rfl) sheltered.map_data)
      · rw [slot k bound]
        rintro rfl
        exact clear (sheltered.part_marked (.inr (.inl sheltered.root))
          (sheltered.table_slot sheltered.root bound))
    · rw [Deeds.grant_old member] at given
      obtain ⟨notHead, notTwo, notSlot⟩ := before.apart s q given
      refine ⟨?_, notTwo, fun k bound => by rw [slot k bound]; exact notSlot k bound⟩
      rintro (known | rfl)
      · exact notHead known
      · exact created.header_fresh.1 (before.marked s q given)

/-- The deeds without those of `h`. -/
def Deeds.void (deeds : Deeds) (h : Int) : Deeds := fun s =>
  if deeds s = some h then none else deeds s

theorem Deeds.void_some : deeds.void h s = some q ↔ deeds s = some q ∧ q ≠ h := by
  unfold Deeds.void
  split
  · rename_i own
    rw [own]
    simp [eq_comm]
  · rename_i other
    refine ⟨fun given => ⟨given, ?_⟩, And.left⟩
    rintro rfl
    exact other given

theorem Removed.stocked {e : Int} {i : Nat} {isDir : Bool}
    (removed : Removed layout disk disk' 1 e i isDir) (before : Stocked layout deeds disk) :
    Stocked (layout.remove e) (deeds.void e) disk' := by
  have sheltered := before.sheltered
  obtain ⟨node, notMap, notRoot⟩ := removed.node sheltered
  have header : ∀ q, layout.Head q → Agrees (headerAt disk' q) (headerAt disk q) := fun q known =>
    removed.frame.headers q known (removed.header_unchanged sheltered known)
  refine ⟨removed.sheltered sheltered, ?_, fun q known => ?_, fun s q given => ?_,
    fun s q given => ?_, fun s q given => ?_⟩
  · show layout.dirs \ {e} = {1}
    rw [before.flat]
    exact Set.sdiff_singleton_eq_self fun same => notRoot same
  · obtain ⟨known, other⟩ : q ∈ layout.files ∧ q ≠ e := known
    obtain ⟨len, deeded⟩ := before.files q known
    refine ⟨len, (deeded.agrees (header q (.inr (.inr known)))).mono fun s given => ?_⟩
    exact Deeds.void_some.mpr ⟨given, other⟩
  · obtain ⟨given, other⟩ := Deeds.void_some.mp given
    exact ⟨before.known s q given, other⟩
  · obtain ⟨deed, other⟩ := Deeds.void_some.mp given
    refine (removed.marks sheltered s).mpr ⟨before.marked s q deed, ?_⟩
    rintro ⟨p, part⟩ own ⟨known, owned⟩
    exact other ((before.claim_owner deed known owned).symm.trans own)
  · obtain ⟨given, -⟩ := Deeds.void_some.mp given
    obtain ⟨notHead, notTwo, notSlot⟩ := before.apart s q given
    refine ⟨fun known => notHead ((Layout.head_remove notMap).mp known).1, notTwo, fun k bound => ?_⟩
    rw [(header 1 (.inr (.inl sheltered.root))).dataSectors (by omega)]
    exact notSlot k bound

/-- A formatted disk has no files and no deeds. -/
theorem Formatted.stocked {before : Disk} (formatted : Formatted before disk) :
    Stocked emptyLayout (fun _ => none) disk where
  sheltered := formatted.sheltered
  flat := rfl
  files := fun _ known => known.elim
  known := fun _ _ given => by cases given
  marked := fun _ _ given => by cases given
  apart := fun _ _ given => by cases given

end Deeds

/-! ## Sessions -/

/-- What a handle may hold: the root's header as it is on disk, or a header, however old,
of a file in use. -/
def Backed (layout : Layout) (deeds : Deeds) (disk : Disk) (file : OpenFile) : Prop :=
  Current disk file 1 ∨ ∃ h ∈ layout.files, ∃ len, Deeded deeds file.hdr h len

/-- A session on a flat directory of small files. The counters are exact, except that
handles on the root are left open. -/
structure Sturdy (layout : Layout) (deeds : Deeds) (session : Session) (disk : Disk)
    (vis : Counters) : Prop where
  stocked : Stocked layout deeds disk
  mounted : Mounted session.fs disk
  handles : ∀ i file, session.file i = some file → Backed layout deeds disk file
  root : session.openOn 1 < vis 1
  counters : ∀ s, s ≠ 0 → s ≠ 1 → vis s = session.openOn s

section Sessions

variable {layout layout' : Layout} {deeds deeds' : Deeds} {disk disk' : Disk} {vis vis' : Counters}
  {session : Session} {fs : FileSystem} {file file' : OpenFile} {h s : Int} {i : Nat}

theorem Backed.quiet (backed : Backed layout deeds disk file) (sheltered : Sheltered layout disk)
    (quiet : Quiet layout disk disk') : Backed layout deeds disk' file :=
  backed.imp (fun current => current.quiet quiet (.inr (.inl sheltered.root))) id

theorem Backed.stored {hdr' : FileHeader} (backed : Backed layout deeds disk file)
    (stocked : Stocked layout deeds disk) (stored : Stored layout deeds deeds' disk disk' h hdr') :
    Backed layout deeds' disk' file := by
  rcases backed with current | ⟨q, known, len, deeded⟩
  · exact .inl (Agrees.trans current (stored.root_header stocked).symm)
  · exact .inr ⟨q, known, len, deeded.mono fun s given => stored.deed stocked given⟩

theorem Stored.mounted {hdr' : FileHeader} (stored : Stored layout deeds deeds' disk disk' h hdr')
    (stocked : Stocked layout deeds disk) (mounted : Mounted fs disk) : Mounted fs disk' :=
  ⟨Agrees.trans mounted.map stored.map.symm,
    Agrees.trans mounted.root (stored.root_header stocked).symm⟩

theorem Backed.head (backed : Backed layout deeds disk file) (sheltered : Sheltered layout disk) :
    layout.Head file.hdr.sectorNumber := by
  rcases backed with current | ⟨q, known, len, deeded⟩
  · have root : layout.Head 1 := .inr (.inl sheltered.root)
    rw [sheltered.number root current]
    exact root
  · rw [deeded.number]
    exact .inr (.inr known)

namespace Sturdy

theorem sheltered (sturdy : Sturdy layout deeds session disk vis) : Sheltered layout disk :=
  sturdy.stocked.sheltered

theorem busy (sturdy : Sturdy layout deeds session disk vis) : 0 < vis 1 := by
  have root := sturdy.root
  omega

/-- A sector with an open handle has a counter that is not zero. -/
theorem not_open (sturdy : Sturdy layout deeds session disk vis)
    (opened : session.file i = some file) : vis file.hdr.sectorNumber ≠ 0 := by
  have positive := Session.openOn_pos opened
  have notMap : file.hdr.sectorNumber ≠ 0 := by
    rcases sturdy.handles i file opened with current | ⟨q, known, len, deeded⟩
    · rw [sturdy.sheltered.number (.inr (.inl sturdy.sheltered.root)) current]
      decide
    · rw [deeded.number]
      exact sturdy.stocked.notMap known
  by_cases root : file.hdr.sectorNumber = 1
  · rw [root]
    exact sturdy.busy.ne'
  · rw [sturdy.counters _ notMap root]
    omega

/-- The counter of a sector that is no header is zero. -/
theorem uncounted (sturdy : Sturdy layout deeds session disk vis) (notHead : ¬ layout.Head s) :
    vis s = 0 := by
  rw [sturdy.counters s (fun same => notHead (.inl same))
    fun same => notHead (same ▸ .inr (.inl sturdy.sheltered.root))]
  by_contra counted
  obtain ⟨j, file, opened, rfl⟩ := Session.exists_open (show 0 < session.openOn s by omega)
  exact notHead ((sturdy.handles j file opened).head sturdy.sheltered)

/-- The disk and the file system change, the handles stay. -/
theorem replace (sturdy : Sturdy layout deeds session disk vis)
    (stocked : Stocked layout' deeds' disk') (mounted : Mounted fs disk')
    (kept : ∀ i file, session.file i = some file → Backed layout deeds disk file →
      Backed layout' deeds' disk' file)
    (root : vis 1 ≤ vis' 1) (same : ∀ s, s ≠ 0 → s ≠ 1 → vis' s = vis s) :
    Sturdy layout' deeds' { session with fs := fs } disk' vis' where
  stocked := stocked
  mounted := mounted
  handles := fun i file opened => kept i file opened (sturdy.handles i file opened)
  root := lt_of_lt_of_le sturdy.root root
  counters := fun s notMap notRoot =>
    (same s notMap notRoot).trans (sturdy.counters s notMap notRoot)

theorem quiet (sturdy : Sturdy layout deeds session disk vis) (quiet : Quiet layout disk disk')
    (mounted : Mounted fs disk') (root : vis 1 ≤ vis' 1)
    (same : ∀ s, s ≠ 0 → s ≠ 1 → vis' s = vis s) :
    Sturdy layout deeds { session with fs := fs } disk' vis' :=
  sturdy.replace (sturdy.stocked.quiet quiet) mounted
    (fun _ _ _ backed => backed.quiet sturdy.sheltered quiet) root same

theorem created {hs : Int} {len : Nat} {name : Name} (sturdy : Sturdy layout deeds session disk vis)
    (created : Created layout disk disk' 1 hs i name false len) (fits : sectorsFor len ≤ 8)
    (mounted : Mounted fs disk') (root : vis 1 ≤ vis' 1)
    (same : ∀ s, s ≠ 0 → s ≠ 1 → vis' s = vis s) :
    Sturdy (layout.add hs false)
      (deeds.grant hs ((headerAt disk' hs).slots 0 (sectorsFor len)))
      { session with fs := fs } disk' vis' := by
  have sheltered := sturdy.sheltered
  have taken := created.taken
  rw [claimed_direct created.headed.sectors fits] at taken
  refine sturdy.replace (created.stocked sturdy.stocked fits) mounted ?_ root same
  rintro j file - (current | ⟨q, known, len', deeded⟩)
  · have root : layout.Head 1 := .inr (.inl sheltered.root)
    exact .inl (Agrees.trans current
      (created.frame.headers 1 root (created.header_unchanged sheltered root)).symm)
  · refine .inr ⟨q, .inr known, len', deeded.mono fun s given => ?_⟩
    refine (Deeds.grant_old fun member => ?_).trans given
    exact (taken.fresh s (List.mem_cons_of_mem _ member)).2.2 (sturdy.stocked.marked s q given)

theorem removed {e : Int} {isDir : Bool} (sturdy : Sturdy layout deeds session disk vis)
    (removed : Removed layout disk disk' 1 e i isDir) (free : vis e = 0) (mounted : Mounted fs disk')
    (root : vis 1 ≤ vis' 1) (same : ∀ s, s ≠ 0 → s ≠ 1 → vis' s = vis s) :
    Sturdy (layout.remove e) (deeds.void e) { session with fs := fs } disk' vis' := by
  have sheltered := sturdy.sheltered
  refine sturdy.replace (removed.stocked sturdy.stocked) mounted ?_ root same
  rintro j file opened (current | ⟨q, known, len, deeded⟩)
  · have root : layout.Head 1 := .inr (.inl sheltered.root)
    exact .inl (Agrees.trans current
      (removed.frame.headers 1 root (removed.header_unchanged sheltered root)).symm)
  · have other : q ≠ e := by
      rintro rfl
      refine sturdy.not_open opened ?_
      rw [deeded.number]
      exact free
    exact .inr ⟨q, ⟨known, other⟩, len, deeded.mono fun s given =>
      Deeds.void_some.mpr ⟨given, other⟩⟩

/-- One handle is exchanged for another on the same header. -/
theorem exchange (sturdy : Sturdy layout deeds session disk vis)
    (opened : session.file i = some file) (stocked : Stocked layout deeds' disk')
    (mounted : Mounted session.fs disk')
    (kept : ∀ file, Backed layout deeds disk file → Backed layout deeds' disk' file)
    (backed : Backed layout deeds' disk' file')
    (number : file'.hdr.sectorNumber = file.hdr.sectorNumber) :
    Sturdy layout deeds' (session.setFile i (some file')) disk' vis where
  stocked := stocked
  mounted := mounted
  handles := fun j other there => by
    obtain ⟨bound, -⟩ := Session.file_some opened
    rw [Session.file_setFile bound] at there
    split at there
    · obtain rfl := Option.some.inj there
      exact backed
    · exact kept other (sturdy.handles j other there)
  root := by
    rw [Session.openOn_exchange opened number]
    exact sturdy.root
  counters := fun s notMap notRoot => by
    rw [Session.openOn_exchange opened number]
    exact sturdy.counters s notMap notRoot

/-- A new handle, counted once; one more handle on the root may be left open. -/
theorem opened (sturdy : Sturdy layout deeds session disk vis) (quiet : Quiet layout disk disk')
    (mounted : Mounted fs disk') (backed : Backed layout deeds disk' file)
    (root : vis 1 + (if file.hdr.sectorNumber = 1 then 1 else 0) ≤ vis' 1)
    (counted : ∀ s, s ≠ 0 → s ≠ 1 →
      vis' s = vis s + if file.hdr.sectorNumber = s then 1 else 0) :
    Sturdy layout deeds { fs := fs, handles := session.handles ++ [some file] } disk' vis' where
  stocked := sturdy.stocked.quiet quiet
  mounted := mounted
  handles := fun j other there => by
    obtain old | rfl := Session.file_opened there
    · exact (sturdy.handles j other old).quiet sturdy.sheltered quiet
    · exact backed
  root := by
    have before := sturdy.root
    rw [Session.openOn_opened]
    by_cases on : file.hdr.sectorNumber = 1
    · rw [if_pos on] at root ⊢
      omega
    · rw [if_neg on] at root ⊢
      omega
  counters := fun s notMap notRoot => by
    rw [Session.openOn_opened, counted s notMap notRoot, sturdy.counters s notMap notRoot]
    by_cases on : file.hdr.sectorNumber = s
    · rw [if_pos on, if_pos on]
      rfl
    · rw [if_neg on, if_neg on]
      rfl

theorem closed (sturdy : Sturdy layout deeds session disk vis)
    (opened : session.file i = some file) :
    Sturdy layout deeds (session.setFile i none) disk
      (Function.update vis file.hdr.sectorNumber (vis file.hdr.sectorNumber - 1)) where
  stocked := sturdy.stocked
  mounted := sturdy.mounted
  handles := fun j other there => by
    obtain ⟨bound, -⟩ := Session.file_some opened
    rw [Session.file_setFile bound] at there
    split at there
    · cases there
    · exact sturdy.handles j other there
  root := by
    have count := Session.openOn_closed opened 1
    have before := sturdy.root
    by_cases on : file.hdr.sectorNumber = 1
    · rw [if_pos on] at count
      rw [on, Function.update_self]
      omega
    · rw [if_neg on] at count
      rw [Function.update_of_ne (Ne.symm on)]
      omega
  counters := fun s notMap notRoot => by
    have count := Session.openOn_closed opened s
    have before := sturdy.counters s notMap notRoot
    by_cases on : file.hdr.sectorNumber = s
    · rw [if_pos on] at count
      rw [on, Function.update_self]
      omega
    · rw [if_neg on] at count
      rw [Function.update_of_ne (Ne.symm on)]
      omega

end Sturdy

end Sessions

/-! ## Calls -/

/-- File operations on single names. Sizes are not negative, the directory is not written
through a handle, no file grows beyond eight sectors and no growth runs out of space. -/
def Small (session : Session) (disk : Disk) : Call → Reply → Prop
  | .create name size, reply => name.Plain ∧ 0 ≤ size ∧ (reply = .flag true → size ≤ 1024)
  | .openFile name, _ => name.Plain
  | .write handle _ n, _ => ∀ file, session.file handle = some file → 0 < n →
      file.seekPosition ≤ file.Length → file.hdr.sectorNumber ≠ 1 ∧
        file.seekPosition + n ≤ 1024 ∧
        sectorsFor (file.seekPosition + n).toNat - sectorsFor file.Length.toNat ≤
          (diskMap disk).freeCount
  | .remove name, _ => name.Plain
  | .writepipe _ size name, reply => name.Plain ∧ (reply = .count (-1) ∨ size ≤ 1024 ∧
      sectorsFor size.toNat + 1 ≤ (diskMap disk).freeCount)
  | .readpipe _ name, _ => name.Plain
  | _, _ => True

/-- If the call returns and was a small one, the session is sturdy again. -/
def KeepsSturdy (session : Session) (disk : Disk) (vis : Counters) (call : Call) : Prop :=
  Ensures (call.perform session) (fun result disk' vis' => Small session disk call result.1 →
    ∃ layout' deeds', Sturdy layout' deeds' result.2 disk' vis') (fun _ => True) disk vis

/-- A read or write before the start of the file copies from before the buffer. -/
theorem ensures_ReadAt_before {post : Int × Memory × OpenFile → Disk → Counters → Prop}
    {file : OpenFile} {disk : Disk} {vis : Counters} {into : Memory} {n pos : Int}
    (something : ¬ (n ≤ 0 ∨ pos > file.hdr.numBytes)) (negative : pos < 0) :
    Ensures (file.ReadAt into n pos) post (fun _ => True) disk vis := by
  unfold OpenFile.ReadAt
  dsimp only
  rw [if_neg (show ¬ (n ≤ 0 ∨ pos > file.hdr.FileLength) from something), if_pos (.inl negative)]
  exact ensures_stop trivial

theorem ensures_WriteAt_before {post : Int × OpenFile → Disk → Counters → Prop}
    {file : OpenFile} {disk : Disk} {vis : Counters} {source : Memory} {n pos : Int}
    (something : ¬ (n ≤ 0 ∨ pos > file.hdr.numBytes)) (negative : pos < 0) :
    Ensures (file.WriteAt source n pos) post (fun _ => True) disk vis := by
  unfold OpenFile.WriteAt writeDepth OpenFile.writeAt
  dsimp only
  rw [if_neg (show ¬ (n ≤ 0 ∨ pos > file.hdr.FileLength) from something), if_pos (.inl negative)]
  exact ensures_stop trivial

/-- Whatever the state, a write does not return a negative count. -/
theorem ensures_Write_count {file : OpenFile} {disk : Disk} {vis : Counters} {source : Memory}
    {n : Int} : Ensures (file.Write source n) (fun result _ _ => 0 ≤ result.1) (fun _ => True)
      disk vis := by
  have stops : ∀ reason : Fault, (fun _ => True) reason := fun _ => trivial
  have blocks : ∀ (file : OpenFile) disk vis, 0 ≤ n → Ensures
      (file.writeBlocks source n file.seekPosition) (fun result _ _ => 0 ≤ result.1)
      (fun _ => True) disk vis := by
    intro file disk vis positive
    unfold OpenFile.writeBlocks
    refine ensures_bind (ensures_any stops fun _ _ _ => ?_)
    refine ensures_bind (ensures_any stops fun _ _ _ => ?_)
    refine ensures_bind (ensures_any stops fun _ _ _ => ?_)
    refine ensures_bind (ensures_any stops fun _ _ _ => ?_)
    refine ensures_bind (ensures_any stops fun _ _ _ => ?_)
    exact ensures_bind (ensures_any stops fun _ _ _ => ensures_pure positive)
  unfold OpenFile.Write
  split
  · apply ensures_bind
    refine ensures_post ?_ fun result _ _ count => ensures_pure count
    unfold OpenFile.WriteAt writeDepth OpenFile.writeAt
    dsimp only
    split
    · exact ensures_pure le_rfl
    · rename_i something
      have positive : 0 ≤ n := by omega
      split
      · exact ensures_stop trivial
      · split
        · refine ensures_bind (ensures_any stops fun _ _ _ => ?_)
          refine ensures_bind (ensures_any stops fun _ _ _ => ?_)
          refine ensures_bind (ensures_any stops fun _ _ _ => ?_)
          refine ensures_bind (ensures_any stops fun extended _ _ => ?_)
          obtain ⟨_, hdr, _⟩ := extended
          refine ensures_bind (ensures_any stops fun _ _ _ => ?_)
          refine ensures_bind (ensures_any stops fun _ _ _ => ?_)
          refine ensures_bind (ensures_any stops fun _ _ _ => ?_)
          exact blocks { file with hdr := hdr } _ _ positive
        · exact blocks file _ _ positive
  · exact ensures_stop trivial

section Calls

variable {layout : Layout} {deeds : Deeds} {disk : Disk} {vis : Counters} {session : Session}
  {fs : FileSystem} {name : Name}

theorem keepsSturdy_create {size : Int} (sturdy : Sturdy layout deeds session disk vis) :
    KeepsSturdy session disk vis (.create name size) := by
  unfold KeepsSturdy Call.perform
  by_cases regular : name.Plain ∧ 0 ≤ size
  rotate_left
  · exact ensures_any (fun _ => trivial) fun _ _ _ small => absurd ⟨small.1, small.2.1⟩ regular
  obtain ⟨plain, positive⟩ := regular
  have sheltered := sturdy.sheltered
  have path := sheltered.safe_of_plain plain
  have refused : ∀ fs' disk', Quiet layout disk disk' → Mounted fs' disk' →
      Ensures (pure (Reply.flag false, { session with fs := fs' })) (fun result disk' vis' =>
        Small session disk (.create name size) result.1 →
        ∃ layout' deeds', Sturdy layout' deeds' result.2 disk' vis') (fun _ => True) disk' vis :=
    fun fs' disk' quiet mounted => ensures_pure fun _ =>
      ⟨layout, deeds, sturdy.quiet quiet mounted le_rfl fun _ _ _ => rfl⟩
  apply ensures_bind
  by_cases fits : ShortExtension name ∧ size ≤ 1024
  · obtain ⟨short, small⟩ := fits
    lift size to Nat using positive
    have few : sectorsFor size ≤ 8 := sectorsFor_le_iff.mpr (by omega)
    refine ensures_Create_file sheltered sheltered.reach sturdy.mounted path short (by omega) (by omega)
      (fun _ _ => trivial) (fun fs' disk' _ => refused fs' disk') ?_
    intro fs' disk' p hs i lookup _ made _ mounted
    rw [splitPath_of_plain plain] at made lookup
    rw [sheltered.lookup_dot.2] at lookup
    subst lookup
    exact ensures_pure fun _ => ⟨_, _, sturdy.created made few mounted le_rfl fun _ _ _ => rfl⟩
  · refine ensures_Create_refused sheltered sheltered.reach sturdy.mounted path positive ?_
      fun fs' disk' _ _ quiet mounted _ => refused fs' disk' quiet mounted
    intro short fs' disk' vis'
    exact ensures_pure fun small => absurd ⟨short, small.2.2 rfl⟩ fits

theorem keepsSturdy_openFile (sturdy : Sturdy layout deeds session disk vis) :
    KeepsSturdy session disk vis (.openFile name) := by
  unfold KeepsSturdy Call.perform
  by_cases plain : name.Plain
  rotate_left
  · exact ensures_any (fun _ => trivial) fun _ _ _ small => absurd small plain
  have sheltered := sturdy.sheltered
  have split := splitPath_of_plain plain
  apply ensures_bind
  refine ensures_Open sheltered sheltered.reach sturdy.mounted (sheltered.safe_of_plain plain) (fun _ => trivial) ?_ ?_
  · intro fs' disk' p lookup _ _ quiet mounted
    rw [split, sheltered.lookup_dot.2] at lookup
    subst lookup
    exact ensures_pure fun _ => ⟨layout, deeds, sturdy.quiet quiet mounted (counters_grow vis 1 1)
      fun _ _ notRoot => Function.update_of_ne notRoot ..⟩
  · intro fs' file disk' p i s lookup _ found here quiet mounted known current _
    rw [split, sheltered.lookup_dot.2] at lookup
    subst lookup
    have number := (quiet.sheltered sheltered).number known current
    rw [split] at found
    obtain ⟨bound, used, -⟩ := Directory.entryIndex_some found
    refine ensures_pure fun _ => ⟨layout, deeds, sturdy.opened quiet mounted ?_ ?_ ?_⟩
    · rcases sturdy.stocked.entry bound used with root | ⟨regular, -⟩
      · rw [← here, root] at current
        exact .inl current
      · rw [here] at regular
        obtain ⟨len, deeded⟩ := (sturdy.stocked.quiet quiet).files s regular
        exact .inr ⟨s, regular, len, deeded.agrees current⟩
    · rw [number]
      by_cases root : s = 1
      · rw [if_pos root, root, Function.update_self, Function.update_self]
        omega
      · rw [if_neg root, Function.update_of_ne (Ne.symm root), Function.update_self]
        omega
    · intro t _ notRoot
      rw [number]
      by_cases same : s = t
      · subst same
        rw [if_pos rfl, Function.update_self, Function.update_of_ne notRoot]
      · rw [if_neg same, Function.update_of_ne (Ne.symm same), Function.update_of_ne notRoot,
          add_zero]

theorem keepsSturdy_read {handle : Nat} {into : Memory} {n : Int}
    (sturdy : Sturdy layout deeds session disk vis) :
    KeepsSturdy session disk vis (.read handle into n) := by
  unfold KeepsSturdy Call.perform Session.through
  dsimp only
  cases opened : session.file handle with
  | none => exact ensures_stop trivial
  | some file =>
    have sheltered := sturdy.sheltered
    have backed := sturdy.handles handle file opened
    have valid := sheltered.valid_head (backed.head sheltered)
    apply ensures_bind
    unfold OpenFile.Read
    rw [if_pos valid]
    apply ensures_bind
    by_cases nothing : n ≤ 0 ∨ file.seekPosition > file.hdr.numBytes
    · refine ensures_ReadAt_nothing nothing (ensures_pure (ensures_pure fun _ => ⟨layout, deeds, ?_⟩))
      exact sturdy.exchange opened sturdy.stocked sturdy.mounted (fun _ => id) backed rfl
    by_cases negative : file.seekPosition < 0
    · exact ensures_ReadAt_before nothing negative
    push Not at nothing
    obtain ⟨count, rfl⟩ := Int.eq_ofNat_of_zero_le (show 0 ≤ n by omega)
    obtain ⟨pos, start⟩ := Int.eq_ofNat_of_zero_le (show 0 ≤ file.seekPosition by omega)
    rw [start] at nothing ⊢
    rcases backed with current | ⟨h, known, len, deeded⟩
    · have root : layout.Head 1 := .inr (.inl sheltered.root)
      have headed := sheltered.tables 1 sheltered.root
      have length := current.numBytes.trans headed.length
      refine ensures_ReadAt_head sheltered root root headed current (by omega) (by omega) (.inr trivial)
        trivial ?_
      intro file' into' disk' quiet current' _
      refine ensures_pure (ensures_pure fun _ => ⟨layout, deeds, sturdy.exchange opened
        (sturdy.stocked.quiet quiet) (sturdy.mounted.quiet sheltered quiet)
        (fun _ old => old.quiet sheltered quiet) (.inl current') ?_⟩)
      exact ((quiet.sheltered sheltered).number root current').trans
        (sheltered.number root current).symm
    · have length := deeded.length
      have eight := sectorsFor_le_iff.mp deeded.small
      refine ensures_ReadAt_clock length (by omega) (by omega) (.inr trivial) valid (by omega)
        (fun far => absurd far (by omega)) trivial ?_
      intro hdr' into' agrees
      rw [deeded.number]
      have stored := sturdy.stocked.clock known deeded agrees
      refine ensures_pure (ensures_pure fun _ => ⟨layout, deeds, sturdy.exchange opened
        (stored.stocked sturdy.stocked) (stored.mounted sturdy.stocked sturdy.mounted)
        (fun _ old => old.stored sturdy.stocked stored)
        (.inr ⟨h, known, len, deeded.agrees agrees⟩) agrees.sectorNumber⟩)

theorem keepsSturdy_write {handle : Nat} {source : Memory} {n : Int}
    (sturdy : Sturdy layout deeds session disk vis) :
    KeepsSturdy session disk vis (.write handle source n) := by
  unfold KeepsSturdy Call.perform Session.through
  dsimp only
  cases opened : session.file handle with
  | none => exact ensures_stop trivial
  | some file =>
    have sheltered := sturdy.sheltered
    have backed := sturdy.handles handle file opened
    have valid := sheltered.valid_head (backed.head sheltered)
    by_cases small : Small session disk (.write handle source n) .nothing
    rotate_left
    · exact ensures_any (fun _ => trivial) fun _ _ _ allowed => absurd allowed small
    apply ensures_bind
    unfold OpenFile.Write
    rw [if_pos valid]
    apply ensures_bind
    by_cases nothing : n ≤ 0 ∨ file.seekPosition > file.hdr.numBytes
    · refine ensures_WriteAt_nothing nothing (ensures_pure (ensures_pure fun _ => ⟨layout, deeds, ?_⟩))
      exact sturdy.exchange opened sturdy.stocked sturdy.mounted (fun _ => id) backed rfl
    by_cases negative : file.seekPosition < 0
    · exact ensures_WriteAt_before nothing negative
    push Not at nothing
    obtain ⟨notRoot, room, enough⟩ := small file opened nothing.1 nothing.2
    rcases backed with current | ⟨h, known, len, deeded⟩
    · exact absurd (sheltered.number (.inr (.inl sheltered.root)) current) notRoot
    obtain ⟨count, rfl⟩ := Int.eq_ofNat_of_zero_le (show 0 ≤ n by omega)
    obtain ⟨pos, start⟩ := Int.eq_ofNat_of_zero_le (show 0 ≤ file.seekPosition by omega)
    have length : file.Length = (len : Int) := deeded.length
    rw [start, length, ← Int.natCast_add, Int.toNat_natCast, Int.toNat_natCast] at enough
    rw [start] at room nothing ⊢
    rw [deeded.length] at nothing
    have header := sturdy.stocked.header known deeded
    have fits : sectorsFor (max len (pos + count)) ≤ 8 :=
      sectorsFor_le_iff.mpr (by have := sectorsFor_le_iff.mp deeded.small; omega)
    refine ensures_writeAt deeded.length deeded.sectors (by omega) (by omega) (by omega)
      (.inl (sectorsFor_le_iff.mpr (by omega))) sheltered.map header.reserved enough
      (header.owned (Nat.min_le_left _ _)) ?_
    intro hdr' disk' written
    have stored := sturdy.stocked.written known deeded written fits
    obtain ⟨len', copy⟩ := stored.copy
    exact ensures_pure (ensures_pure fun _ => ⟨layout, _, sturdy.exchange opened
      (stored.stocked sturdy.stocked) (stored.mounted sturdy.stocked sturdy.mounted)
      (fun _ old => old.stored sturdy.stocked stored) (.inr ⟨h, known, len', copy⟩)
      written.number⟩)

theorem keepsSturdy_seek {handle : Nat} {position : Int}
    (sturdy : Sturdy layout deeds session disk vis) :
    KeepsSturdy session disk vis (.seek handle position) := by
  unfold KeepsSturdy Call.perform Session.through
  dsimp only
  cases opened : session.file handle with
  | none => exact ensures_stop trivial
  | some file =>
    exact ensures_pure fun _ => ⟨layout, deeds, sturdy.exchange opened sturdy.stocked sturdy.mounted
      (fun _ => id) (sturdy.handles handle file opened) rfl⟩

theorem keepsSturdy_close {handle : Nat} (sturdy : Sturdy layout deeds session disk vis) :
    KeepsSturdy session disk vis (.close handle) := by
  unfold KeepsSturdy Call.perform Session.through
  dsimp only
  cases opened : session.file handle with
  | none => exact ensures_stop trivial
  | some file =>
    have sheltered := sturdy.sheltered
    apply ensures_bind
    refine ensures_delete
      (sheltered.valid_head ((sturdy.handles handle file opened).head sheltered)) ?_
    exact ensures_pure fun _ => ⟨layout, deeds, sturdy.closed opened⟩

/-- A small file that is not open can be removed. -/
theorem Sturdy.removable (sturdy : Sturdy layout deeds session disk vis) {i : Nat}
    (found : (tableAt disk 1).entryIndex name = some i)
    (free : vis ((tableAt disk 1).sector i) = 0) : Removable disk i := by
  obtain ⟨bound, used, -⟩ := Directory.entryIndex_some found
  rcases sturdy.stocked.entry bound used with root | ⟨regular, kind⟩
  · rw [root] at free
    exact absurd free sturdy.busy.ne'
  · obtain ⟨len, deeded⟩ := sturdy.stocked.files _ regular
    have sectors := deeded.sectors
    have small := deeded.small
    refine ⟨fun dir => absurd dir kind, fun k far inside => ?_⟩
    omega

theorem keepsSturdy_remove (sturdy : Sturdy layout deeds session disk vis) :
    KeepsSturdy session disk vis (.remove name) := by
  unfold KeepsSturdy Call.perform
  by_cases plain : name.Plain
  rotate_left
  · exact ensures_any (fun _ => trivial) fun _ _ _ small => absurd small plain
  apply ensures_bind
  refine ensures_Remove sturdy.sheltered sturdy.sheltered.whole sturdy.mounted plain sturdy.busy.ne'
    (fun i => sturdy.removable) ?_ ?_
  · intro fs' disk' quiet mounted _
    exact ensures_pure fun _ =>
      ⟨layout, deeds, sturdy.quiet quiet mounted le_rfl fun _ _ _ => rfl⟩
  · intro fs' disk' e i isDir _ _ free removed mounted
    exact ensures_pure fun _ =>
      ⟨_, _, sturdy.removed removed free mounted le_rfl fun _ _ _ => rfl⟩

/-- Whatever the sizes, a pipe that could not be created leaves the disk as it was. -/
theorem ensures_Writepipe_refused {data : Memory} {size : Int} (sheltered : Sheltered layout disk)
    (mounted : Mounted fs disk) (path : SafePath disk name) :
    Ensures (fs.Writepipe data size name) (fun result disk' vis' =>
      (result.1 = -1 ∧ vis' = vis ∧ Quiet layout disk disk' ∧ Mounted result.2 disk') ∨
        (0 ≤ result.1 ∧ ShortExtension name)) (fun _ => True) disk vis := by
  have stops : ∀ reason : Fault, (fun _ => True) reason := fun _ => trivial
  unfold FileSystem.Writepipe
  apply ensures_bind
  refine ensures_Create_refused sheltered sheltered.reach mounted path le_rfl ?_ ?_
  · intro short fs' disk' vis'
    refine ensures_bind (ensures_any stops ?_)
    rintro ⟨_ | file, fs''⟩ _ _
    · exact ensures_stop trivial
    · refine ensures_bind (ensures_post ensures_Write_count fun result _ _ count => ?_)
      refine ensures_bind (ensures_any stops fun _ _ _ => ?_)
      refine ensures_bind (ensures_any stops fun _ _ _ => ?_)
      exact ensures_pure (.inr ⟨count, short⟩)
  · intro fs' disk' _ _ quiet mounted' _
    exact ensures_pure (.inl ⟨rfl, rfl, quiet, mounted'⟩)

theorem keepsSturdy_writepipe {data : Memory} {size : Int}
    (sturdy : Sturdy layout deeds session disk vis) :
    KeepsSturdy session disk vis (.writepipe data size name) := by
  unfold KeepsSturdy Call.perform
  by_cases plain : name.Plain
  rotate_left
  · exact ensures_any (fun _ => trivial) fun _ _ _ small => absurd small.1 plain
  have sheltered := sturdy.sheltered
  have path := sheltered.safe_of_plain plain
  apply ensures_bind
  by_cases fits : ShortExtension name ∧ size ≤ 1024 ∧
      sectorsFor size.toNat + 1 ≤ (diskMap disk).freeCount
  · obtain ⟨short, small, enough⟩ := fits
    refine ensures_Writepipe sheltered sheltered.reach sturdy.mounted path short small enough
      (fun _ => trivial) ?_ ?_
    · intro fs' disk' _ quiet mounted
      exact ensures_pure fun _ =>
        ⟨layout, deeds, sturdy.quiet quiet mounted le_rfl fun _ _ _ => rfl⟩
    · intro fs' disk' p hs i lookup created mounted _
      rw [splitPath_of_plain plain] at created lookup
      rw [sheltered.lookup_dot.2] at lookup
      subst lookup
      exact ensures_pure fun _ => ⟨_, _, sturdy.created created (sectorsFor_le_iff.mpr (by omega))
        mounted (counters_grow vis 1 1) fun _ _ notRoot => Function.update_of_ne notRoot ..⟩
  · refine ensures_post (ensures_Writepipe_refused sheltered sturdy.mounted path) ?_
    rintro ⟨count, fs'⟩ disk' vis' (⟨-, rfl, quiet, mounted⟩ | ⟨positive, short⟩)
    · exact ensures_pure fun _ =>
        ⟨layout, deeds, sturdy.quiet quiet mounted le_rfl fun _ _ _ => rfl⟩
    · refine ensures_pure fun allowed => ?_
      rcases allowed.2 with refused | room
      · obtain rfl : count = -1 := Reply.count.inj refused
        exact absurd (show (0 : Int) ≤ -1 from positive) (by decide)
      · exact absurd ⟨short, room⟩ fits

theorem keepsSturdy_readpipe {buffer : Memory} (sturdy : Sturdy layout deeds session disk vis) :
    KeepsSturdy session disk vis (.readpipe buffer name) := by
  unfold KeepsSturdy Call.perform
  by_cases plain : name.Plain
  rotate_left
  · exact ensures_any (fun _ => trivial) fun _ _ _ small => absurd small plain
  apply ensures_bind
  have others : ∀ s, s ≠ 0 → s ≠ 1 → Function.update vis 1 (vis 1 + 1) s = vis s :=
    fun _ _ notRoot => Function.update_of_ne notRoot ..
  have still : ∀ {n into fs' disk'}, Quiet layout disk disk' → Mounted fs' disk' →
      Ensures (pure (Reply.bytes n into, { session with fs := fs' })) (fun result disk' vis' =>
        Small session disk (.readpipe buffer name) result.1 →
        ∃ layout' deeds', Sturdy layout' deeds' result.2 disk' vis') (fun _ => True) disk'
        (Function.update vis 1 (vis 1 + 1)) := fun quiet mounted => ensures_pure fun _ =>
    ⟨layout, deeds, sturdy.quiet quiet mounted (counters_grow vis 1 1) others⟩
  refine ensures_Readpipe sturdy.sheltered sturdy.sheltered.whole sturdy.sheltered.near sturdy.mounted
    plain sturdy.busy
    (fun i => sturdy.removable) (fun _ _ _ => trivial) (fun _ _ _ => still)
    (fun _ _ _ _ _ _ _ => still) ?_
  intro len into fs' disk' e i isDir _ _ free _ _ removed mounted
  exact ensures_pure fun _ =>
    ⟨_, _, sturdy.removed removed free mounted (counters_grow vis 1 1) others⟩

end Calls

/-! ## Runs -/

/-- The calls of a run on small files. -/
def SmallCall (system : System) (call : Call) (reply : Reply) : Prop :=
  Small system.session system.disk call reply

/-- The session is sturdy and the cache coherent. -/
structure SturdySystem (system : System) : Prop where
  sturdy : ∃ layout deeds, Sturdy layout deeds system.session system.disk system.counters
  coherent : system.machine.cache.Coherent system.machine.disk

theorem keepsSturdy_call {layout : Layout} {deeds : Deeds} {disk : Disk} {vis : Counters}
    {session : Session} (sturdy : Sturdy layout deeds session disk vis) (call : Call) :
    KeepsSturdy session disk vis call := by
  cases call with
  | create => exact keepsSturdy_create sturdy
  | openFile => exact keepsSturdy_openFile sturdy
  | read => exact keepsSturdy_read sturdy
  | write => exact keepsSturdy_write sturdy
  | seek => exact keepsSturdy_seek sturdy
  | close => exact keepsSturdy_close sturdy
  | remove => exact keepsSturdy_remove sturdy
  | writepipe => exact keepsSturdy_writepipe sturdy
  | readpipe => exact keepsSturdy_readpipe sturdy

theorem sturdy_boot {machine after : SynchDisk} {fs : FileSystem} (blank : System.Blank machine)
    (formatted : FileSystem.format.run SynchDisk.handle machine = .done fs after) :
    SturdySystem { session := { fs := fs, handles := [] }, machine := after } := by
  have ends : Ensures FileSystem.format (fun fs disk' vis' => ∃ layout deeds,
      Sturdy layout deeds { fs := fs, handles := [] } disk' vis') (fun _ => False)
      machine.disk machine.visNum := by
    refine ensures_format fun fs disk' formatted mounted => ⟨emptyLayout, fun _ => none,
      formatted.stocked, mounted, fun i file opened => ?_, ?_, fun s notMap notRoot => ?_⟩
    · simp [Session.file] at opened
    · rw [mountedCounters_blank blank]
      exact Int.zero_lt_one
    · rw [mountedCounters_blank blank, kernelHandles, if_neg (by simp [notMap, notRoot])]
      rfl
  obtain ⟨sturdy, coherent⟩ := ensures_done (blank_coherent blank) formatted ends
  exact ⟨sturdy, coherent⟩

theorem sturdy_step {system after : System} {call : Call} {reply : Reply}
    (sturdy : SturdySystem system) (small : SmallCall system call reply)
    (taken : system.Step call reply after) : SturdySystem after := by
  obtain ⟨layout, deeds, here⟩ := sturdy.sturdy
  have keeps := keepsSturdy_call here call
  unfold KeepsSturdy at keeps
  obtain ⟨kept, coherent⟩ := ensures_done sturdy.coherent taken keeps
  exact ⟨kept small, coherent⟩

/-- Every state a run on small files reaches is sturdy. -/
theorem sturdy_of_runs {trace : List (Call × Reply)} {system : System}
    (runs : System.Runs SmallCall trace system) : SturdySystem system := by
  induction runs with
  | boot blank formatted => exact sturdy_boot blank formatted
  | step _ small taken ih => exact sturdy_step ih small taken

end Nachos
