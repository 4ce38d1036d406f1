import Nachos.Effects.Ownership
import Nachos.Filesys.DirectoryProofs

/-! Which sector belongs to what. A header gives a meaning to its own sector,
its data sectors and, from nine sectors on, its indirect block. A layout lists
the headers in use; it is consistent with a disk when the free map marks
exactly what those headers lay claim to, once each, and the directories among
them form a tree under the root. -/
namespace Nachos
open Effects FileHeader

/-- The roles a sector can have in a file. -/
inductive Part where
  | header
  | data (k : Nat)
  | indirect
  deriving DecidableEq

/-- Block `k` as `Allocate` lays it out: a slot of the header, or a 32-bit
entry of the indirect block. -/
def dataSector (disk : Disk) (hdr : FileHeader) (k : Nat) : Int :=
  if k < 8 then hdr.dataSectors k else indirectEntry (disk (hdr.dataSectors 8)) (k - 8)

/-- Sector `s` plays this part for the file whose header is in sector `h`. -/
def HasPart (disk : Disk) (h : Int) : Part → Int → Prop
  | .header, s => s = h
  | .data k, s => (k : Int) < (headerAt disk h).numSectors ∧ s = dataSector disk (headerAt disk h) k
  | .indirect, s => 9 ≤ (headerAt disk h).numSectors ∧ s = (headerAt disk h).dataSectors 8

/-- The table of the directory whose header is in sector `h`. -/
def tableAt (disk : Disk) (h : Int) : Directory := Directory.tableOf disk (headerAt disk h)

/-- Entry `i` of directory `p` names `c`; the flags tell directories from
files. `"."` and `".."` do not count. -/
def Child (disk : Disk) (p : Int × Bool) (i : Nat) (c : Int × Bool) : Prop :=
  p.2 = true ∧ i < 10 ∧ (tableAt disk p.1).inUse i = true ∧
    ¬ (tableAt disk p.1).Matches [dot] i ∧ ¬ (tableAt disk p.1).Matches [dot, dot] i ∧
    (tableAt disk p.1).sector i = c.1 ∧ decide ((tableAt disk p.1).type i = 0) = c.2

/-- The header sectors in use, apart from the free map's. -/
structure Layout where
  files : Set Int
  dirs : Set Int

namespace Layout

def Head (layout : Layout) (h : Int) : Prop := h = 0 ∨ h ∈ layout.dirs ∨ h ∈ layout.files

def Node (layout : Layout) (n : Int × Bool) : Prop :=
  if n.2 = true then n.1 ∈ layout.dirs else n.1 ∈ layout.files

/-- The layout with one more file or directory. -/
def add (layout : Layout) (h : Int) (isDir : Bool) : Layout :=
  if isDir then { layout with dirs := insert h layout.dirs }
  else { layout with files := insert h layout.files }

def remove (layout : Layout) (h : Int) : Layout where
  files := layout.files \ {h}
  dirs := layout.dirs \ {h}

theorem head_add {layout : Layout} {h s : Int} {isDir : Bool} :
    (layout.add h isDir).Head s ↔ layout.Head s ∨ s = h := by
  cases isDir <;> simp [add, Head] <;> tauto

theorem node_add {layout : Layout} {h : Int} {isDir : Bool} {n : Int × Bool} :
    (layout.add h isDir).Node n ↔ layout.Node n ∨ n = (h, isDir) := by
  obtain ⟨s, flag⟩ := n
  cases isDir <;> cases flag <;> simp [add, Node, or_comm]

theorem head_remove {layout : Layout} {h s : Int} (notMap : h ≠ 0) :
    (layout.remove h).Head s ↔ layout.Head s ∧ s ≠ h := by
  simp only [remove, Head, Set.mem_sdiff, Set.mem_singleton_iff]
  constructor
  · rintro (rfl | ⟨known, other⟩ | ⟨known, other⟩)
    · exact ⟨.inl rfl, notMap.symm⟩
    · exact ⟨.inr (.inl known), other⟩
    · exact ⟨.inr (.inr known), other⟩
  · rintro ⟨rfl | known | known, other⟩
    · exact .inl rfl
    · exact .inr (.inl ⟨known, other⟩)
    · exact .inr (.inr ⟨known, other⟩)

/-- The headers of `scope` are some of those of `layout`, the root's among them. -/
structure Within (scope layout : Layout) : Prop where
  top : (1 : Int) ∈ scope.dirs
  dirs : ∀ h ∈ scope.dirs, h ∈ layout.dirs
  files : ∀ h ∈ scope.files, h ∈ layout.files

theorem Within.head {scope layout : Layout} {h : Int} (within : scope.Within layout)
    (known : scope.Head h) : layout.Head h :=
  known.imp id fun other => other.imp (within.dirs h) (within.files h)

theorem Within.add {scope layout : Layout} (within : scope.Within layout) (h : Int)
    (isDir : Bool) : (scope.add h isDir).Within (layout.add h isDir) := by
  cases isDir with
  | true => exact ⟨.inr within.top, fun q member => member.imp id (within.dirs q), within.files⟩
  | false => exact ⟨within.top, within.dirs, fun q member => member.imp id (within.files q)⟩

theorem head_of_node {layout : Layout} {n : Int × Bool} (known : layout.Node n) :
    layout.Head n.1 := by
  unfold Node at known
  split at known
  · exact .inr (.inl known)
  · exact .inr (.inr known)

end Layout

/-- The sectors a file of header `h` lays claim to, and as what. -/
def Claims (layout : Layout) (disk : Disk) (k : Int × Part) (s : Int) : Prop :=
  layout.Head k.1 ∧ HasPart disk k.1 k.2 s

/-- The header in sector `h` describes a file of `len` bytes that lives there. -/
structure Headed (disk : Disk) (h : Int) (len : Nat) : Prop where
  length : (headerAt disk h).numBytes = len
  sectors : (headerAt disk h).numSectors = sectorsFor len
  number : (headerAt disk h).sectorNumber = h
  fits : sectorsFor len ≤ 40

/-- The disk holds what the layout says; it may have lost sectors that are marked but in
no file. -/
structure Sheltered (layout : Layout) (disk : Disk) : Prop where
  storage : Shelter (Claims layout disk) (diskMap disk).Marked
  tree : Rooted (Child disk) layout.Node (1, true)
  kinds : ∀ h ∈ layout.dirs, h ∉ layout.files
  mapAlone : (0 : Int) ∉ layout.dirs ∧ (0 : Int) ∉ layout.files
  map : IsMapHeader (headerAt disk 0)
  headed : ∀ h, layout.Head h → ∃ len, Headed disk h len
  tables : ∀ h ∈ layout.dirs, Headed disk h 360
  self : ∀ h ∈ layout.dirs, (tableAt disk h).Matches [dot] 0 ∧ (tableAt disk h).Matches [dot, dot] 1
  dots : ∀ h ∈ layout.dirs, (tableAt disk h).sector 0 = h
  dads : ∀ p ∈ layout.dirs, ∀ i c, Child disk (p, true) i (c, true) → (tableAt disk c).sector 1 = p
  rootSelf : (tableAt disk 1).sector 0 = 1 ∧ (tableAt disk 1).sector 1 = 1 ∧
    (tableAt disk 1).type 0 = 0 ∧ (tableAt disk 1).type 1 = 0
  names : ∀ h ∈ layout.dirs, ∀ i j, i < 10 → j < 10 → (tableAt disk h).inUse i = true →
    (tableAt disk h).inUse j = true →
    Name.strncmpEq ((tableAt disk h).name i) ((tableAt disk h).name j) FileNameMaxLen = true → i = j

/-- The disk holds what the layout says, and nothing else. -/
structure Consistent (layout : Layout) (disk : Disk) : Prop extends Sheltered layout disk where
  partition : Partition (Claims layout disk) (diskMap disk).Marked

theorem Consistent.sheltered {layout : Layout} {disk : Disk} (consistent : Consistent layout disk) :
    Sheltered layout disk := consistent.toSheltered

theorem Sheltered.consistent {layout : Layout} {disk : Disk} (sheltered : Sheltered layout disk)
    (partition : Partition (Claims layout disk) (diskMap disk).Marked) : Consistent layout disk :=
  ⟨sheltered, partition⟩

section Parts

variable {disk disk' : Disk} {h h' s : Int} {part part' : Part} {layout : Layout}

theorem dataSector_direct {hdr : FileHeader} {k : Nat} (direct : k < 8) :
    dataSector disk hdr k = hdr.dataSectors k := if_pos direct

/-- `ByteToSector` finds the block where `Allocate` put it, if the entry of the
indirect block fits in seven bits. -/
theorem blockSector_eq_dataSector {hdr : FileHeader} {k : Nat}
    (small : 8 ≤ k → 0 ≤ dataSector disk hdr k ∧ dataSector disk hdr k < 128) :
    blockSector disk hdr k = dataSector disk hdr k := by
  by_cases direct : k < 8
  · rw [blockSector_direct direct, dataSector_direct direct]
  · obtain ⟨low, high⟩ := small (by omega)
    unfold blockSector dataSector at *
    rw [if_neg direct] at low high ⊢
    rw [if_neg direct]
    exact signedChar_word low high

/-- A file keeps its parts while its header and its indirect block do. -/
theorem hasPart_congr (agrees : Agrees (headerAt disk' h) (headerAt disk h))
    (indirect : 9 ≤ (headerAt disk h).numSectors →
      disk' ((headerAt disk h).dataSectors 8) = disk ((headerAt disk h).dataSectors 8)) :
    HasPart disk' h part s ↔ HasPart disk h part s := by
  cases part with
  | header => rfl
  | data k =>
    simp only [HasPart, agrees.numSectors]
    by_cases direct : k < 8
    · rw [dataSector_direct direct, dataSector_direct direct, agrees.dataSectors (by omega)]
    · apply and_congr_right
      intro bound
      unfold dataSector
      rw [if_neg direct, if_neg direct, agrees.dataSectors (by omega), indirect (by omega)]
  | indirect => simp only [HasPart, agrees.numSectors, agrees.dataSectors (show 8 < 9 by omega)]

end Parts

/-! ## The sectors of one file as a list -/

section Claimed

variable {disk disk' : Disk} {h s : Int} {n : Nat}

/-- The parts of a file of `n` sectors. -/
def parts (n : Nat) : List Part :=
  .header :: ((List.range n).map .data ++ if 9 ≤ n then [.indirect] else [])

/-- Where a part of the file with header `h` is. -/
def place (disk : Disk) (h : Int) : Part → Int
  | .header => h
  | .data k => dataSector disk (headerAt disk h) k
  | .indirect => (headerAt disk h).dataSectors 8

/-- Every sector of the file with header `h`. -/
def claimed (disk : Disk) (h : Int) : List Int :=
  (parts (headerAt disk h).numSectors.toNat).map (place disk h)

private theorem data_mem_parts {k : Nat} : Part.data k ∈ parts n ↔ k < n := by
  unfold parts
  split <;> simp

private theorem indirect_mem_parts : Part.indirect ∈ parts n ↔ 9 ≤ n := by
  unfold parts
  split <;> simp_all

theorem hasPart_iff {part : Part} : HasPart disk h part s ↔
    part ∈ parts (headerAt disk h).numSectors.toNat ∧ place disk h part = s := by
  cases part with
  | header =>
    have member : Part.header ∈ parts (headerAt disk h).numSectors.toNat := List.mem_cons_self
    exact ⟨fun here => ⟨member, here.symm⟩, fun here => here.2.symm⟩
  | data k =>
    rw [data_mem_parts, eq_comm]
    exact and_congr_left fun _ => by omega
  | indirect =>
    rw [indirect_mem_parts, eq_comm]
    exact and_congr_left fun _ => by omega

theorem mem_claimed : s ∈ claimed disk h ↔ ∃ part, HasPart disk h part s := by
  simp only [claimed, List.mem_map, hasPart_iff]

/-- A file keeps its sectors while its header and its indirect block do. -/
theorem claimed_congr (agrees : Agrees (headerAt disk' h) (headerAt disk h))
    (indirect : 9 ≤ (headerAt disk h).numSectors →
      disk' ((headerAt disk h).dataSectors 8) = disk ((headerAt disk h).dataSectors 8)) :
    claimed disk' h = claimed disk h := by
  unfold claimed
  rw [agrees.numSectors]
  apply List.map_congr_left
  intro part member
  have here : HasPart disk h part (place disk h part) := hasPart_iff.mpr ⟨member, rfl⟩
  exact (hasPart_iff.mp ((hasPart_congr agrees indirect).mpr here)).2

theorem part_unique {part part' : Part} (distinct : (claimed disk h).Nodup)
    (first : HasPart disk h part s) (second : HasPart disk h part' s) : part = part' := by
  obtain ⟨member, here⟩ := hasPart_iff.mp first
  obtain ⟨member', here'⟩ := hasPart_iff.mp second
  exact List.inj_on_of_nodup_map distinct member member' (here.trans here'.symm)

theorem claimed_direct (sectors : (headerAt disk h).numSectors = n) (small : n ≤ 8) :
    claimed disk h = h :: (headerAt disk h).slots 0 n := by
  unfold claimed parts
  rw [sectors, Int.toNat_natCast, if_neg (by omega), List.append_nil, List.map_cons, List.map_map]
  congr 1
  apply List.map_congr_left
  intro k member
  have bound := List.mem_range.mp member
  simp only [Function.comp_apply, place, Nat.zero_add]
  exact dataSector_direct (by omega)

/-- From nine sectors on, slot 8 is the indirect block and the remaining data
sectors are its entries. -/
theorem claimed_indirect (sectors : (headerAt disk h).numSectors = n) (large : 9 ≤ n) :
    (claimed disk h).Perm (h :: ((headerAt disk h).slots 0 9 ++
      indirectEntries (disk ((headerAt disk h).dataSectors 8)) (n - 8))) := by
  have split : List.range n = List.range 8 ++ (List.range (n - 8)).map (8 + ·) := by
    rw [← List.range_add]
    congr 1
    omega
  have direct : ((List.range 8).map Part.data).map (place disk h) =
      (headerAt disk h).slots 0 8 := by
    rw [List.map_map]
    apply List.map_congr_left
    intro k member
    have bound := List.mem_range.mp member
    simp only [Function.comp_apply, place, Nat.zero_add]
    exact dataSector_direct (by omega)
  have entries : (((List.range (n - 8)).map (8 + ·)).map Part.data).map (place disk h) =
      indirectEntries (disk ((headerAt disk h).dataSectors 8)) (n - 8) := by
    rw [List.map_map, List.map_map]
    apply List.map_congr_left
    intro k _
    simp only [Function.comp_apply, place, dataSector]
    rw [if_neg (by omega), Nat.add_sub_cancel_left]
  unfold claimed parts
  rw [sectors, Int.toNat_natCast, if_pos large, split, List.map_cons, List.map_append,
    List.map_append, List.map_append, direct, entries, slots_succ _ 0 8]
  simp only [List.map_cons, List.map_nil, place, Nat.zero_add, List.append_assoc]
  refine List.Perm.cons _ (List.Perm.append_left _ ?_)
  exact List.perm_append_comm

end Claimed

theorem BitMap.Takes.perm {before after : BitMap} {sectors sectors' : List Int}
    (taken : before.Takes sectors after) (perm : sectors'.Perm sectors) :
    before.Takes sectors' after where
  size := taken.size
  fresh := fun s member => taken.fresh s (perm.mem_iff.mp member)
  distinct := perm.nodup_iff.mpr taken.distinct
  exactly := fun s => by rw [taken.exactly, perm.mem_iff]

theorem BitMap.Releases.of_mem {before after : BitMap} {sectors sectors' : List Int}
    (released : before.Releases sectors after) (same : ∀ s, s ∈ sectors' ↔ s ∈ sectors) :
    before.Releases sectors' after where
  size := released.size
  exactly := fun s => by rw [released.exactly, same]

/-! ## What the rest of the disk keeps -/

/-- Outside `changed`, headers keep everything but their clock texts and all
other sectors keep their contents. -/
structure Frame (layout : Layout) (disk disk' : Disk) (changed : Int → Prop) : Prop where
  headers : ∀ h, layout.Head h → ¬ changed h → Agrees (headerAt disk' h) (headerAt disk h)
  others : ∀ s, ¬ layout.Head s → ¬ changed s → disk' s = disk s

section Frames

variable {layout : Layout} {disk disk' disk'' : Disk} {changed changed' : Int → Prop} {h s : Int}

theorem Frame.refl (layout : Layout) (disk : Disk) (changed : Int → Prop) :
    Frame layout disk disk changed := ⟨fun _ _ _ => Agrees.refl _, fun _ _ _ => rfl⟩

theorem Frame.mono (frame : Frame layout disk disk' changed)
    (more : ∀ s, changed s → changed' s) : Frame layout disk disk' changed' :=
  ⟨fun h known same => frame.headers h known fun old => same (more h old),
    fun s free same => frame.others s free fun old => same (more s old)⟩

theorem Frame.trans (first : Frame layout disk disk' changed)
    (second : Frame layout disk' disk'' changed) : Frame layout disk disk'' changed :=
  ⟨fun h known same => (second.headers h known same).trans (first.headers h known same),
    fun s free same => (second.others s free same).trans (first.others s free same)⟩

/-- A frame that names fewer headers says more. -/
theorem Frame.widen {scope : Layout} (frame : Frame scope disk disk' changed)
    (within : scope.Within layout) : Frame layout disk disk' changed := by
  refine ⟨fun h _ same => ?_, fun s free same => frame.others s (fun known => free ?_) same⟩
  · by_cases known : scope.Head h
    · exact frame.headers h known same
    · have kept : headerAt disk' h = headerAt disk h := by
        unfold headerAt
        rw [frame.others h known same]
      rw [kept]
      exact Agrees.refl _
  · exact within.head known

/-- Writing back a header that differs from the one on disk in its clock texts
only. -/
theorem Frame.clock {hdr : FileHeader} (known : layout.Head h)
    (agrees : Agrees hdr (headerAt disk h)) (changed : Int → Prop) :
    Frame layout disk (Function.update disk h hdr.raw) changed := by
  refine ⟨fun h' _ _ => ?_, fun s free _ => ?_⟩
  · by_cases same : h' = h
    · subst same
      unfold headerAt
      rw [Function.update_self]
      exact agrees
    · unfold headerAt
      rw [Function.update_of_ne same]
      exact Agrees.refl _
  · refine Function.update_of_ne ?_ _ _
    rintro rfl
    exact free known

theorem Sheltered.head_marked (sheltered : Sheltered layout disk) (known : layout.Head h) :
    (diskMap disk).Marked h :=
  sheltered.storage.marked_of_owns (k := (h, .header)) ⟨known, rfl⟩

theorem Sheltered.valid_head (sheltered : Sheltered layout disk) (known : layout.Head h) :
    ValidSector h := by
  obtain ⟨low, high, -⟩ := sheltered.head_marked known
  exact ⟨low, high⟩

/-- A sector that is part of a file other than as its header is no header. -/
theorem Sheltered.not_head (sheltered : Sheltered layout disk) {part : Part}
    (known : layout.Head h) (owned : HasPart disk h part s) (other : part ≠ .header) :
    ¬ layout.Head s := by
  intro head
  have same := sheltered.storage.single (h, part) (s, .header) s ⟨known, owned⟩ ⟨head, rfl⟩
  exact other (congrArg Prod.snd same)

theorem Sheltered.map_headed (sheltered : Sheltered layout disk) : Headed disk 0 128 := by
  obtain ⟨len, headed⟩ := sheltered.headed 0 (.inl rfl)
  obtain rfl : len = 128 := by
    have same := headed.length.symm.trans sheltered.map.length
    omega
  exact headed

theorem Sheltered.map_data (sheltered : Sheltered layout disk) : HasPart disk 0 (.data 0) 2 := by
  refine ⟨?_, ?_⟩
  · rw [sheltered.map_headed.sectors]
    decide
  · rw [dataSector_direct (by omega), sheltered.map.slot]

theorem Sheltered.two_not_head (sheltered : Sheltered layout disk) : ¬ layout.Head 2 :=
  sheltered.not_head (.inl rfl) sheltered.map_data (by simp)

/-- A file whose header and indirect block are left alone keeps its parts. -/
theorem Frame.hasPart_iff (frame : Frame layout disk disk' changed)
    (sheltered : Sheltered layout disk) (known : layout.Head h) (same : ¬ changed h)
    (indirect : 9 ≤ (headerAt disk h).numSectors → ¬ changed ((headerAt disk h).dataSectors 8))
    {part : Part} : HasPart disk' h part s ↔ HasPart disk h part s :=
  hasPart_congr (frame.headers h known same) fun large =>
    frame.others _ (sheltered.not_head known (show HasPart disk h .indirect _ from ⟨large, rfl⟩)
      (by simp)) (indirect large)

theorem Frame.headed (frame : Frame layout disk disk' changed) (known : layout.Head h)
    (same : ¬ changed h) {len : Nat} (headed : Headed disk h len) : Headed disk' h len := by
  have agrees := frame.headers h known same
  exact ⟨agrees.numBytes.trans headed.length, agrees.numSectors.trans headed.sectors,
    agrees.sectorNumber.trans headed.number, headed.fits⟩

/-- The three slots of a directory are data sectors of it. -/
theorem Sheltered.table_slot (sheltered : Sheltered layout disk) (dir : h ∈ layout.dirs)
    {k : Nat} (bound : k < 3) :
    HasPart disk h (.data k) ((headerAt disk h).dataSectors k) := by
  refine ⟨?_, (dataSector_direct (by omega)).symm⟩
  rw [(sheltered.tables h dir).sectors]
  have three : sectorsFor 360 = 3 := rfl
  omega

theorem Frame.table (frame : Frame layout disk disk' changed) (sheltered : Sheltered layout disk)
    (dir : h ∈ layout.dirs) (same : ¬ changed h)
    (blocks : ∀ k, k < 3 → ¬ changed ((headerAt disk h).dataSectors k)) :
    Directory.Same (tableAt disk' h) (tableAt disk h) := by
  have known : layout.Head h := .inr (.inl dir)
  refine Directory.tableOf_congr (fun k bound => (frame.headers h known same).dataSectors (by omega))
    fun k bound => frame.others _ ?_ (blocks k bound)
  exact sheltered.not_head known (sheltered.table_slot dir bound) (by simp)

theorem child_congr {q : Int} {flag : Bool} {c : Int × Bool} {i : Nat}
    (same : i < 10 → Directory.SameEntry (tableAt disk' q) (tableAt disk q) i) :
    Child disk' (q, flag) i c ↔ Child disk (q, flag) i c := by
  unfold Child
  by_cases bound : i < 10
  · have entry := same bound
    dsimp only
    rw [entry.inUse, entry.matches_iff, entry.matches_iff, entry.sector, entry.type]
  · simp [bound]

theorem child_same {q : Int} {flag : Bool} {c : Int × Bool} {i : Nat}
    (same : Directory.Same (tableAt disk' q) (tableAt disk q)) :
    Child disk' (q, flag) i c ↔ Child disk (q, flag) i c :=
  child_congr fun bound => same.entry bound

end Frames
end Nachos
