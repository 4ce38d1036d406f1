import Nachos.Filesys.Layout

/-! What each change to the disk does to a consistent layout: nothing, a new
file or directory, a removal, or growth of one file. -/
namespace Nachos
open Effects FileHeader

variable {layout : Layout} {disk disk' : Disk} {changed : Int → Prop} {h p s : Int}

/-- A part of some file is not the free map's data sector, unless it is. -/
theorem Sheltered.ne_two (sheltered : Sheltered layout disk) {part : Part}
    (known : layout.Head h) (owned : HasPart disk h part s) (other : h ≠ 0 ∨ part ≠ .data 0) :
    s ≠ 2 := by
  rintro rfl
  have same := sheltered.storage.single (h, part) (0, .data 0) 2 ⟨known, owned⟩
    ⟨.inl rfl, sheltered.map_data⟩
  rcases other with other | other
  · exact other (congrArg Prod.fst same)
  · exact other (congrArg Prod.snd same)

theorem Sheltered.ne_slot (sheltered : Sheltered layout disk) {part : Part}
    (known : layout.Head h) (owned : HasPart disk h part s) (dir : p ∈ layout.dirs) {k : Nat}
    (bound : k < 3) (other : h ≠ p ∨ part ≠ .data k) : s ≠ (headerAt disk p).dataSectors k := by
  rintro rfl
  have same := sheltered.storage.single (h, part) (p, .data k) _ ⟨known, owned⟩
    ⟨.inr (.inl dir), sheltered.table_slot dir bound⟩
  rcases other with other | other
  · exact other (congrArg Prod.fst same)
  · exact other (congrArg Prod.snd same)

/-- A directory and its table are apart from the free map. -/
theorem Sheltered.dir_apart (sheltered : Sheltered layout disk) (dir : p ∈ layout.dirs) :
    p ≠ 0 ∧ p ≠ 2 ∧ ∀ k, k < 3 → (headerAt disk p).dataSectors k ≠ 0 ∧
      (headerAt disk p).dataSectors k ≠ 2 ∧ (headerAt disk p).dataSectors k ≠ p := by
  have head : layout.Head p := .inr (.inl dir)
  have notMap : p ≠ 0 := by
    rintro rfl
    exact sheltered.mapAlone.1 dir
  refine ⟨notMap, ?_, fun k bound => ?_⟩
  · rintro rfl
    exact sheltered.two_not_head head
  · have owned := sheltered.table_slot dir bound
    have notHead := sheltered.not_head head owned (by simp)
    refine ⟨fun zero => notHead (.inl zero), sheltered.ne_two head owned (.inl notMap), ?_⟩
    intro own
    rw [own] at notHead
    exact notHead head

theorem Sheltered.root (sheltered : Sheltered layout disk) : (1 : Int) ∈ layout.dirs :=
  sheltered.tree.top

theorem Sheltered.whole (sheltered : Sheltered layout disk) : layout.Within layout :=
  ⟨sheltered.root, fun _ => id, fun _ => id⟩

/-- What a file owns is marked. -/
theorem Sheltered.part_marked (sheltered : Sheltered layout disk) {part : Part}
    (known : layout.Head h) (owned : HasPart disk h part s) : (diskMap disk).Marked s :=
  sheltered.storage.marked_of_owns (k := (h, part)) ⟨known, owned⟩

/-- As long as all directories keep their tables, nothing but the storage and the
headers need be looked at again. -/
theorem Sheltered.same_tables (before : Sheltered layout disk)
    (storage : Shelter (Claims layout disk') (diskMap disk').Marked)
    (map : IsMapHeader (headerAt disk' 0)) (headed : ∀ h, layout.Head h → ∃ len, Headed disk' h len)
    (tables : ∀ h ∈ layout.dirs, Headed disk' h 360)
    (same : ∀ h ∈ layout.dirs, Directory.Same (tableAt disk' h) (tableAt disk h)) :
    Sheltered layout disk' := by
  have rootTable := same 1 before.root
  refine ⟨storage, before.tree.congr (fun _ => Iff.rfl) ?_, before.kinds, before.mapAlone, map, headed,
    tables, ?_, ?_, ?_, ?_, ?_⟩
  · rintro ⟨q, flag⟩ i c known
    cases flag with
    | false => exact ⟨fun link => absurd link.1 (by simp), fun link => absurd link.1 (by simp)⟩
    | true => exact child_same (same q known)
  · intro h dir
    rw [((same h dir).entry (by omega)).matches_iff, ((same h dir).entry (by omega)).matches_iff]
    exact before.self h dir
  · intro h dir
    rw [((same h dir).entry (by omega)).sector]
    exact before.dots h dir
  · intro q dir i c link
    have old : Child disk (q, true) i (c, true) := (child_same (same q dir)).mp link
    have below : c ∈ layout.dirs := (before.tree.closed (q, true) i (c, true) dir old).1
    rw [((same c below).entry (by omega)).sector]
    exact before.dads q dir i c old
  · rw [(rootTable.entry (by omega)).sector, (rootTable.entry (by omega)).sector,
      (rootTable.entry (by omega)).type, (rootTable.entry (by omega)).type]
    exact before.rootSelf
  · intro h dir i j boundI boundJ
    have entryI := (same h dir).entry boundI
    have entryJ := (same h dir).entry boundJ
    rw [entryI.inUse, entryJ.inUse, entryI.names_iff entryJ]
    exact before.names h dir i j boundI boundJ

section Unowned

variable (sheltered : Sheltered layout disk)
  (frame : Frame layout disk disk' fun s => ¬ (diskMap disk).Marked s)

include sheltered frame

/-- Changing clock texts and sectors nobody owns leaves every file its parts. -/
theorem Sheltered.claims_iff (k : Int × Part) (s : Int) :
    Claims layout disk' k s ↔ Claims layout disk k s := by
  refine and_congr_right fun known => frame.hasPart_iff sheltered known ?_ ?_
  · exact fun clear => clear (sheltered.head_marked known)
  · exact fun large clear => clear
      (sheltered.part_marked known (show HasPart disk k.1 .indirect _ from ⟨large, rfl⟩))

theorem Sheltered.same_map : BitMap.Same (diskMap disk') (diskMap disk) :=
  diskMap_same (frame.others 2 sheltered.two_not_head fun clear =>
    clear (sheltered.part_marked (.inl rfl) sheltered.map_data))

/-- It changes nothing that matters. -/
theorem Sheltered.quiet : Sheltered layout disk' := by
  have head : ∀ h, layout.Head h → ¬ ¬ (diskMap disk).Marked h := fun h known clear =>
    clear (sheltered.head_marked known)
  refine sheltered.same_tables
    (sheltered.storage.congr (sheltered.claims_iff frame) (sheltered.same_map frame).marks)
    (sheltered.map.agrees (frame.headers 0 (.inl rfl) (head 0 (.inl rfl)))) ?_ ?_ ?_
  · intro h known
    obtain ⟨len, headed⟩ := sheltered.headed h known
    exact ⟨len, frame.headed known (head h known) headed⟩
  · intro h dir
    exact frame.headed (.inr (.inl dir)) (head h (.inr (.inl dir))) (sheltered.tables h dir)
  · intro h dir
    refine frame.table sheltered dir (head h (.inr (.inl dir))) fun k bound clear => ?_
    exact clear (sheltered.part_marked (.inr (.inl dir)) (sheltered.table_slot dir bound))

end Unowned

theorem Consistent.quiet (consistent : Consistent layout disk)
    (frame : Frame layout disk disk' fun s => ¬ (diskMap disk).Marked s) :
    Consistent layout disk' :=
  (consistent.sheltered.quiet frame).consistent (consistent.partition.congr
    (consistent.sheltered.claims_iff frame) (consistent.sheltered.same_map frame).marks)

/-! ## Editing one directory -/

/-- The disk changed in the free map, in sectors nobody owned and in the table
of directory `p`. -/
structure Edited (layout : Layout) (disk disk' : Disk) (p : Int) : Prop where
  parent : p ∈ layout.dirs
  frame : Frame layout disk disk' fun s => s = 2 ∨ ¬ (diskMap disk).Marked s ∨
    ∃ k, k < 3 ∧ s = (headerAt disk p).dataSectors k

namespace Edited

theorem widen {scope : Layout} (edited : Edited scope disk disk' p)
    (within : scope.Within layout) : Edited layout disk disk' p :=
  ⟨within.dirs p edited.parent, edited.frame.widen within⟩

/-- What an existing file owns is not overwritten, apart from the free map and
the directory that gains an entry. -/
theorem unchanged (edited : Edited layout disk disk' p)
    (sheltered : Sheltered layout disk) {part : Part} (known : layout.Head h)
    (owned : HasPart disk h part s)
    (other : ∀ k, part = .data k → h ≠ 0 ∧ h ≠ p) :
    ¬ (s = 2 ∨ ¬ (diskMap disk).Marked s ∨ ∃ k, k < 3 ∧ s = (headerAt disk p).dataSectors k) := by
  rintro (two | clear | ⟨k, bound, slot⟩)
  · refine sheltered.ne_two known owned ?_ two
    by_cases data : part = .data 0
    · exact .inl (other 0 data).1
    · exact .inr data
  · exact clear (sheltered.storage.marked_of_owns (k := (h, part)) ⟨known, owned⟩)
  · refine sheltered.ne_slot known owned edited.parent bound ?_ slot
    by_cases data : part = .data k
    · exact .inl (other k data).2
    · exact .inr data

theorem header_unchanged (edited : Edited layout disk disk' p)
    (sheltered : Sheltered layout disk) (known : layout.Head h) :
    ¬ (h = 2 ∨ ¬ (diskMap disk).Marked h ∨ ∃ k, k < 3 ∧ h = (headerAt disk p).dataSectors k) :=
  edited.unchanged sheltered known (show HasPart disk h .header h from rfl) (by simp)

theorem hasPart_iff (edited : Edited layout disk disk' p)
    (sheltered : Sheltered layout disk) (known : layout.Head h) {part : Part} :
    HasPart disk' h part s ↔ HasPart disk h part s :=
  edited.frame.hasPart_iff sheltered known (edited.header_unchanged sheltered known)
    fun large => edited.unchanged sheltered known (show HasPart disk h .indirect _ from ⟨large, rfl⟩)
      (by simp)

theorem other_table (edited : Edited layout disk disk' p)
    (sheltered : Sheltered layout disk) (dir : h ∈ layout.dirs) (other : h ≠ p) :
    Directory.Same (tableAt disk' h) (tableAt disk h) := by
  have known : layout.Head h := .inr (.inl dir)
  have notMap : h ≠ 0 := by
    rintro rfl
    exact sheltered.mapAlone.1 dir
  exact edited.frame.table sheltered dir (edited.header_unchanged sheltered known)
    fun k bound => edited.unchanged sheltered known (sheltered.table_slot dir bound)
      fun _ _ => ⟨notMap, other⟩

end Edited

/-! ## A new file or directory -/

/-- A table without entries of its own names no file and no directory. -/
theorem childless {sector dadSector : Int} {flag : Bool}
    (fresh : Directory.Fresh (tableAt disk h) sector dadSector) (j : Nat) (c : Int × Bool) :
    ¬ Child disk (h, flag) j c := by
  rintro ⟨-, inside, used, notSelf, notDad, -⟩
  by_cases zeroth : j = 0
  · rw [zeroth] at notSelf
    exact notSelf fresh.self
  · by_cases first : j = 1
    · rw [first] at notDad
      exact notDad fresh.parent
    · have clear := fresh.unused j (by omega) inside
      dsimp only at used
      rw [clear] at used
      cases used

/-- The effect of a successful `Create`: header `hs` with its sectors is new,
and entry `i` of directory `p` names it. -/
structure Created (layout : Layout) (disk disk' : Disk) (p hs : Int) (i : Nat) (name : Name)
    (isDir : Bool) (len : Nat) : Prop extends Edited layout disk disk' p where
  headed : Headed disk' hs len
  taken : (diskMap disk).Takes (claimed disk' hs) (diskMap disk')
  absent : (tableAt disk p).entryIndex name = none
  slot : (tableAt disk p).freeSlot = some i
  entry : Directory.Same (tableAt disk' p)
    ((tableAt disk p).entered i name hs (if isDir then 0 else 1))
  table : isDir = true → len = 360 ∧ Directory.Fresh (tableAt disk' hs) hs p
  rest : ∀ s, ¬ (diskMap disk').Marked s → disk' s = disk s

namespace Created

variable {hs : Int} {i : Nat} {name : Name} {isDir : Bool} {len : Nat}

theorem widen {scope : Layout} (created : Created scope disk disk' p hs i name isDir len)
    (within : scope.Within layout) : Created layout disk disk' p hs i name isDir len :=
  { created with toEdited := created.toEdited.widen within }

theorem header_fresh (created : Created layout disk disk' p hs i name isDir len) :
    ¬ (diskMap disk).Marked hs ∧ ValidSector hs := by
  obtain ⟨low, high, clear⟩ :=
    created.taken.fresh hs (mem_claimed.mpr ⟨.header, rfl⟩)
  exact ⟨clear, low, high⟩

theorem not_head (created : Created layout disk disk' p hs i name isDir len)
    (sheltered : Sheltered layout disk) : ¬ layout.Head hs := fun known =>
  created.header_fresh.1 (sheltered.head_marked known)

theorem slot_bounds (created : Created layout disk disk' p hs i name isDir len)
    (sheltered : Sheltered layout disk) :
    2 ≤ i ∧ i < 10 ∧ (tableAt disk p).inUse i = false := by
  obtain ⟨bound, unused⟩ := Directory.freeSlot_some created.slot
  obtain ⟨self, dad⟩ := sheltered.self p created.parent
  refine ⟨?_, bound, unused⟩
  by_contra small
  have cases : i = 0 ∨ i = 1 := by omega
  rcases cases with rfl | rfl
  · rw [self.1] at unused
    cases unused
  · rw [dad.1] at unused
    cases unused

/-- Every entry but the new one is as it was. -/
theorem old_entry (created : Created layout disk disk' p hs i name isDir len)
    (sheltered : Sheltered layout disk) (dir : h ∈ layout.dirs) {j : Nat} (bound : j < 10)
    (other : h ≠ p ∨ j ≠ i) : Directory.SameEntry (tableAt disk' h) (tableAt disk h) j := by
  by_cases same : h = p
  · subst same
    have elsewhere := Directory.entered_elsewhere (tableAt disk h) i name hs (if isDir then 0 else 1)
    have entry := created.entry.entry bound
    have old := elsewhere.sameEntry (j := j) (by simpa using other)
    exact fun k less => (entry k less).trans (old k less)
  · exact (created.other_table sheltered dir same).entry bound

theorem new_entry (created : Created layout disk disk' p hs i name isDir len)
    (sheltered : Sheltered layout disk) :
    (tableAt disk' p).Matches name i ∧ (tableAt disk' p).sector i = hs ∧
      decide ((tableAt disk' p).type i = 0) = isDir ∧
      Name.strncmpEq ((tableAt disk' p).name i) name.chars FileNameMaxLen = true := by
  obtain ⟨-, bound, -⟩ := created.slot_bounds sheltered
  have entry := created.entry.entry bound
  have kind : (if isDir then (0 : Int) else 1) = 0 ∨ (if isDir then (0 : Int) else 1) = 1 := by
    cases isDir <;> simp
  obtain ⟨used, sector, type, -⟩ := Directory.entered_entry (tableAt disk p) i name
    created.header_fresh.2 kind
  have found := Directory.entered_matches (tableAt disk p) i name created.header_fresh.2 kind
  refine ⟨(entry.matches_iff name).mpr found, entry.sector.trans sector, ?_, ?_⟩
  · rw [entry.type, type]
    cases isDir <;> simp
  · rw [entry.strncmpEq]
    exact found.2

/-- The new name differs from every name already there. -/
theorem name_new (created : Created layout disk disk' p hs i name isDir len)
    (sheltered : Sheltered layout disk) {j : Nat} (bound : j < 10) (other : j ≠ i)
    (used : (tableAt disk' p).inUse j = true) {text : Memory}
    (here : Name.strncmpEq ((tableAt disk' p).name j) text FileNameMaxLen = true)
    (there : Name.strncmpEq ((tableAt disk' p).name i) text FileNameMaxLen = true) : False := by
  have old := created.old_entry sheltered created.parent bound (.inr other)
  refine Directory.entryIndex_none created.absent (show j < 10 from bound) ⟨?_, ?_⟩
  · rw [← old.inUse]
    exact used
  · rw [← old.strncmpEq]
    have new := (created.new_entry sheltered).2.2.2
    exact Name.strncmpEq_trans here (Name.strncmpEq_trans (Name.strncmpEq_symm there) new)

/-- The files own what they owned, and the new one its sectors. -/
theorem claims_iff (created : Created layout disk disk' p hs i name isDir len)
    (sheltered : Sheltered layout disk) (k : Int × Part) (s : Int) :
    Claims (layout.add hs isDir) disk' k s ↔
      Claims layout disk k s ∨ k.1 = hs ∧ HasPart disk' hs k.2 s := by
  obtain ⟨q, part⟩ := k
  unfold Claims
  dsimp only
  rw [Layout.head_add]
  constructor
  · rintro ⟨known | rfl, owned⟩
    · exact .inl ⟨known, (created.hasPart_iff sheltered known).mp owned⟩
    · exact .inr ⟨rfl, owned⟩
  · rintro (⟨known, owned⟩ | ⟨rfl, owned⟩)
    · exact ⟨.inl known, (created.hasPart_iff sheltered known).mpr owned⟩
    · exact ⟨.inr rfl, owned⟩

theorem marks (created : Created layout disk disk' p hs i name isDir len) (s : Int) :
    (diskMap disk').Marked s ↔ (diskMap disk).Marked s ∨
      ∃ k : Int × Part, k.1 = hs ∧ HasPart disk' hs k.2 s := by
  rw [created.taken.exactly, mem_claimed]
  constructor
  · rintro (old | ⟨part, owned⟩)
    · exact .inl old
    · exact .inr ⟨(hs, part), rfl, owned⟩
  · rintro (old | ⟨⟨q, part⟩, -, owned⟩)
    · exact .inl old
    · exact .inr ⟨part, owned⟩

theorem fresh (created : Created layout disk disk' p hs i name isDir len) (k : Int × Part) (s : Int)
    (new : k.1 = hs ∧ HasPart disk' hs k.2 s) : ¬ (diskMap disk).Marked s :=
  (created.taken.fresh s (mem_claimed.mpr ⟨k.2, new.2⟩)).2.2

theorem apart (created : Created layout disk disk' p hs i name isDir len) (k k' : Int × Part)
    (s : Int) (first : k.1 = hs ∧ HasPart disk' hs k.2 s)
    (second : k'.1 = hs ∧ HasPart disk' hs k'.2 s) : k = k' :=
  Prod.ext (first.1.trans second.1.symm) (part_unique created.taken.distinct first.2 second.2)

theorem child_iff (created : Created layout disk disk' p hs i name isDir len)
    (sheltered : Sheltered layout disk) {q : Int} (dir : q ∈ layout.dirs) {j : Nat}
    {c : Int × Bool} : Child disk' (q, true) j c ↔
      Child disk (q, true) j c ∨ (q = p ∧ j = i ∧ c = (hs, isDir)) := by
  obtain ⟨low, bound, unused⟩ := created.slot_bounds sheltered
  by_cases new : q = p ∧ j = i
  · obtain ⟨rfl, rfl⟩ := new
    obtain ⟨self, dad⟩ := sheltered.self q dir
    obtain ⟨found, sector, kind, text⟩ := created.new_entry sheltered
    have selfEntry := created.old_entry sheltered dir (show 0 < 10 by omega) (.inr (by omega))
    have dadEntry := created.old_entry sheltered dir (show 1 < 10 by omega) (.inr (by omega))
    constructor
    · rintro ⟨-, -, -, -, -, toSector, toKind⟩
      exact .inr ⟨rfl, rfl, Prod.ext (toSector.symm.trans sector) (toKind.symm.trans kind)⟩
    · rintro (link | ⟨-, -, rfl⟩)
      · have used := link.2.2.1
        dsimp only at used
        rw [unused] at used
        cases used
      · refine ⟨rfl, bound, found.1, fun dotted => ?_, fun dotted => ?_, sector, kind⟩
        · have self' := (selfEntry.matches_iff [dot]).mpr self
          exact created.name_new sheltered (by omega) (by omega) self'.1 self'.2 dotted.2
        · have dad' := (dadEntry.matches_iff [dot, dot]).mpr dad
          exact created.name_new sheltered (by omega) (by omega) dad'.1 dad'.2 dotted.2
  · have same : Child disk' (q, true) j c ↔ Child disk (q, true) j c := child_congr fun inside =>
      created.old_entry sheltered dir inside (by tauto)
    rw [same]
    constructor
    · exact .inl
    · rintro (link | ⟨here, there, -⟩)
      · exact link
      · exact absurd ⟨here, there⟩ new

/-- A new directory has nothing below it. -/
theorem bare (created : Created layout disk disk' p hs i name isDir len) (j : Nat)
    (c : Int × Bool) : ¬ Child disk' (hs, isDir) j c := fun link =>
  childless (created.table link.1).2 j c link

theorem tree (created : Created layout disk disk' p hs i name isDir len)
    (sheltered : Sheltered layout disk) :
    Rooted (Child disk') (layout.add hs isDir).Node (1, true) := by
  have parent : layout.Node (p, true) := created.parent
  refine sheltered.tree.add (p, true) (hs, isDir) i parent ?_ (fun _ => Layout.node_add) ?_
    created.bare
  · intro known
    exact created.not_head sheltered (Layout.head_of_node known)
  · rintro ⟨q, flag⟩ j c known
    cases flag with
    | false =>
      constructor
      · exact fun link => absurd link.1 (by simp)
      · rintro (link | ⟨same, -⟩)
        · exact absurd link.1 (by simp)
        · exact absurd (congrArg Prod.snd same) (by simp)
    | true =>
      rw [created.child_iff sheltered known]
      simp

/-- After a successful `Create` the disk is consistent with one more entry. -/
theorem sheltered (created : Created layout disk disk' p hs i name isDir len)
    (before : Sheltered layout disk) : Sheltered (layout.add hs isDir) disk' := by
  obtain ⟨low, bound, unused⟩ := created.slot_bounds before
  have isNew := created.not_head before
  have headOld : ∀ h, layout.Head h → ∃ len, Headed disk' h len := fun h known => by
    obtain ⟨len, headed⟩ := before.headed h known
    exact ⟨len, created.frame.headed known (created.header_unchanged before known) headed⟩
  have dirs : ∀ h, h ∈ (layout.add hs isDir).dirs → h ∈ layout.dirs ∨ (isDir = true ∧ h = hs) := by
    intro h dir
    cases isDir with
    | true => exact dir.elim (fun same => .inr ⟨rfl, same⟩) .inl
    | false => exact .inl dir
  have entry : ∀ h ∈ layout.dirs, ∀ j, j < 2 →
      Directory.SameEntry (tableAt disk' h) (tableAt disk h) j := fun h dir j less =>
    created.old_entry before dir (by omega) (.inr (by omega))
  refine ⟨before.storage.add _ (created.claims_iff before) created.marks created.fresh created.apart,
    created.tree before, ?_, ?_, ?_, ?_, ?_, ?_, ?_, ?_, ?_, ?_⟩
  · intro h dir file
    have notDir : hs ∉ layout.dirs := fun known => isNew (.inr (.inl known))
    have notFile : hs ∉ layout.files := fun known => isNew (.inr (.inr known))
    cases isDir with
    | true =>
      rcases dir with rfl | dir
      · exact notFile file
      · exact before.kinds h dir file
    | false =>
      rcases file with rfl | file
      · exact notDir dir
      · exact before.kinds h dir file
  · have notMap : (0 : Int) ≠ hs := fun same => isNew (.inl same.symm)
    obtain ⟨notDir, notFile⟩ := before.mapAlone
    cases isDir with
    | true => exact ⟨fun dir => dir.elim notMap notDir, notFile⟩
    | false => exact ⟨notDir, fun file => file.elim notMap notFile⟩
  · exact before.map.agrees (created.frame.headers 0 (.inl rfl)
      (created.header_unchanged before (.inl rfl)))
  · intro h known
    rcases Layout.head_add.mp known with known | rfl
    · exact headOld h known
    · exact ⟨len, created.headed⟩
  · intro h dir
    rcases dirs h dir with dir | ⟨flag, rfl⟩
    · have known : layout.Head h := .inr (.inl dir)
      exact created.frame.headed known (created.header_unchanged before known) (before.tables h dir)
    · have length := (created.table flag).1
      subst length
      exact created.headed
  · intro h dir
    rcases dirs h dir with dir | ⟨flag, rfl⟩
    · rw [(entry h dir 0 (by omega)).matches_iff, (entry h dir 1 (by omega)).matches_iff]
      exact before.self h dir
    · exact ⟨(created.table flag).2.self, (created.table flag).2.parent⟩
  · intro h dir
    rcases dirs h dir with dir | ⟨flag, rfl⟩
    · rw [(entry h dir 0 (by omega)).sector]
      exact before.dots h dir
    · exact (created.table flag).2.selfSector
  · intro q dir j c link
    rcases dirs q dir with dir | ⟨flag, rfl⟩
    · rcases (created.child_iff before dir).mp link with old | ⟨rfl, -, new⟩
      · have below : c ∈ layout.dirs := (before.tree.closed (q, true) j (c, true) dir old).1
        rw [(entry c below 1 (by omega)).sector]
        exact before.dads q dir j c old
      · obtain ⟨rfl, flag⟩ := Prod.mk.inj new
        exact (created.table flag.symm).2.parentSector
    · rw [← flag] at link
      exact absurd link (created.bare j _)
  · have zeroth := entry 1 before.root 0 (by omega)
    have first := entry 1 before.root 1 (by omega)
    rw [zeroth.sector, first.sector, zeroth.type, first.type]
    exact before.rootSelf
  · intro h dir j j' boundJ boundJ' used used' equal
    rcases dirs h dir with dir | ⟨flag, rfl⟩
    · by_cases new : h = p ∧ j = i
      · by_cases new' : j' = i
        · exact new.2.trans new'.symm
        · obtain ⟨rfl, rfl⟩ := new
          refine (created.name_new before boundJ' new' used' ?_ equal).elim
          exact Name.strncmpEq_of_same fun _ _ => rfl
      · by_cases new' : h = p ∧ j' = i
        · obtain ⟨rfl, rfl⟩ := new'
          refine (created.name_new before boundJ (by tauto) used equal ?_).elim
          exact Name.strncmpEq_of_same fun _ _ => rfl
        · have entryJ := created.old_entry before dir boundJ (by tauto)
          have entryJ' := created.old_entry before dir boundJ' (by tauto)
          rw [entryJ.inUse] at used
          rw [entryJ'.inUse] at used'
          rw [entryJ.names_iff entryJ'] at equal
          exact before.names h dir j j' boundJ boundJ' used used' equal
    · exact (created.table flag).2.names boundJ boundJ' used used' equal

theorem consistent (created : Created layout disk disk' p hs i name isDir len)
    (before : Consistent layout disk) : Consistent (layout.add hs isDir) disk' :=
  (created.sheltered before.sheltered).consistent (before.partition.add _
    (created.claims_iff before.sheltered) created.marks created.fresh created.apart)

end Created

/-! ## A removal -/

/-- The effect of a successful `Remove`: entry `i` of directory `p` named `e`,
which is an empty directory or a file. -/
structure Removed (layout : Layout) (disk disk' : Disk) (p e : Int) (i : Nat) (isDir : Bool) :
    Prop extends Edited layout disk disk' p where
  link : Child disk (p, true) i (e, isDir)
  released : (diskMap disk).Releases (claimed disk e) (diskMap disk')
  entry : Directory.Same (tableAt disk' p) ((tableAt disk p).setInUse i false)
  bare : isDir = true → ∀ j c, ¬ Child disk (e, true) j c

namespace Removed

variable {e : Int} {i : Nat} {isDir : Bool}

theorem widen {scope : Layout} (removed : Removed scope disk disk' p e i isDir)
    (within : scope.Within layout) : Removed layout disk disk' p e i isDir :=
  { removed with toEdited := removed.toEdited.widen within }

theorem node (removed : Removed layout disk disk' p e i isDir) (sheltered : Sheltered layout disk) :
    layout.Node (e, isDir) ∧ e ≠ 0 ∧ e ≠ 1 := by
  obtain ⟨known, notRoot⟩ := sheltered.tree.closed (p, true) i (e, isDir) removed.parent removed.link
  refine ⟨known, ?_, ?_⟩
  · rintro rfl
    cases isDir with
    | true => exact sheltered.mapAlone.1 known
    | false => exact sheltered.mapAlone.2 known
  · rintro rfl
    cases isDir with
    | true => exact notRoot rfl
    | false => exact sheltered.kinds 1 sheltered.root known

theorem old_entry (removed : Removed layout disk disk' p e i isDir)
    (sheltered : Sheltered layout disk) (dir : h ∈ layout.dirs) {j : Nat} (bound : j < 10)
    (other : h ≠ p ∨ j ≠ i) : Directory.SameEntry (tableAt disk' h) (tableAt disk h) j := by
  by_cases same : h = p
  · subst same
    have elsewhere := Directory.setInUse_elsewhere (tableAt disk h) i false
    have entry := removed.entry.entry bound
    have old := elsewhere.sameEntry (j := j) (by simpa using other)
    exact fun k less => (entry k less).trans (old k less)
  · exact (removed.other_table sheltered dir same).entry bound

theorem unused (removed : Removed layout disk disk' p e i isDir) :
    (tableAt disk' p).inUse i = false := by
  rw [(removed.entry.entry removed.link.2.1).inUse]
  exact Directory.inUse_setInUse _ _ _

theorem index (removed : Removed layout disk disk' p e i isDir)
    (sheltered : Sheltered layout disk) : i ≠ 0 ∧ i ≠ 1 := by
  obtain ⟨-, -, -, notSelf, notDad, -⟩ := removed.link
  obtain ⟨self, dad⟩ := sheltered.self p removed.parent
  exact ⟨fun same => notSelf (by rw [same]; exact self), fun same => notDad (by rw [same]; exact dad)⟩

/-- The other files own what they owned. -/
theorem claims_iff (removed : Removed layout disk disk' p e i isDir)
    (sheltered : Sheltered layout disk) (k : Int × Part) (s : Int) :
    Claims (layout.remove e) disk' k s ↔ Claims layout disk k s ∧ ¬ k.1 = e := by
  obtain ⟨q, part⟩ := k
  unfold Claims
  dsimp only
  rw [Layout.head_remove (removed.node sheltered).2.1]
  constructor
  · rintro ⟨⟨knownQ, other⟩, owned⟩
    exact ⟨⟨knownQ, (removed.hasPart_iff sheltered knownQ).mp owned⟩, other⟩
  · rintro ⟨⟨knownQ, owned⟩, other⟩
    exact ⟨⟨knownQ, other⟩, (removed.hasPart_iff sheltered knownQ).mpr owned⟩

theorem marks (removed : Removed layout disk disk' p e i isDir)
    (sheltered : Sheltered layout disk) (s : Int) :
    (diskMap disk').Marked s ↔
      (diskMap disk).Marked s ∧ ∀ k : Int × Part, k.1 = e → ¬ Claims layout disk k s := by
  have head : layout.Head e := Layout.head_of_node (removed.node sheltered).1
  rw [removed.released.exactly, mem_claimed]
  apply and_congr_right
  intro _
  constructor
  · rintro free ⟨q, part⟩ rfl ⟨-, owned⟩
    exact free ⟨part, owned⟩
  · rintro free ⟨part, owned⟩
    exact free (e, part) rfl ⟨head, owned⟩

theorem child_iff (removed : Removed layout disk disk' p e i isDir)
    (sheltered : Sheltered layout disk) {q : Int} (dir : q ∈ layout.dirs) {j : Nat}
    {c : Int × Bool} : Child disk' (q, true) j c ↔
      Child disk (q, true) j c ∧ ¬ (q = p ∧ j = i) := by
  by_cases here : q = p ∧ j = i
  · obtain ⟨rfl, rfl⟩ := here
    constructor
    · intro link
      have used := link.2.2.1
      dsimp only at used
      rw [removed.unused] at used
      cases used
    · exact fun link => absurd ⟨rfl, rfl⟩ link.2
  · have same : Child disk' (q, true) j c ↔ Child disk (q, true) j c := child_congr fun inside =>
      removed.old_entry sheltered dir inside (by tauto)
    rw [same]
    exact ⟨fun link => ⟨link, here⟩, fun link => link.1⟩

theorem tree (removed : Removed layout disk disk' p e i isDir)
    (sheltered : Sheltered layout disk) :
    Rooted (Child disk') (layout.remove e).Node (1, true) := by
  obtain ⟨known, notMap, -⟩ := removed.node sheltered
  refine sheltered.tree.cut (p, true) (e, isDir) i removed.parent removed.link ?_ ?_ ?_ ?_
  · rintro ⟨c, flag⟩ ⟨-, -, -, -, -, sector, kind⟩
    obtain ⟨-, -, -, -, -, sector', kind'⟩ := removed.link
    exact Prod.ext (sector.symm.trans sector') (kind.symm.trans kind')
  · rintro ⟨c, flag⟩
    have other : ∀ flag', layout.Node (c, flag') → (c ≠ e ↔ (c, flag') ≠ (e, isDir)) := by
      intro flag' knownC
      constructor
      · exact fun different same => different (congrArg Prod.fst same)
      · rintro different rfl
        refine different (Prod.ext rfl ?_)
        cases flag' <;> cases isDir
        · rfl
        · exact absurd knownC (sheltered.kinds c known)
        · exact absurd known (sheltered.kinds c knownC)
        · rfl
    cases flag with
    | true => exact and_congr_right fun knownC => other true knownC
    | false => exact and_congr_right fun knownC => other false knownC
  · rintro ⟨q, flag⟩ j c knownQ
    cases flag with
    | false =>
      constructor
      · exact fun link => absurd link.1 (by simp)
      · exact fun link => absurd link.1.1 (by simp)
    | true =>
      rw [removed.child_iff sheltered knownQ]
      simp
  · rintro j c link
    have flag : isDir = true := link.1
    subst flag
    exact removed.bare rfl j c link

/-- After a successful `Remove` the disk is consistent with one entry less. -/
theorem sheltered (removed : Removed layout disk disk' p e i isDir)
    (before : Sheltered layout disk) : Sheltered (layout.remove e) disk' := by
  obtain ⟨known, notMap, notRoot⟩ := removed.node before
  obtain ⟨notZeroth, notFirst⟩ := removed.index before
  have entry : ∀ h ∈ layout.dirs, ∀ j, j < 2 →
      Directory.SameEntry (tableAt disk' h) (tableAt disk h) j := fun h dir j less =>
    removed.old_entry before dir (by omega) (.inr (by omega))
  refine ⟨before.storage.drop _ (removed.claims_iff before) (removed.marks before),
    removed.tree before, ?_, ?_, ?_, ?_, ?_, ?_, ?_, ?_, ?_, ?_⟩
  · exact fun h dir file => before.kinds h dir.1 file.1
  · exact ⟨fun dir => before.mapAlone.1 dir.1, fun file => before.mapAlone.2 file.1⟩
  · exact before.map.agrees (removed.frame.headers 0 (.inl rfl)
      (removed.header_unchanged before (.inl rfl)))
  · intro h knownH
    obtain ⟨knownH, -⟩ := (Layout.head_remove notMap).mp knownH
    obtain ⟨len, headed⟩ := before.headed h knownH
    exact ⟨len, removed.frame.headed knownH (removed.header_unchanged before knownH) headed⟩
  · intro h dir
    have knownH : layout.Head h := .inr (.inl dir.1)
    exact removed.frame.headed knownH (removed.header_unchanged before knownH)
      (before.tables h dir.1)
  · intro h dir
    rw [(entry h dir.1 0 (by omega)).matches_iff, (entry h dir.1 1 (by omega)).matches_iff]
    exact before.self h dir.1
  · intro h dir
    rw [(entry h dir.1 0 (by omega)).sector]
    exact before.dots h dir.1
  · intro q dir j c link
    obtain ⟨old, -⟩ := (removed.child_iff before dir.1).mp link
    have below : c ∈ layout.dirs := (before.tree.closed (q, true) j (c, true) dir.1 old).1
    rw [(entry c below 1 (by omega)).sector]
    exact before.dads q dir.1 j c old
  · have zeroth := entry 1 before.root 0 (by omega)
    have first := entry 1 before.root 1 (by omega)
    rw [zeroth.sector, first.sector, zeroth.type, first.type]
    exact before.rootSelf
  · intro h dir j j' boundJ boundJ' used used' equal
    have still : ∀ x, (tableAt disk' h).inUse x = true → h ≠ p ∨ x ≠ i := by
      intro x usedX
      by_contra same
      push Not at same
      obtain ⟨rfl, rfl⟩ := same
      rw [removed.unused] at usedX
      cases usedX
    have entryJ := removed.old_entry before dir.1 boundJ (still j used)
    have entryJ' := removed.old_entry before dir.1 boundJ' (still j' used')
    rw [entryJ.inUse] at used
    rw [entryJ'.inUse] at used'
    rw [entryJ.names_iff entryJ'] at equal
    exact before.names h dir.1 j j' boundJ boundJ' used used' equal

theorem consistent (removed : Removed layout disk disk' p e i isDir)
    (before : Consistent layout disk) : Consistent (layout.remove e) disk' :=
  (removed.sheltered before.sheltered).consistent (before.partition.drop _
    (removed.claims_iff before.sheltered) (removed.marks before.sheltered))

end Removed

/-! ## Growth -/

/-- The effect of a write: file `h` keeps its sectors and may gain some. -/
structure Grew (layout : Layout) (disk disk' : Disk) (h : Int) (len len' : Nat) : Prop where
  file : h ∈ layout.files
  before : Headed disk h len
  after : Headed disk' h len'
  more : sectorsFor len ≤ sectorsFor len'
  room : sectorsFor len' ≤ 8 ∨ sectorsFor len' = sectorsFor len
  slots : ∀ i, i < 9 → i < sectorsFor len ∨ sectorsFor len' ≤ i →
    (headerAt disk' h).dataSectors i = (headerAt disk h).dataSectors i
  taken : (diskMap disk).Takes
    ((headerAt disk' h).slots (sectorsFor len) (sectorsFor len' - sectorsFor len)) (diskMap disk')
  indirect : 9 ≤ sectorsFor len →
    disk' ((headerAt disk h).dataSectors 8) = disk ((headerAt disk h).dataSectors 8)
  frame : Frame layout disk disk' fun s => s = h ∨ s = 2 ∨ ¬ (diskMap disk).Marked s ∨
    ∃ k, k < sectorsFor len ∧ s = dataSector disk (headerAt disk h) k

namespace Grew

variable {len len' : Nat} {q : Int}

theorem widen {scope : Layout} (grew : Grew scope disk disk' h len len')
    (within : scope.Within layout) : Grew layout disk disk' h len len' :=
  { grew with
    file := within.files h grew.file
    frame := grew.frame.widen within }

theorem head (grew : Grew layout disk disk' h len len') : layout.Head h := .inr (.inr grew.file)

theorem not_map (grew : Grew layout disk disk' h len len') (sheltered : Sheltered layout disk) :
    h ≠ 0 := by
  rintro rfl
  exact sheltered.mapAlone.2 grew.file

/-- What other files own is not overwritten, apart from the free map. -/
theorem unchanged (grew : Grew layout disk disk' h len len') (sheltered : Sheltered layout disk)
    {part : Part} (known : layout.Head q) (owned : HasPart disk q part s) (other : q ≠ h)
    (notMap : q ≠ 0 ∨ part ≠ .data 0) :
    ¬ (s = h ∨ s = 2 ∨ ¬ (diskMap disk).Marked s ∨
      ∃ k, k < sectorsFor len ∧ s = dataSector disk (headerAt disk h) k) := by
  have differs : ∀ part', HasPart disk h part' s → False := fun part' owned' =>
    other (congrArg Prod.fst (sheltered.storage.single (q, part) (h, part') s ⟨known, owned⟩
      ⟨grew.head, owned'⟩))
  rintro (rfl | two | clear | ⟨k, bound, rfl⟩)
  · exact differs .header rfl
  · exact sheltered.ne_two known owned notMap two
  · exact clear (sheltered.storage.marked_of_owns (k := (q, part)) ⟨known, owned⟩)
  · refine differs (.data k) ⟨?_, rfl⟩
    rw [grew.before.sectors]
    exact_mod_cast bound

theorem other_header (grew : Grew layout disk disk' h len len')
    (sheltered : Sheltered layout disk) (known : layout.Head q) (other : q ≠ h) :
    ¬ (q = h ∨ q = 2 ∨ ¬ (diskMap disk).Marked q ∨
      ∃ k, k < sectorsFor len ∧ q = dataSector disk (headerAt disk h) k) :=
  grew.unchanged sheltered known (show HasPart disk q .header q from rfl) other (.inr (by simp))

theorem other_part (grew : Grew layout disk disk' h len len')
    (sheltered : Sheltered layout disk) (known : layout.Head q) (other : q ≠ h) {part : Part} :
    HasPart disk' q part s ↔ HasPart disk q part s :=
  grew.frame.hasPart_iff sheltered known (grew.other_header sheltered known other) fun large =>
    grew.unchanged sheltered known (show HasPart disk q .indirect _ from ⟨large, rfl⟩) other
      (.inr (by simp))

theorem other_table (grew : Grew layout disk disk' h len len')
    (sheltered : Sheltered layout disk) (dir : q ∈ layout.dirs) :
    Directory.Same (tableAt disk' q) (tableAt disk q) := by
  have known : layout.Head q := .inr (.inl dir)
  have other : q ≠ h := by
    rintro rfl
    exact sheltered.kinds q dir grew.file
  have notMap : q ≠ 0 := by
    rintro rfl
    exact sheltered.mapAlone.1 dir
  exact grew.frame.table sheltered dir (grew.other_header sheltered known other) fun k bound =>
    grew.unchanged sheltered known (sheltered.table_slot dir bound) other (.inl notMap)

/-- The file's own parts: the old ones, and the slots it gained. -/
theorem own_part (grew : Grew layout disk disk' h len len') {part : Part} :
    HasPart disk' h part s ↔ HasPart disk h part s ∨
      ∃ k, part = .data k ∧ sectorsFor len ≤ k ∧ k < sectorsFor len' ∧
        s = (headerAt disk' h).dataSectors k := by
  have more := grew.more
  have room := grew.room
  cases part with
  | header => simp [HasPart]
  | data k =>
    have same : k < sectorsFor len →
        dataSector disk' (headerAt disk' h) k = dataSector disk (headerAt disk h) k := by
      intro bound
      unfold dataSector
      split
      · exact grew.slots k (by omega) (.inl bound)
      · rw [grew.slots 8 (by omega) (by omega), grew.indirect (by omega)]
    simp only [HasPart, grew.before.sectors, grew.after.sectors, Nat.cast_lt]
    constructor
    · rintro ⟨bound, rfl⟩
      by_cases old : k < sectorsFor len
      · exact .inl ⟨old, same old⟩
      · exact .inr ⟨k, rfl, by omega, bound, dataSector_direct (by omega)⟩
    · rintro (⟨old, rfl⟩ | ⟨k', same', past, bound, rfl⟩)
      · exact ⟨by omega, (same old).symm⟩
      · cases same'
        exact ⟨bound, (dataSector_direct (by omega)).symm⟩
  | indirect =>
    simp only [HasPart, grew.before.sectors, grew.after.sectors]
    constructor
    · rintro ⟨large, rfl⟩
      exact .inl ⟨by omega, grew.slots 8 (by omega) (by omega)⟩
    · rintro (⟨large, rfl⟩ | ⟨k, impossible, -⟩)
      · exact ⟨by omega, (grew.slots 8 (by omega) (by omega)).symm⟩
      · cases impossible

/-- The slots a file gained. -/
def Gains (disk' : Disk) (h : Int) (len len' : Nat) (key : Int × Part) (s : Int) : Prop :=
  key.1 = h ∧ ∃ k, key.2 = .data k ∧ sectorsFor len ≤ k ∧ k < sectorsFor len' ∧
    s = (headerAt disk' h).dataSectors k

theorem claims_iff (grew : Grew layout disk disk' h len len') (sheltered : Sheltered layout disk)
    (key : Int × Part) (s : Int) :
    Claims layout disk' key s ↔ Claims layout disk key s ∨ Gains disk' h len len' key s := by
  obtain ⟨q, part⟩ := key
  unfold Claims Gains
  dsimp only
  by_cases own : q = h
  · subst own
    rw [grew.own_part]
    have head := grew.head
    tauto
  · constructor
    · rintro ⟨known, owned⟩
      exact .inl ⟨known, (grew.other_part sheltered known own).mp owned⟩
    · rintro (⟨known, owned⟩ | ⟨same, -⟩)
      · exact ⟨known, (grew.other_part sheltered known own).mpr owned⟩
      · exact absurd same own

theorem mem_gained {s : Int} : s ∈ (headerAt disk' h).slots (sectorsFor len)
    (sectorsFor len' - sectorsFor len) ↔ ∃ k, sectorsFor len ≤ k ∧ k < sectorsFor len' ∧
      s = (headerAt disk' h).dataSectors k := by
  rw [mem_slots]
  constructor
  · rintro ⟨i, bound, rfl⟩
    exact ⟨sectorsFor len + i, by omega, by omega, rfl⟩
  · rintro ⟨k, low, high, rfl⟩
    refine ⟨k - sectorsFor len, by omega, ?_⟩
    congr 1
    omega

theorem marks (grew : Grew layout disk disk' h len len') (s : Int) :
    (diskMap disk').Marked s ↔
      (diskMap disk).Marked s ∨ ∃ key, Gains disk' h len len' key s := by
  rw [grew.taken.exactly, mem_gained]
  constructor
  · rintro (old | ⟨k, low, high, here⟩)
    · exact .inl old
    · exact .inr ⟨(h, .data k), rfl, k, rfl, low, high, here⟩
  · rintro (old | ⟨key, -, k, -, low, high, here⟩)
    · exact .inl old
    · exact .inr ⟨k, low, high, here⟩

theorem fresh (grew : Grew layout disk disk' h len len') (key : Int × Part) (s : Int)
    (gained : Gains disk' h len len' key s) : ¬ (diskMap disk).Marked s := by
  obtain ⟨-, k, -, low, high, here⟩ := gained
  exact (grew.taken.fresh s (mem_gained.mpr ⟨k, low, high, here⟩)).2.2

theorem apart (grew : Grew layout disk disk' h len len') (key key' : Int × Part) (s : Int)
    (first : Gains disk' h len len' key s) (second : Gains disk' h len len' key' s) : key = key' := by
  obtain ⟨own, k, part, low, high, here⟩ := first
  obtain ⟨own', k', part', low', high', here'⟩ := second
  have equal := slot_inj grew.taken.distinct (i := k) (j := k') (by omega) (by omega)
    (here.symm.trans here')
  subst equal
  exact Prod.ext (own.trans own'.symm) (part.trans part'.symm)

/-- After a write the disk is in order with the same entries. -/
theorem sheltered (grew : Grew layout disk disk' h len len') (before : Sheltered layout disk) :
    Sheltered layout disk' := by
  refine before.same_tables
    (before.storage.add _ (grew.claims_iff before) grew.marks grew.fresh grew.apart)
    (before.map.agrees (grew.frame.headers 0 (.inl rfl)
      (grew.other_header before (.inl rfl) (grew.not_map before).symm))) ?_ ?_
    fun q => grew.other_table before
  · intro q known
    by_cases own : q = h
    · subst own
      exact ⟨len', grew.after⟩
    · obtain ⟨len, headed⟩ := before.headed q known
      exact ⟨len, grew.frame.headed known (grew.other_header before known own) headed⟩
  · intro q dir
    have other : q ≠ h := by
      rintro rfl
      exact before.kinds q dir grew.file
    exact grew.frame.headed (.inr (.inl dir)) (grew.other_header before (.inr (.inl dir)) other)
      (before.tables q dir)

theorem consistent (grew : Grew layout disk disk' h len len') (before : Consistent layout disk) :
    Consistent layout disk' :=
  (grew.sheltered before.sheltered).consistent (before.partition.add _
    (grew.claims_iff before.sheltered) grew.marks grew.fresh grew.apart)

end Grew

end Nachos
