import Nachos.Filesys.SessionProofs

/-! A directory made in a sector that holds no header. `Create` opens the handle
through which it writes the new table before the new header is on disk. Where
the sector held zeros, that handle says the file is empty and lives in sector
0: writing through it takes sectors from the free map on disk once more, and
the first of them is the sector of the new header itself. -/
namespace Nachos
open Effects FileHeader

variable {layout : Layout} {disk disk' : Disk} {vis : Counters} {fault : Fault → Prop}
  {fs : FileSystem} {file : OpenFile} {dir : Directory} {p hs : Int} {i : Nat} {name : Name}

/-- The header a zeroed sector holds. -/
structure BlankHeader (hdr : FileHeader) : Prop where
  length : hdr.numBytes = 0
  sectors : hdr.numSectors = 0
  number : hdr.sectorNumber = 0

/-- A table written through a blank header starts in the first free sector. -/
theorem ensures_writeBlankTable {post : OpenFile → Disk → Counters → Prop}
    (size : dir.tableSize = 10) (blank : BlankHeader file.hdr) (map : IsMapHeader (headerAt disk 0))
    (reserved : (diskMap disk).Marked 0) (first : FirstFree disk hs)
    (enough : 3 ≤ (diskMap disk).freeCount)
    (holds : ∀ (hdr' : FileHeader) disk', hdr'.sectorNumber = 0 →
      (∀ o, o < 128 → (disk' hs).mem o = dir.table o) →
      (∀ s, (diskMap disk).Marked s → s ≠ 0 → s ≠ 2 → disk' s = disk s) →
      post { file with hdr := hdr' } disk' vis) :
    Ensures (dir.WriteBack file) post fault disk vis := by
  have three : sectorsFor 360 = 3 := rfl
  have length : file.hdr.numBytes = ((0 : Nat) : Int) := blank.length
  unfold Directory.WriteBack
  rw [size]
  apply ensures_bind
  change Ensures (OpenFile.writeAt (6 + 2) file dir.table ((360 : Nat) : Int) ((0 : Nat) : Int))
    _ _ _ _
  refine OpenFile.ensures_writeAt_past_end length (by omega) (by omega) (by omega) map
    (by rw [blank.number]; decide) ?_
  intro fetched fetchedSame
  have total : file.hdr.numBytes + (((0 : Nat) : Int) + (360 : Nat) - ((0 : Nat) : Int)) =
      (360 : Nat) := by
    rw [length]
    omega
  obtain ⟨hdr₁, after, computed, length₁, -, taken, rest, least⟩ := extend_ok file.hdr
    fetchedSame.size (show file.hdr.numSectors = ((0 : Nat) : Int) from blank.sectors) total
    (by omega) (.inl (by decide)) (by rw [three, fetchedSame.freeCount]; exact enough)
  rw [three] at taken least
  have number₁ : hdr₁.sectorNumber = file.hdr.sectorNumber :=
    congrArg BitVec.toInt (Memory.word_congr fun k less => rest _ (by omega) (by rw [three]; omega))
  have slot : ∀ k, k < 3 → ValidSector (hdr₁.dataSectors k) ∧
      ¬ (diskMap disk).Marked (hdr₁.dataSectors k) := by
    intro k bound
    obtain ⟨low, high, clear⟩ := taken.fresh (hdr₁.dataSectors k)
      (mem_slots.mpr ⟨k, bound, by rw [Nat.zero_add]⟩)
    rw [fetchedSame.size] at high
    exact ⟨⟨low, high⟩, fun marked => clear ((fetchedSame.marks _).mpr marked)⟩
  -- both are the least sector the map on disk has free
  have zeroth : hdr₁.dataSectors 0 = hs := FirstFree.unique ⟨slot 0 (by omega), fun t low less =>
    (fetchedSame.marks t).mp (least (by omega) t low less)⟩ first
  refine ⟨hdr₁, after, computed, number₁, taken.size.trans fetchedSame.size, ?_⟩
  intro disk₃ _ _ _ frame₃
  have block : ∀ k, k * 128 < 0 + 360 → blockSector disk₃ hdr₁ k = hdr₁.dataSectors k :=
    fun k high => blockSector_direct (by omega)
  have own : hdr₁.sectorNumber = 0 := number₁.trans blank.number
  have length₁' : hdr₁.numBytes = ((360 : Nat) : Int) := length₁
  refine OpenFile.ensures_writeBlocks length₁' (by omega) (by omega)
    (show ValidSector hdr₁.sectorNumber by rw [own]; decide) ⟨?_, ?_, ?_, by omega⟩ ?_
  · intro k _ high
    exact OpenFile.Located.direct (by omega) (slot k (by omega)).1
  · intro k k' _ high _ high' same
    rw [block k high, block k' high'] at same
    exact slot_inj taken.distinct ⟨by omega, by omega⟩ ⟨by omega, by omega⟩ same
  · intro k _ high own'
    rw [block k high] at own'
    have clear := (slot k (by omega)).2
    rw [own'] at clear
    dsimp only at clear
    rw [own] at clear
    exact clear reserved
  · intro hdr' disk' wrote
    apply ensures_pure
    refine holds hdr' disk' (wrote.agrees.sectorNumber.trans own) ?_ ?_
    · intro o bound
      have written := wrote.written o (by omega) (by omega)
      dsimp only at written
      rw [block _ (by omega), show o / 128 = 0 by omega, zeroth, Nat.mod_eq_of_lt bound,
        Nat.sub_zero] at written
      exact written
    · intro s marked notZero notTwo
      have apart : s ≠ hdr₁.sectorNumber := by rw [own]; exact notZero
      rw [wrote.frame s apart fun k _ high => ?_]
      · exact frame₃ s (by rw [blank.number]; exact notZero) notZero notTwo
      · dsimp only
        rw [block k high]
        rintro rfl
        exact (slot k (by omega)).2 marked

/-- The effect of `Create` for a directory in a blank sector: the first block of
the new table is where the new header was, and the free map counts the header
and three sectors. -/
structure Overwritten (disk disk' : Disk) (p hs : Int) (i : Nat) (name : Name) (b : Nat) :
    Prop where
  map : IsMapHeader (headerAt disk' 0)
  table : ∃ dir : Directory, dir.Fresh hs p ∧ ∀ o, o < 128 → (disk' hs).mem o = dir.table o
  entry : Directory.Same (tableAt disk' p) ((tableAt disk p).entered i name hs 0)
  taken : (diskMap disk).Takes (hs :: (List.range 3).map fun k => ((b + k : Nat) : Int))
    (diskMap disk')

namespace Overwritten

variable {b : Nat}

/-- What now reads as the number of sectors is the sector `"."` names. -/
theorem numSectors (overwritten : Overwritten disk disk' p hs i name b) :
    (headerAt disk' hs).numSectors = hs := by
  obtain ⟨dir, fresh, bytes⟩ := overwritten.table
  refine Eq.trans (congrArg BitVec.toInt (Memory.word_congr fun k less => ?_)) fresh.selfSector
  exact bytes (4 + k) (by omega)

/-- What now reads as the first data sector is the text `"."`. -/
theorem slot (overwritten : Overwritten disk disk' p hs i name b)
    (low : 0 ≤ (headerAt disk' hs).dataSectors 0) :
    46 ≤ (headerAt disk' hs).dataSectors 0 := by
  obtain ⟨dir, fresh, bytes⟩ := overwritten.table
  have text := (Name.strncmpEq_iff.mp fresh.self.2) 0 (by decide) (by omega)
  have byte : (headerAt disk' hs).mem 8 = 46 := (bytes 8 (by omega)).trans text
  have number := Memory.toNat_word (headerAt disk' hs).mem 8
  rw [byte] at number
  change 0 ≤ ((headerAt disk' hs).mem.word 8).toInt at low
  change 46 ≤ ((headerAt disk' hs).mem.word 8).toInt
  have literal : (46 : UInt8).toNat = 46 := rfl
  rw [literal] at number
  have bound := ((headerAt disk' hs).mem.word 8).isLt
  rw [BitVec.toInt_eq_toNat_cond] at low ⊢
  split at low <;> rename_i small
  · rw [if_pos small]
    omega
  · omega

end Overwritten

section Create

variable {freeMap : BitMap} {hdr : FileHeader} {base : Directory} {b : Nat}

theorem ensures_createDirectory_blank
    {post : Bool × OpenFile × FileSystem → Disk → Counters → Prop}
    (sheltered : Sheltered layout disk) (mounted : Mounted fs disk)
    (known : p ∈ layout.dirs) (current : Current disk file p)
    (header : (diskMap disk).Takes [hs] freeMap)
    (least : ∀ t, 0 ≤ t → t < hs → (diskMap disk).Marked t)
    (same : Directory.Same base (tableAt disk p)) (blank : BlankHeader (headerAt disk hs))
    (run : freeMap.FirstRun 3 b)
    (holds : ∀ file' fs' disk', Overwritten disk disk' p hs i name b →
      Agrees (headerAt disk' p) (headerAt disk p) → file'.hdr.sectorNumber = p →
      post (true, file', fs') disk' vis) :
    Ensures (fs.createDirectory hdr freeMap hs p (base.entered i name hs 0) file)
      post fault disk vis := by
  have bits : freeMap.numBits = 1024 := header.size
  obtain ⟨low, high, clear⟩ := header.fresh hs (by simp)
  have inRange : ValidSector hs := ⟨low, high⟩
  have head : layout.Head p := .inr (.inl known)
  obtain ⟨apartZero, apartTwo, apartSlot⟩ := sheltered.dir_apart known
  have three : sectorsFor 360 = 3 := rfl
  have enough := run.le_freeCount
  have markedZero : (diskMap disk).Marked 0 := sheltered.head_marked (.inl rfl)
  have markedTwo : (diskMap disk).Marked 2 :=
    sheltered.storage.marked_of_owns (k := (0, .data 0)) ⟨.inl rfl, sheltered.map_data⟩
  have differs : ∀ t, (diskMap disk).Marked t → hs ≠ t := fun t marked equal =>
    clear (equal ▸ marked)
  unfold FileSystem.createDirectory
  apply ensures_bind
  change Ensures (hdr.Allocate freeMap ((360 : Nat) : Int)) _ _ _ _
  refine ensures_Allocate_direct bits (by rw [three]; omega) (by rw [three]; exact enough)
    (fun none => absurd run (none b)) ?_
  intro hdr₁ after _ _ taken first
  obtain ⟨b', firstRun, run₁⟩ := first (.inl (by rw [three]; omega))
  rw [three] at taken firstRun run₁
  obtain rfl := firstRun.unique run
  dsimp only
  rw [if_neg (by simp)]
  apply ensures_bind
  refine ensures_stamp inRange ?_
  intro hdr₂ _ _
  apply ensures_bind
  have staleNumber : FileHeader.sectorNumber ⟨disk hs⟩ = 0 := blank.number
  refine OpenFile.ensures_new inRange (by rw [staleNumber]; decide) ?_
  rw [staleNumber]
  apply ensures_bind
  apply ensures_bind
  apply ensures_uninitialized
  intro storage
  apply ensures_pure
  have fresh := Directory.make_fresh storage inRange (sheltered.valid_head head)
  apply ensures_bind
  refine ensures_WriteBack inRange ?_
  have firstFrame : ∀ s, (diskMap disk).Marked s → Function.update disk hs hdr₂.raw s = disk s :=
    fun s marked => Function.update_of_ne (differs s marked).symm _ _
  generalize Function.update disk hs hdr₂.raw = diskB at firstFrame
  apply ensures_bind
  refine ensures_writeTable sheltered known current same.size ?_
  intro file' diskC currentC parentC tableC frameC
  have keptC : ∀ s, (diskMap disk).Marked s → s ≠ p →
      (∀ k, k < 3 → s ≠ (headerAt disk p).dataSectors k) → diskC s = disk s :=
    fun s marked notDir slots => (frameC s notDir slots).trans (firstFrame s marked)
  have zeroC : headerAt diskC 0 = headerAt disk 0 := headerAt_congr
    (keptC 0 markedZero apartZero.symm fun k bound => (apartSlot k bound).1.symm)
  have mapC : BitMap.Same (diskMap diskC) (diskMap disk) := diskMap_same
    (keptC 2 markedTwo apartTwo.symm fun k bound => (apartSlot k bound).2.1.symm)
  have firstC : FirstFree diskC hs :=
    ⟨⟨inRange, fun marked => clear ((mapC.marks hs).mp marked)⟩,
      fun t lower upper => (mapC.marks t).mpr (least t lower upper)⟩
  apply ensures_bind
  refine ensures_writeBlankTable fresh.size blank (by rw [zeroC]; exact sheltered.map)
    ((mapC.marks 0).mpr markedZero) firstC ?_ ?_
  · have count := BitMap.freeCount_takes header
    rw [mapC.freeCount]
    omega
  intro hdr₃ diskD number₃ tableD frameD
  have keptD : ∀ s, (diskMap disk).Marked s → s ≠ 0 → s ≠ 2 → diskD s = diskC s :=
    fun s marked => frameD s ((mapC.marks s).mpr marked)
  apply ensures_bind
  refine BitMap.ensures_WriteBack (taken.size.trans bits) (sheltered.map.agrees mounted.map) ?_
  intro mapHdr diskE agreesE zeroE mapE frameE
  apply ensures_bind
  refine OpenFile.ensures_delete (by rw [number₃]; decide) ?_
  have restored : Function.update (Function.update vis 0 (vis 0 + 1)) hdr₃.sectorNumber
      (Function.update vis 0 (vis 0 + 1) hdr₃.sectorNumber - 1) = vis := by
    rw [number₃, Function.update_self, Function.update_idem]
    simp
  rw [restored]
  apply ensures_pure
  obtain ⟨parentE, unchanged⟩ := sheltered.table_kept known parentC fun s marked notMap notTwo =>
    (frameE s notMap notTwo).trans (keptD s marked notMap notTwo)
  refine holds _ _ _ ⟨?_, ⟨_, fresh, fun o bound => ?_⟩, ?_, ?_⟩ ?_ ?_
  · unfold headerAt
    rw [zeroE]
    exact (sheltered.map.agrees mounted.map).agrees agreesE
  · rw [frameE hs (differs 0 markedZero) (differs 2 markedTwo)]
    exact tableD o bound
  · exact unchanged.trans (tableC.trans (same.entered i name hs 0))
  · have list : (hs :: (List.range 3).map fun k => ((b' + k : Nat) : Int)) =
        [hs] ++ hdr₁.slots 0 3 := by
      rw [List.singleton_append]
      congr 1
      apply List.map_congr_left
      intro k member
      rw [Nat.zero_add, run₁ k (List.mem_range.mp member)]
    rw [list]
    exact (header.append taken).congr (BitMap.Same.refl _) mapE
  · rw [parentE]
    exact parentC
  · exact (currentC.sectorNumber.trans parentC.sectorNumber).trans
      (sheltered.tables p known).number

/-- `Create` of a directory whose header goes to a blank sector succeeds and
overwrites that header with the directory's own table. -/
theorem ensures_Create_directory_blank {post : Bool × FileSystem → Disk → Counters → Prop}
    (sheltered : Sheltered layout disk) (mounted : Mounted fs disk) (plain : name.Plain)
    (absent : (tableAt disk 1).entryIndex name = none)
    (slot : (tableAt disk 1).freeSlot = some i) (first : FirstFree disk hs)
    (blank : BlankHeader (headerAt disk hs))
    (run : ∀ freeMap, (diskMap disk).Takes [hs] freeMap → freeMap.FirstRun 3 b)
    (holds : ∀ fs' disk', Overwritten disk disk' 1 hs i name b →
      Agrees (headerAt disk' 1) (headerAt disk 1) → post (true, fs') disk' vis) :
    Ensures (fs.Create name (-1)) post fault disk vis := by
  have split := splitPath_of_plain plain
  obtain ⟨dotIndex, dotLookup⟩ := sheltered.lookup_dot
  refine ensures_Create sheltered sheltered.reach mounted (sheltered.safe_of_plain plain) ?_ ?_ ?_
  · intro missing
    rw [split, dotIndex] at missing
    cases missing
  · intro fs' disk' p lookup refused
    rw [split, dotLookup] at lookup
    subst lookup
    rw [split] at refused
    rcases refused with present | full | full
    · exact absurd absent present
    · rw [slot] at full
      cases full
    · exact absurd (full hs first.1.1) first.1.2
  · intro fs' file disk' base hs' freeMap i' p hdr lookup known quiet mounted' _ current same taken
      least absent' slot'
    rw [split, dotLookup] at lookup
    subst lookup
    have sheltered' := quiet.sheltered sheltered
    have map := quiet.map sheltered
    have original := same.trans (quiet.same_table sheltered known)
    obtain rfl := first.unique ((firstFree_of_takes taken least).quiet quiet sheltered)
    rw [Directory.freeSlot_congr original, slot] at slot'
    obtain rfl := Option.some.inj slot'
    have unowned : ¬ layout.Head hs := fun head => first.1.2 (sheltered.head_marked head)
    have agrees := quiet.agrees (.inr (.inl known))
    rw [if_pos rfl, if_pos rfl, split]
    refine ensures_createDirectory_blank sheltered' mounted' known current taken least same
      (by rw [headerAt_congr (quiet.others hs unowned id)]; exact blank)
      (run freeMap (taken.congr map.symm (BitMap.Same.refl _))) ?_
    intro file' fs'' disk'' overwritten agrees' number
    refine .inl ⟨rfl, number, holds fs'' disk'' ⟨overwritten.map, overwritten.table, ?_, ?_⟩
      (agrees'.trans agrees)⟩
    · exact overwritten.entry.trans ((quiet.same_table sheltered known).entered _ _ _ _)
    · exact overwritten.taken.congr map.symm (BitMap.Same.refl _)

end Create

/-! ## A freshly formatted disk -/

/-- Making a directory on a formatted disk of zeros succeeds and leaves the
directory's table in place of its header. -/
theorem ensures_mkdir_formatted {post : Bool × FileSystem → Disk → Counters → Prop} {before : Disk}
    (formatted : Formatted before disk) (mounted : Mounted fs disk) (plain : name.Plain)
    (notDot : ¬ Name.strncmpEq (Name.chars [dot]) name.chars FileNameMaxLen = true)
    (notDots : ¬ Name.strncmpEq (Name.chars [dot, dot]) name.chars FileNameMaxLen = true)
    (zeros : before 6 = fun _ => 0)
    (holds : ∀ fs' disk' i, i < 10 → Overwritten disk disk' 1 6 i name 7 →
      post (true, fs') disk' vis) :
    Ensures (fs.Create name (-1)) post fault disk vis := by
  have marks : (diskMap disk).Prefix 6 := ⟨rfl, formatted.marked⟩
  have blank : BlankHeader (headerAt disk 6) := by
    unfold headerAt
    rw [formatted.rest 6 (by omega), zeros]
    exact ⟨rfl, rfl, rfl⟩
  cases slot : (tableAt disk 1).freeSlot with
  | none =>
    have used := List.find?_eq_none.mp slot 2 (List.mem_range.mpr (show 2 < 10 by omega))
    rw [formatted.table.unused 2 (by omega) (by omega)] at used
    exact absurd rfl used
  | some i =>
    refine ensures_Create_directory_blank formatted.sheltered mounted plain
      (formatted.absent notDot notDots) slot formatted.firstFree blank ?_ fun fs' disk' overwritten _ =>
        holds fs' disk' i (Directory.freeSlot_some slot).1 overwritten
    intro freeMap taken
    refine BitMap.Prefix.run ⟨taken.size, fun s => ?_⟩ (by omega) (by omega)
    rw [taken.exactly, formatted.marked, List.mem_singleton]
    omega

end Nachos
