import Nachos.Effects.SlotTable
import Nachos.Filesys.DirectoryProofs

/-! A `Directory` asked for names without `'/'` is a finite map from the first
`FileNameMaxLen` characters of a name to a sector. Stale names of entries that
are not in use do not matter, nor does the entry a name is put in. -/
namespace Nachos
open Effects

/-! ## Names as keys -/

namespace Name

/-- The string stored in at most `count` characters. -/
def text (chars : Memory) (count : Nat) : Name :=
  ((List.range count).map chars).takeWhile (· ≠ 0)

theorem text_succ (chars : Memory) (count : Nat) : text chars (count + 1) =
    if chars 0 = 0 then [] else chars 0 :: text (fun i => chars (i + 1)) count := by
  unfold text
  rw [List.range_succ_eq_map, List.map_cons, List.map_map]
  split
  · rename_i ended
    exact List.takeWhile_cons_of_neg (by simp [ended])
  · rename_i goes_on
    exact List.takeWhile_cons_of_pos (by simp [goes_on])

/-- `strncmp` compares the strings stored. -/
theorem strncmpEq_iff_text {a b : Memory} {count : Nat} :
    strncmpEq a b count = true ↔ text a count = text b count := by
  induction count generalizing a b with
  | zero => exact iff_of_true rfl rfl
  | succ count ih =>
    simp only [strncmpEq, Bool.and_eq_true, Bool.or_eq_true, beq_iff_eq, ih, text_succ]
    by_cases first : a 0 = b 0
    · rw [first]
      by_cases ended : b 0 = 0
      · simp [ended]
      · simp [ended]
    · by_cases endA : a 0 = 0
      · have goes_on : b 0 ≠ 0 := fun endB => first (endA.trans endB.symm)
        simp [endA, goes_on, goes_on.symm]
      · by_cases endB : b 0 = 0
        · simp [endA, endB]
        · simp [first, endA, endB]

theorem text_chars {name : Name} (string : 0 ∉ name) (count : Nat) :
    text name.chars count = name.take count := by
  induction count generalizing name with
  | zero => rfl
  | succ count ih =>
    rw [text_succ]
    cases name with
    | nil => rfl
    | cons c rest =>
      obtain ⟨here, later⟩ := not_or.mp (mt List.mem_cons.mpr string)
      rw [if_neg (show ¬ chars (c :: rest) 0 = 0 from fun ended => here ended.symm)]
      exact congrArg (c :: ·) (ih later)

end Name

/-- A C string without a `'/'`. -/
abbrev PlainName := { name : Name // name.Plain ∧ 0 ∉ name }

/-- What tells names apart. -/
def PlainName.key (name : PlainName) : Name := name.1.take FileNameMaxLen

namespace Directory

/-! ## Calls -/

inductive Call where
  | Add (name : PlainName) (newSector type : BitVec 32)
  | Remove (name : PlainName)
  | Find (name : PlainName)

inductive Answer where
  | bool (value : Bool)
  | int (value : Int)
deriving DecidableEq

def perform (dir : Directory) : Call → Kernel (Answer × Directory)
  | .Add name newSector type => do
    let (added, dir) ← dir.Add name.1 newSector.toInt type.toInt
    return (.bool added, dir)
  | .Remove name => do
    let (removed, dir) ← dir.Remove name.1
    return (.bool removed, dir)
  | .Find name => do
    let found ← dir.Find name.1
    return (.int found, dir)

/-- Calls one after another. -/
def performAll (dir : Directory) : List Call → Kernel (List Answer × Directory)
  | [] => return ([], dir)
  | call :: calls => do
    let (answer, dir) ← dir.perform call
    let (answers, dir) ← dir.performAll calls
    return (answer :: answers, dir)

/-! ## The map -/

/-- The sector of each key. -/
abbrev Sectors := Finmap fun _ : Name => Int

/-- What a call answers and does on the map, with room for `size` keys. -/
def Call.onMap (size : Nat) (m : Sectors) : Call → Answer × Sectors
  | .Add name newSector _ =>
    if name.key ∉ m ∧ m.keys.card < size then (.bool true, m.insert name.key newSector.toInt)
    else (.bool false, m)
  | .Remove name => if name.key ∈ m then (.bool true, m.erase name.key) else (.bool false, m)
  | .Find name => (.int ((m.lookup name.key).getD (-1)), m)

def onMapAll (size : Nat) (m : Sectors) : List Call → List Answer × Sectors
  | [] => ([], m)
  | call :: calls =>
    let (answer, m) := call.onMap size m
    let (answers, m) := onMapAll size m calls
    (answer :: answers, m)

/-- What the constructor puts in. -/
def dotsMap (sector dadSector : Int) : Sectors :=
  ((∅ : Sectors).insert [dot] sector).insert [dot, dot] dadSector

/-- The string and the sector of an entry in use. -/
def slot (dir : Directory) (i : Nat) : Option (Name × Int) :=
  if dir.inUse i then some (Name.text (dir.name i) FileNameMaxLen, dir.sector i) else none

/-- The table has `size` entries, and those in use are the map's. -/
structure Represents (size : Nat) (m : Sectors) (dir : Directory) : Prop where
  tableSize : dir.tableSize = size
  tabulates : Tabulates size dir.slot m

variable {dir dir' : Directory} {size i : Nat} {m : Sectors} {name : PlainName}

theorem matches_iff_slot :
    dir.Matches name.1 i ↔ dir.slot i = some (name.key, dir.sector i) := by
  unfold Matches slot PlainName.key
  rw [Name.strncmpEq_iff_text, Name.text_chars name.2.2]
  by_cases used : dir.inUse i = true
  · simp [used]
  · simp [used]

theorem SameEntry.slot (same : SameEntry dir dir' i) : dir.slot i = dir'.slot i := by
  have text : Name.text (dir.name i) FileNameMaxLen = Name.text (dir'.name i) FileNameMaxLen :=
    Name.strncmpEq_iff_text.mp (Name.strncmpEq_of_same fun k bound => same.name bound)
  unfold Directory.slot
  rw [same.inUse, same.sector, text]

theorem Elsewhere.slot (elsewhere : Elsewhere dir dir' i) :
    dir'.slot = Function.update dir.slot i (dir'.slot i) := by
  funext j
  by_cases here : j = i
  · rw [here, Function.update_self]
  · rw [Function.update_of_ne here, (elsewhere.sameEntry here).slot]

namespace Represents

theorem absent_iff (rep : Represents size m dir) : dir.entryIndex name.1 = none ↔ name.key ∉ m := by
  rw [rep.tabulates.mem_iff]
  constructor
  · rintro missing ⟨i, sector, bound, here⟩
    have used : dir.slot i = some (name.key, dir.sector i) := by
      unfold slot at here ⊢
      split at here
      · rename_i used
        rw [if_pos used, (Prod.mk.inj (Option.some.inj here)).1]
      · cases here
    exact entryIndex_none missing (by rw [rep.tableSize]; exact bound) (matches_iff_slot.mpr used)
  · intro absent
    cases found : dir.entryIndex name.1 with
    | none => rfl
    | some i =>
      obtain ⟨bound, hit⟩ := entryIndex_some found
      rw [rep.tableSize] at bound
      exact absurd ⟨i, _, bound, matches_iff_slot.mp hit⟩ absent

/-- Where a key is found. -/
theorem found (rep : Represents size m dir) (found : dir.entryIndex name.1 = some i) :
    i < size ∧ dir.slot i = some (name.key, dir.sector i) ∧ m.lookup name.key = some (dir.sector i) := by
  obtain ⟨bound, hit⟩ := entryIndex_some found
  rw [rep.tableSize] at bound
  have here := matches_iff_slot.mp hit
  exact ⟨bound, here, rep.tabulates.lookup.mpr ⟨i, bound, here⟩⟩

theorem lookup (rep : Represents size m dir) (name : PlainName) :
    dir.lookup name.1 = (m.lookup name.key).getD (-1) := by
  unfold Directory.lookup
  cases result : dir.entryIndex name.1 with
  | none => rw [Finmap.lookup_eq_none.mpr (rep.absent_iff.mp result)]; rfl
  | some i => rw [(rep.found result).2.2]; rfl

theorem slot_eq_none (dir : Directory) (i : Nat) : dir.slot i = none ↔ dir.inUse i = false := by
  unfold slot
  split <;> simp_all

theorem full_iff (rep : Represents size m dir) : dir.freeSlot = none ↔ ¬ m.keys.card < size := by
  constructor
  · intro full fewer
    obtain ⟨i, bound, empty⟩ := rep.tabulates.exists_empty_iff.mpr fewer
    exact freeSlot_ne_none ⟨i, by rw [rep.tableSize]; exact bound, (slot_eq_none dir i).mp empty⟩ full
  · intro full
    cases result : dir.freeSlot with
    | none => rfl
    | some i =>
      obtain ⟨bound, empty⟩ := freeSlot_some result
      rw [rep.tableSize] at bound
      exact absurd (rep.tabulates.exists_empty_iff.mp ⟨i, bound, (slot_eq_none dir i).mpr empty⟩) full

theorem entered (rep : Represents size m dir) (bound : i < size) (empty : dir.inUse i = false)
    (absent : name.key ∉ m) (sector type : BitVec 32) :
    Represents size (m.insert name.key sector.toInt) (dir.entered i name.1 sector.toInt type.toInt) := by
  have elsewhere := entered_elsewhere dir i name.1 sector.toInt type.toInt
  obtain ⟨used, placed, -, text⟩ := entered_reads dir i name.1 sector.toInt type.toInt
  have here : (dir.entered i name.1 sector.toInt type.toInt).slot i = some (name.key, sector.toInt) := by
    rw [matches_iff_slot.mp ⟨used, Name.strncmpEq_of_same text⟩, placed, BitVec.ofInt_toInt]
  refine ⟨elsewhere.1.trans rep.tableSize, ?_⟩
  rw [elsewhere.slot, here]
  exact rep.tabulates.insert bound ((slot_eq_none dir i).mpr empty) absent _

theorem removed (rep : Represents size m dir) (result : dir.entryIndex name.1 = some i) :
    Represents size (m.erase name.key) (dir.setInUse i false) := by
  obtain ⟨bound, here, -⟩ := rep.found result
  have elsewhere := setInUse_elsewhere dir i false
  refine ⟨elsewhere.1.trans rep.tableSize, ?_⟩
  rw [elsewhere.slot, (slot_eq_none _ i).mpr (inUse_setInUse dir i false)]
  exact rep.tabulates.erase bound here

theorem made (storage : Memory) (room : 2 ≤ size) (sector dadSector : BitVec 32) :
    Represents size (dotsMap sector.toInt dadSector.toInt)
      (make storage size sector.toInt dadSector.toInt) := by
  obtain ⟨kept, self, parent, own, dad, -, -, unused⟩ :=
    make_entries storage room sector.toInt dadSector.toInt
  rw [BitVec.ofInt_toInt] at own dad
  have zeroth := matches_iff_slot.mp
    (show Matches _ (⟨[dot], rfl, by decide⟩ : PlainName).1 0 from self)
  have first := matches_iff_slot.mp
    (show Matches _ (⟨[dot, dot], rfl, by decide⟩ : PlainName).1 1 from parent)
  rw [own] at zeroth
  rw [dad] at first
  have empty : Tabulates size (fun _ => none) (∅ : Sectors) := .empty
  have one := empty.insert (show 0 < size by omega) rfl (Finmap.notMem_empty (a := [dot])) sector.toInt
  have two := one.insert (show 1 < size by omega) rfl
    (show [dot, dot] ∉ (∅ : Sectors).insert [dot] sector.toInt by
      rw [Finmap.mem_insert]
      rintro (same | inside)
      · cases same
      · exact Finmap.notMem_empty inside) dadSector.toInt
  refine ⟨kept, two.congr fun i bound => ?_⟩
  by_cases second : i = 1
  · rw [second, first, Function.update_self]
    rfl
  · rw [Function.update_of_ne second]
    by_cases head : i = 0
    · rw [head, zeroth, Function.update_self]
      rfl
    · rw [Function.update_of_ne head, (slot_eq_none _ i).mpr (unused i (by omega) bound)]

variable {disk : Disk} {vis : Counters} {fault : Fault → Prop}

theorem perform (rep : Represents size m dir) (call : Call) :
    Ensures (dir.perform call) (fun result disk' vis' => result.1 = (call.onMap size m).1 ∧
      Represents size (call.onMap size m).2 result.2 ∧ disk' = disk ∧ vis' = vis) fault disk vis := by
  cases call with
  | Add name newSector type =>
    apply ensures_bind
    refine ensures_Add name.2.1 (fun refused => ensures_pure ?_) fun i missing slot => ensures_pure ?_
    · have no : ¬ (name.key ∉ m ∧ m.keys.card < size) := by
        rintro ⟨absent, fewer⟩
        obtain present | full := refused
        · exact present (rep.absent_iff.mpr absent)
        · exact rep.full_iff.mp full fewer
      rw [Call.onMap, if_neg no]
      exact ⟨rfl, rep, rfl, rfl⟩
    · have absent := rep.absent_iff.mp missing
      have fewer : m.keys.card < size := by
        by_contra full
        rw [rep.full_iff.mpr full] at slot
        cases slot
      obtain ⟨bound, empty⟩ := freeSlot_some slot
      rw [rep.tableSize] at bound
      rw [Call.onMap, if_pos ⟨absent, fewer⟩]
      exact ⟨rfl, rep.entered bound empty absent newSector type, rfl, rfl⟩
  | Remove name =>
    apply ensures_bind
    refine ensures_Remove name.2.1 (fun missing => ensures_pure ?_) fun i result => ensures_pure ?_
    · rw [Call.onMap, if_neg (rep.absent_iff.mp missing)]
      exact ⟨rfl, rep, rfl, rfl⟩
    · have present : name.key ∈ m := Finmap.mem_of_lookup_eq_some (rep.found result).2.2
      rw [Call.onMap, if_pos present]
      exact ⟨rfl, rep.removed result, rfl, rfl⟩
  | Find name =>
    apply ensures_bind
    refine ensures_Find name.2.1 (ensures_pure ⟨?_, rep, rfl, rfl⟩)
    exact congrArg Answer.int (rep.lookup name)

theorem performAll (rep : Represents size m dir) (calls : List Call) :
    Ensures (dir.performAll calls) (fun result disk' vis' => result.1 = (onMapAll size m calls).1 ∧
      Represents size (onMapAll size m calls).2 result.2 ∧ disk' = disk ∧ vis' = vis) fault disk vis := by
  induction calls generalizing m dir with
  | nil => exact ensures_pure ⟨rfl, rep, rfl, rfl⟩
  | cons call calls ih =>
    apply ensures_bind
    refine ensures_post (rep.perform call) ?_
    rintro ⟨answer, dir'⟩ disk' vis' ⟨rfl, rep', rfl, rfl⟩
    apply ensures_bind
    refine ensures_post (ih rep') ?_
    rintro ⟨answers, dir''⟩ disk' vis' ⟨rfl, rep'', rfl, rfl⟩
    exact ensures_pure ⟨rfl, rep'', rfl, rfl⟩

/-- No entries in use share a key, and there are as many as the map has keys. -/
theorem card_inUse (rep : Represents size m dir) :
    ((Finset.range size).filter fun i => dir.inUse i = true).card = m.keys.card := by
  rw [rep.tabulates.card_keys]
  congr 1
  refine Finset.filter_congr fun i _ => ?_
  unfold slot
  split <;> simp_all

end Represents

/-- From the constructor on, calls with names without a `'/'` answer as those on
the map do, and the entries in use are the map's, each key in one entry. Neither
the disk nor the storage of the table matters. -/
theorem performs_as_map {size : Nat} (room : 2 ≤ size) (sector dadSector : BitVec 32)
    (calls : List Call) (disk : Disk) (vis : Counters) :
    Ensures (newIn size sector.toInt dadSector.toInt >>= fun dir => dir.performAll calls)
      (fun result disk' vis' =>
        result.1 = (onMapAll size (dotsMap sector.toInt dadSector.toInt) calls).1 ∧
        Represents size (onMapAll size (dotsMap sector.toInt dadSector.toInt) calls).2 result.2 ∧
        ((Finset.range size).filter fun i => result.2.inUse i = true).card =
          (onMapAll size (dotsMap sector.toInt dadSector.toInt) calls).2.keys.card ∧
        (onMapAll size (dotsMap sector.toInt dadSector.toInt) calls).2.keys.card ≤ size ∧
        disk' = disk ∧ vis' = vis)
      (fun _ => False) disk vis := by
  apply ensures_bind
  apply ensures_bind
  refine ensures_uninitialized fun storage => ensures_pure ?_
  refine ensures_post ((Represents.made storage room sector dadSector).performAll calls) ?_
  rintro ⟨answers, dir⟩ disk' vis' ⟨answered, rep, rfl, rfl⟩
  exact ⟨answered, rep, rep.card_inUse, rep.tabulates.card_le, rfl, rfl⟩

/-- Room for one name besides the dots. -/
theorem performs_as_map_three : Ensures (newIn 3 (5#32).toInt (1#32).toInt >>= fun dir => dir.performAll
      [.Add ⟨[97], rfl, by decide⟩ 7 1, .Add ⟨[98], rfl, by decide⟩ 8 1, .Find ⟨[97], rfl, by decide⟩])
    (fun result _ _ => result.1 = [.bool true, .bool false, .int 7]) (fun _ => False)
    (fun _ => .of fun _ => 0) fun _ => 0 :=
  ensures_post (performs_as_map (by decide) 5 1 _ _ _) fun _ _ _ holds => holds.1.trans (by decide)

end Directory
end Nachos
