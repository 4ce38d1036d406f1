import Nachos.Filesys.WriteAtProofs

/-! Directory tables: entries do not overlap, a lookup is decided by the first
360 bytes, and fetching or writing back a table moves exactly those bytes. -/
namespace Nachos
open Effects FileHeader

namespace Name

/-- Two strings compare equal when they agree up to the first terminator. -/
theorem strncmpEq_iff {a b : Memory} {count : Nat} :
    strncmpEq a b count = true ↔ ∀ k, k < count → (∀ j, j < k → a j ≠ 0) → a k = b k := by
  induction count generalizing a b with
  | zero => simp [strncmpEq]
  | succ count ih =>
    simp only [strncmpEq, Bool.and_eq_true, Bool.or_eq_true, beq_iff_eq, ih]
    constructor
    · rintro ⟨first, ended | rest⟩ k bound running
      · cases k with
        | zero => exact first
        | succ k => exact absurd ended (running 0 (by omega))
      · cases k with
        | zero => exact first
        | succ k => exact rest k (by omega) fun j less => running (j + 1) (by omega)
    · intro same
      refine ⟨same 0 (by omega) (by omega), ?_⟩
      by_cases ended : a 0 = 0
      · exact .inl ended
      · refine .inr fun k bound running => same (k + 1) (by omega) fun j less => ?_
        cases j with
        | zero => exact ended
        | succ j => exact running j (by omega)

theorem strncmpEq_congr {a a' b : Memory} {count : Nat} (same : ∀ k, k < count → a k = a' k) :
    strncmpEq a b count = strncmpEq a' b count := by
  rw [Bool.eq_iff_iff, strncmpEq_iff, strncmpEq_iff]
  constructor
  · intro equal k bound running
    rw [← same k bound]
    exact equal k bound fun j less => by rw [same j (by omega)]; exact running j less
  · intro equal k bound running
    rw [same k bound]
    exact equal k bound fun j less => by rw [← same j (by omega)]; exact running j less

theorem strncmpEq_of_same {a b : Memory} {count : Nat} (same : ∀ k, k < count → a k = b k) :
    strncmpEq a b count = true := strncmpEq_iff.mpr fun k bound _ => same k bound

theorem strncmpEq_symm {a b : Memory} {count : Nat} (equal : strncmpEq a b count = true) :
    strncmpEq b a count = true := by
  rw [strncmpEq_iff] at equal ⊢
  intro k
  induction k using Nat.strong_induction_on with
  | _ k ih =>
    intro bound running
    refine (equal k bound fun j less => ?_).symm
    rw [← ih j less (by omega) fun i before => running i (by omega)]
    exact running j less

theorem strncmpEq_trans {a b c : Memory} {count : Nat} (first : strncmpEq a b count = true)
    (second : strncmpEq b c count = true) : strncmpEq a c count = true := by
  rw [strncmpEq_iff] at first second ⊢
  intro k bound running
  have here := first k bound running
  refine here.trans (second k bound fun j less => ?_)
  rw [← first j (by omega) fun i before => running i (by omega)]
  exact running j less

/-- The name contains no `'/'`. -/
def Plain (name : Name) : Prop := name.firstSlash = none

instance (name : Name) : Decidable name.Plain := inferInstanceAs (Decidable (_ = none))

theorem plain_iff {name : Name} : name.Plain ↔ ∀ c ∈ name, c ≠ slash := by
  simp [Plain, firstSlash, List.findIdx?_eq_none_iff]

theorem lastSlash_of_plain {name : Name} (plain : name.Plain) : name.lastSlash = none := by
  unfold lastSlash
  rw [List.getLast?_eq_none_iff, List.filter_eq_nil_iff]
  intro i member
  have bound := List.mem_range.mp member
  have other := plain_iff.mp plain name[i] (List.getElem_mem bound)
  simp [List.getD_eq_getElem?_getD, List.getElem?_eq_getElem bound] at other ⊢
  exact fun _ => other

theorem getRealName_of_plain {name : Name} (plain : name.Plain) : name.getRealName = name := by
  unfold getRealName
  rw [lastSlash_of_plain plain]

end Name

namespace Directory

variable {dir dir' : Directory} {i j : Nat}

/-- Two tables of ten entries with the same bytes. -/
structure Same (dir dir' : Directory) : Prop where
  size : dir.tableSize = 10
  size' : dir'.tableSize = 10
  bytes : ∀ o, o < 360 → dir.table o = dir'.table o

theorem Same.symm (same : Same dir dir') : Same dir' dir :=
  ⟨same.size', same.size, fun o bound => (same.bytes o bound).symm⟩

theorem Same.trans {dir'' : Directory} (first : Same dir dir') (second : Same dir' dir'') :
    Same dir dir'' :=
  ⟨first.size, second.size', fun o bound => (first.bytes o bound).trans (second.bytes o bound)⟩

/-- Entry `i` has the same bytes in both tables. -/
def SameEntry (dir dir' : Directory) (i : Nat) : Prop :=
  ∀ k, k < 36 → dir.table (36 * i + k) = dir'.table (36 * i + k)

theorem Same.entry (same : Same dir dir') (bound : i < 10) : SameEntry dir dir' i :=
  fun k less => same.bytes _ (by omega)

theorem SameEntry.symm (same : SameEntry dir dir' i) : SameEntry dir' dir i :=
  fun k less => (same k less).symm

theorem SameEntry.inUse (same : SameEntry dir dir' i) : dir.inUse i = dir'.inUse i := by
  have first := same 0 (by omega)
  rw [Nat.add_zero] at first
  simp only [Directory.inUse, entrySize, first]

theorem SameEntry.sector (same : SameEntry dir dir' i) : dir.sector i = dir'.sector i := by
  unfold Directory.sector
  congr 1
  refine Memory.word_congr fun k less => ?_
  have here := same (4 + k) (by omega)
  simpa only [entrySize, Nat.add_assoc] using here

theorem SameEntry.type (same : SameEntry dir dir' i) : dir.type i = dir'.type i := by
  unfold Directory.type
  congr 1
  refine Memory.word_congr fun k less => ?_
  have here := same (32 + k) (by omega)
  simpa only [entrySize, Nat.add_assoc] using here

theorem SameEntry.name (same : SameEntry dir dir' i) {k : Nat} (bound : k < 20) :
    dir.name i k = dir'.name i k := by
  have here := same (8 + k) (by omega)
  simpa only [Directory.name, entrySize, Nat.add_assoc] using here

theorem SameEntry.strncmpEq (same : SameEntry dir dir' i) (text : Memory) :
    Name.strncmpEq (dir.name i) text FileNameMaxLen =
      Name.strncmpEq (dir'.name i) text FileNameMaxLen :=
  Name.strncmpEq_congr fun _ bound => same.name bound

/-- Two entries compare with each other as they do in the other table. -/
theorem SameEntry.names_iff (first : SameEntry dir dir' i) (second : SameEntry dir dir' j) :
    Name.strncmpEq (dir.name i) (dir.name j) FileNameMaxLen = true ↔
      Name.strncmpEq (dir'.name i) (dir'.name j) FileNameMaxLen = true := by
  rw [first.strncmpEq]
  have same : Name.strncmpEq (dir.name j) (dir'.name j) FileNameMaxLen = true :=
    Name.strncmpEq_of_same fun _ bound => second.name bound
  exact ⟨fun equal => Name.strncmpEq_trans equal same,
    fun equal => Name.strncmpEq_trans equal (Name.strncmpEq_symm same)⟩

/-- The entry is in use under this name. -/
def Matches (dir : Directory) (name : Name) (i : Nat) : Prop :=
  dir.inUse i = true ∧ Name.strncmpEq (dir.name i) name.chars FileNameMaxLen = true

instance (dir : Directory) (name : Name) (i : Nat) : Decidable (dir.Matches name i) :=
  inferInstanceAs (Decidable (_ ∧ _))

theorem SameEntry.matches_iff (same : SameEntry dir dir' i) (name : Name) :
    dir.Matches name i ↔ dir'.Matches name i := by
  unfold Matches
  rw [same.inUse, same.strncmpEq]

theorem entryIndex_some {name : Name} (found : dir.entryIndex name = some i) :
    i < dir.tableSize ∧ dir.Matches name i := by
  refine ⟨List.mem_range.mp (List.mem_of_find?_eq_some found), ?_⟩
  simpa [Matches] using List.find?_some found

theorem entryIndex_none {name : Name} (missing : dir.entryIndex name = none)
    (bound : i < dir.tableSize) : ¬ dir.Matches name i := by
  have absent := List.find?_eq_none.mp missing i (List.mem_range.mpr bound)
  simpa [Matches] using absent

theorem entryIndex_isSome {name : Name} (bound : i < dir.tableSize) (found : dir.Matches name i) :
    ∃ j, dir.entryIndex name = some j := by
  cases result : dir.entryIndex name with
  | some j => exact ⟨j, rfl⟩
  | none => exact absurd found (entryIndex_none result bound)

theorem entryIndex_congr (same : Same dir dir') (name : Name) :
    dir.entryIndex name = dir'.entryIndex name := by
  unfold entryIndex
  rw [same.size, same.size']
  apply List.find?_congr
  intro i member
  have entry := same.entry (List.mem_range.mp member)
  rw [entry.inUse, entry.strncmpEq]

/-! ## Changing one entry -/

/-- Only bytes of entry `i` may differ. -/
def Elsewhere (dir dir' : Directory) (i : Nat) : Prop :=
  dir'.tableSize = dir.tableSize ∧ ∀ o, o < 36 * i ∨ 36 * i + 36 ≤ o → dir'.table o = dir.table o

theorem Elsewhere.sameEntry (elsewhere : Elsewhere dir dir' i) (other : j ≠ i) :
    SameEntry dir' dir j := fun k less => elsewhere.2 _ (by omega)

theorem Elsewhere.trans {dir'' : Directory} (first : Elsewhere dir dir' i)
    (second : Elsewhere dir' dir'' i) : Elsewhere dir dir'' i :=
  ⟨second.1.trans first.1, fun o outside => (second.2 o outside).trans (first.2 o outside)⟩

private theorem elsewhere_splice {start count : Nat} {source : Memory} (lower : 36 * i ≤ start)
    (upper : start + count ≤ 36 * i + 36) :
    Elsewhere dir { dir with table := dir.table.splice start count source } i :=
  ⟨rfl, fun o outside => Memory.splice_outside (by omega)⟩

theorem setInUse_elsewhere (dir : Directory) (i : Nat) (used : Bool) :
    Elsewhere dir (dir.setInUse i used) i :=
  elsewhere_splice (by simp only [entrySize]; omega) (by simp only [entrySize]; omega)

theorem inUse_setInUse (dir : Directory) (i : Nat) (used : Bool) :
    (dir.setInUse i used).inUse i = used := by
  unfold Directory.inUse setInUse
  dsimp only
  rw [Memory.splice_inside (by omega) (by omega)]
  cases used <;> rfl

/-- The entry `Add` writes. -/
def entered (dir : Directory) (i : Nat) (name : Name) (sector type : Int) : Directory :=
  (((dir.setInUse i true).strncpyName i name).setSector i sector).setType i type

theorem entered_elsewhere (dir : Directory) (i : Nat) (name : Name) (sector type : Int) :
    Elsewhere dir (dir.entered i name sector type) i := by
  have named : ∀ dir : Directory, Elsewhere dir (dir.strncpyName i name) i := fun dir =>
    elsewhere_splice (by simp only [entrySize]; omega)
      (by simp only [entrySize, FileNameMaxLen]; omega)
  have placed : ∀ dir : Directory, Elsewhere dir (dir.setSector i sector) i := fun dir =>
    elsewhere_splice (by simp only [entrySize]; omega) (by simp only [entrySize]; omega)
  have typed : ∀ dir : Directory, Elsewhere dir (dir.setType i type) i := fun dir =>
    elsewhere_splice (by simp only [entrySize]; omega) (by simp only [entrySize]; omega)
  exact (setInUse_elsewhere dir i true).trans ((named _).trans ((placed _).trans (typed _)))

/-- What the new entry reads back as. -/
theorem entered_reads (dir : Directory) (i : Nat) (name : Name) (sector type : Int) :
    (dir.entered i name sector type).inUse i = true ∧
    (dir.entered i name sector type).sector i = (BitVec.ofInt 32 sector).toInt ∧
    (dir.entered i name sector type).type i = (BitVec.ofInt 32 type).toInt ∧
    ∀ k, k < 20 → (dir.entered i name sector type).name i k = name.chars k := by
  refine ⟨?_, ?_, ?_, ?_⟩
  · have used := inUse_setInUse dir i true
    unfold Directory.inUse at used ⊢
    unfold entered setType setSector strncpyName
    dsimp only
    rw [Memory.setWord_outside (by omega), Memory.setWord_outside (by omega),
      Memory.splice_outside (by omega)]
    exact used
  · unfold Directory.sector entered setType setSector
    dsimp only
    rw [Memory.word_setWord_of_disjoint (by omega), Memory.word_setWord]
  · unfold Directory.type entered setType
    dsimp only
    rw [Memory.word_setWord]
  · intro k bound
    unfold Directory.name entered setType setSector strncpyName
    dsimp only
    rw [Memory.setWord_outside (by omega), Memory.setWord_outside (by omega),
      Memory.splice_inside (by omega) (by simp only [FileNameMaxLen]; omega),
      Nat.add_sub_cancel_left]

theorem entered_entry (dir : Directory) (i : Nat) (name : Name) {sector type : Int}
    (inRange : ValidSector sector) (kind : type = 0 ∨ type = 1) :
    (dir.entered i name sector type).inUse i = true ∧
    (dir.entered i name sector type).sector i = sector ∧
    (dir.entered i name sector type).type i = type ∧
    ∀ k, k < 20 → (dir.entered i name sector type).name i k = name.chars k := by
  obtain ⟨low, high⟩ := inRange
  simp only [NumSectors, SectorsPerTrack, NumTracks] at high
  obtain ⟨used, placed, typed, text⟩ := entered_reads dir i name sector type
  rw [toInt_ofInt_of_range (by omega) (by omega)] at placed typed
  exact ⟨used, placed, typed, text⟩

private theorem same_splice {start count : Nat} {source : Memory} (same : Same dir dir') :
    Same { dir with table := dir.table.splice start count source }
      { dir' with table := dir'.table.splice start count source } := by
  refine ⟨same.size, same.size', fun o bound => ?_⟩
  simp only [Memory.splice]
  split
  · rfl
  · exact same.bytes o bound

theorem Same.entered (same : Same dir dir') (i : Nat) (name : Name) (sector type : Int) :
    Same (dir.entered i name sector type) (dir'.entered i name sector type) :=
  same_splice (same_splice (same_splice (same_splice same)))

theorem Same.setInUse (same : Same dir dir') (i : Nat) (used : Bool) :
    Same (dir.setInUse i used) (dir'.setInUse i used) := same_splice same

theorem entered_matches (dir : Directory) (i : Nat) (name : Name) {sector type : Int}
    (inRange : ValidSector sector) (kind : type = 0 ∨ type = 1) :
    (dir.entered i name sector type).Matches name i := by
  obtain ⟨used, -, -, text⟩ := entered_entry dir i name inRange kind
  exact ⟨used, Name.strncmpEq_of_same text⟩

/-! ## A new table -/

/-- A table in which only `"."` and `".."` are in use. -/
structure Fresh (dir : Directory) (sector dadSector : Int) : Prop where
  size : dir.tableSize = 10
  self : dir.Matches [dot] 0
  parent : dir.Matches [dot, dot] 1
  selfSector : dir.sector 0 = sector
  parentSector : dir.sector 1 = dadSector
  selfType : dir.type 0 = 0
  parentType : dir.type 1 = 0
  unused : ∀ i, 2 ≤ i → i < 10 → dir.inUse i = false

theorem Fresh.congr {sector dadSector : Int} (fresh : Fresh dir sector dadSector)
    (same : Same dir' dir) : Fresh dir' sector dadSector where
  size := same.size
  self := ((same.entry (by omega)).matches_iff _).mpr fresh.self
  parent := ((same.entry (by omega)).matches_iff _).mpr fresh.parent
  selfSector := (same.entry (by omega)).sector.trans fresh.selfSector
  parentSector := (same.entry (by omega)).sector.trans fresh.parentSector
  selfType := (same.entry (by omega)).type.trans fresh.selfType
  parentType := (same.entry (by omega)).type.trans fresh.parentType
  unused := fun _ low high => (same.entry high).inUse.trans (fresh.unused _ low high)

/-- Only the two dot entries are in use, and their names differ. -/
theorem Fresh.names {sector dadSector : Int} (fresh : Fresh dir sector dadSector) (boundI : i < 10)
    (boundJ : j < 10) (usedI : dir.inUse i = true) (usedJ : dir.inUse j = true)
    (equal : Name.strncmpEq (dir.name i) (dir.name j) FileNameMaxLen = true) : i = j := by
  have small : ∀ k, k < 10 → dir.inUse k = true → k = 0 ∨ k = 1 := by
    intro k bound used
    by_contra large
    rw [fresh.unused k (by omega) bound] at used
    cases used
  have differ : Name.strncmpEq (Name.chars [dot]) (Name.chars [dot, dot]) FileNameMaxLen ≠ true := by
    decide
  have crossed : Name.strncmpEq (dir.name 0) (dir.name 1) FileNameMaxLen = true → False :=
    fun same => differ (Name.strncmpEq_trans (Name.strncmpEq_symm fresh.self.2)
      (Name.strncmpEq_trans same fresh.parent.2))
  rcases small i boundI usedI with rfl | rfl <;> rcases small j boundJ usedJ with rfl | rfl
  · rfl
  · exact (crossed equal).elim
  · exact (crossed (Name.strncmpEq_symm equal)).elim
  · rfl

private def dots (storage : Memory) (size : Nat) (sector dadSector : Int) : Directory :=
  let dir : Directory := { tableSize := size, table := storage }
  let dir := ((dir.setInUse 0 true).setType 0 0).setSector 0 sector
  let dir := ((dir.setInUse 1 true).setType 1 0).setSector 1 dadSector
  (dir.strcpyName 0 [dot]).strcpyName 1 [dot, dot]

private theorem clearRest_ok (dir : Directory) (count : Nat) :
    ((List.range count).foldl (fun dir i => setInUse dir (i + 2) false) dir).tableSize =
      dir.tableSize ∧
    (∀ o, o < 72 → ((List.range count).foldl (fun dir i => setInUse dir (i + 2) false) dir).table o =
      dir.table o) ∧
    ∀ i, 2 ≤ i → i < count + 2 →
      ((List.range count).foldl (fun dir i => setInUse dir (i + 2) false) dir).inUse i = false := by
  induction count with
  | zero => exact ⟨rfl, fun _ _ => rfl, by omega⟩
  | succ count ih =>
    obtain ⟨size, bytes, unused⟩ := ih
    rw [List.range_succ, List.foldl_append]
    simp only [List.foldl_cons, List.foldl_nil]
    have elsewhere := setInUse_elsewhere
      ((List.range count).foldl (fun dir i => setInUse dir (i + 2) false) dir) (count + 2) false
    refine ⟨elsewhere.1.trans size, ?_, ?_⟩
    · intro o bound
      exact (elsewhere.2 o (by omega)).trans (bytes o bound)
    · intro i low high
      by_cases last : i = count + 2
      · rw [last]
        exact inUse_setInUse _ _ _
      · rw [(elsewhere.sameEntry last).inUse]
        exact unused i low (by omega)

private theorem dots_bytes (storage : Memory) (size : Nat) (sector dadSector : Int) :
    (dots storage size sector dadSector).table 0 = 1 ∧
    (dots storage size sector dadSector).table 36 = 1 ∧
    (∀ k, k < 2 → (dots storage size sector dadSector).table (8 + k) = Name.chars [dot] k) ∧
    ∀ k, k < 3 → (dots storage size sector dadSector).table (44 + k) = Name.chars [dot, dot] k := by
  unfold dots setInUse setType setSector strcpyName Memory.setWord
  simp only [entrySize, List.length_cons, List.length_nil]
  refine ⟨?_, ?_, ?_, ?_⟩
  · simp [Memory.splice]
  · simp [Memory.splice]
  · intro k bound
    rw [Memory.splice_outside (by omega), Memory.splice_inside (by omega) (by omega)]
    congr 1
    omega
  · intro k bound
    rw [Memory.splice_inside (by omega) (by omega)]
    congr 1
    omega

private theorem dots_words (storage : Memory) (size : Nat) (sector dadSector : Int) :
    (dots storage size sector dadSector).sector 0 = (BitVec.ofInt 32 sector).toInt ∧
    (dots storage size sector dadSector).sector 1 = (BitVec.ofInt 32 dadSector).toInt ∧
    (dots storage size sector dadSector).type 0 = 0 ∧
    (dots storage size sector dadSector).type 1 = 0 := by
  unfold Directory.sector Directory.type dots setInUse setType setSector strcpyName
  simp only [entrySize, List.length_cons, List.length_nil]
  refine ⟨?_, ?_, ?_, ?_⟩
  · rw [Memory.word_splice_of_disjoint (by omega), Memory.word_splice_of_disjoint (by omega),
      Memory.word_setWord_of_disjoint (by omega), Memory.word_setWord_of_disjoint (by omega),
      Memory.word_splice_of_disjoint (by omega), Memory.word_setWord]
  · rw [Memory.word_splice_of_disjoint (by omega), Memory.word_splice_of_disjoint (by omega),
      Memory.word_setWord]
  · rw [Memory.word_splice_of_disjoint (by omega), Memory.word_splice_of_disjoint (by omega),
      Memory.word_setWord_of_disjoint (by omega), Memory.word_setWord_of_disjoint (by omega),
      Memory.word_splice_of_disjoint (by omega), Memory.word_setWord_of_disjoint (by omega),
      Memory.word_setWord]
    rfl
  · rw [Memory.word_splice_of_disjoint (by omega), Memory.word_splice_of_disjoint (by omega),
      Memory.word_setWord_of_disjoint (by omega), Memory.word_setWord]
    rfl

/-- What the constructor makes of a table with room for the two dot entries. -/
theorem make_entries (storage : Memory) {size : Nat} (room : 2 ≤ size) (sector dadSector : Int) :
    (make storage size sector dadSector).tableSize = size ∧
    (make storage size sector dadSector).Matches [dot] 0 ∧
    (make storage size sector dadSector).Matches [dot, dot] 1 ∧
    (make storage size sector dadSector).sector 0 = (BitVec.ofInt 32 sector).toInt ∧
    (make storage size sector dadSector).sector 1 = (BitVec.ofInt 32 dadSector).toInt ∧
    (make storage size sector dadSector).type 0 = 0 ∧
    (make storage size sector dadSector).type 1 = 0 ∧
    ∀ i, 2 ≤ i → i < size → (make storage size sector dadSector).inUse i = false := by
  obtain ⟨kept, bytes, unused⟩ := clearRest_ok (dots storage size sector dadSector) (size - 2)
  obtain ⟨used, usedParent, text, textParent⟩ := dots_bytes storage size sector dadSector
  obtain ⟨own, dad, kind, kindParent⟩ := dots_words storage size sector dadSector
  have entry : ∀ i, i < 2 → SameEntry (make storage size sector dadSector)
      (dots storage size sector dadSector) i := fun i less k bound => bytes _ (by omega)
  have zeroth := entry 0 (by omega)
  have first := entry 1 (by omega)
  refine ⟨kept, (zeroth.matches_iff _).mpr ⟨?_, ?_⟩, (first.matches_iff _).mpr ⟨?_, ?_⟩,
    zeroth.sector.trans own, first.sector.trans dad, zeroth.type.trans kind,
    first.type.trans kindParent, fun i low high => unused i low (by omega)⟩
  · simp [Directory.inUse, used]
  · refine Name.strncmpEq_iff.mpr fun k bound running => ?_
    -- nothing past the terminator is compared
    have short : k < 2 := by
      by_contra long
      refine running 1 (by omega) ?_
      have ended := text 1 (by omega)
      exact ended
    exact text k short
  · simp [Directory.inUse, usedParent]
  · refine Name.strncmpEq_iff.mpr fun k bound running => ?_
    have short : k < 3 := by
      by_contra long
      refine running 2 (by omega) ?_
      have ended := textParent 2 (by omega)
      exact ended
    exact textParent k short

theorem make_fresh (storage : Memory) {sector dadSector : Int} (inRange : ValidSector sector)
    (dadInRange : ValidSector dadSector) : Fresh (make storage 10 sector dadSector) sector dadSector := by
  obtain ⟨low, high⟩ := inRange
  obtain ⟨dadLow, dadHigh⟩ := dadInRange
  simp only [NumSectors, SectorsPerTrack, NumTracks] at high dadHigh
  obtain ⟨size, self, parent, own, dad, kind, kindParent, unused⟩ :=
    make_entries storage (show 2 ≤ 10 by omega) sector dadSector
  rw [toInt_ofInt_of_range (by omega) (by omega)] at own dad
  exact ⟨size, self, parent, own, dad, kind, kindParent, unused⟩

/-! ## Lookups without a path -/

section Kernel

variable {disk : Disk} {vis : Counters} {fault : Fault → Prop} {name : Name}

theorem ensures_FindIndex {post : Int → Disk → Counters → Prop} (plain : name.Plain)
    (holds : post (match dir.entryIndex name with | some i => (i : Int) | none => -1) disk vis) :
    Ensures (dir.FindIndex name) post fault disk vis := by
  unfold FindIndex findIndex
  rw [plain]
  dsimp only
  split <;> rename_i found <;> rw [found] at holds <;> exact ensures_pure holds

/-- The sector of the first entry with the name, or -1. -/
def lookup (dir : Directory) (name : Name) : Int :=
  match dir.entryIndex name with
  | some i => dir.sector i
  | none => -1

/-- A new name is found in the entry it was put in. -/
theorem lookup_entered {name : Name} {sector type : Int} (absent : dir.entryIndex name = none)
    (bound : i < dir.tableSize) (inRange : ValidSector sector) (kind : type = 0 ∨ type = 1) :
    (dir.entered i name sector type).lookup name = sector := by
  obtain ⟨j, found⟩ : ∃ j, (dir.entered i name sector type).entryIndex name = some j :=
    entryIndex_isSome bound (entered_matches dir i name inRange kind)
  obtain ⟨bound', hit⟩ := entryIndex_some found
  have here : j = i := by
    by_contra other
    have same := (entered_elsewhere dir i name sector type).sameEntry other
    exact entryIndex_none absent bound' ((same.matches_iff name).mp hit)
  unfold lookup
  rw [found, here]
  exact (entered_entry dir i name inRange kind).2.1

theorem lookup_congr (same : Same dir dir') (name : Name) : dir.lookup name = dir'.lookup name := by
  unfold lookup
  rw [entryIndex_congr same]
  cases found : dir'.entryIndex name with
  | none => rfl
  | some i =>
    have bound := (entryIndex_some found).1
    rw [same.size'] at bound
    exact (same.entry bound).sector

theorem ensures_Find {post : Int → Disk → Counters → Prop} (plain : name.Plain)
    (holds : post (dir.lookup name) disk vis) :
    Ensures (dir.Find name) post fault disk vis := by
  apply ensures_bind
  apply ensures_FindIndex plain
  unfold lookup at holds
  cases found : dir.entryIndex name with
  | none =>
    rw [found] at holds
    exact ensures_pure holds
  | some i =>
    rw [found] at holds
    dsimp only
    rw [if_pos (by omega), Int.toNat_natCast]
    exact ensures_pure holds

/-- The first entry not in use. -/
def freeSlot (dir : Directory) : Option Nat :=
  (List.range dir.tableSize).find? fun i => !dir.inUse i

theorem freeSlot_some (found : dir.freeSlot = some i) :
    i < dir.tableSize ∧ dir.inUse i = false := by
  refine ⟨List.mem_range.mp (List.mem_of_find?_eq_some found), ?_⟩
  simpa using List.find?_some found

theorem freeSlot_ne_none (free : ∃ i, i < dir.tableSize ∧ dir.inUse i = false) :
    dir.freeSlot ≠ none := by
  obtain ⟨i, bound, unused⟩ := free
  intro full
  have used := List.find?_eq_none.mp full i (List.mem_range.mpr bound)
  simp [unused] at used

theorem freeSlot_congr (same : Same dir dir') : dir.freeSlot = dir'.freeSlot := by
  unfold freeSlot
  rw [same.size, same.size']
  apply List.find?_congr
  intro i member
  rw [(same.entry (List.mem_range.mp member)).inUse]

theorem ensures_Add {post : Bool × Directory → Disk → Counters → Prop} {sector type : Int}
    (plain : name.Plain)
    (full : dir.entryIndex name ≠ none ∨ dir.freeSlot = none → post (false, dir) disk vis)
    (holds : ∀ i, dir.entryIndex name = none → dir.freeSlot = some i →
      post (true, dir.entered i name sector type) disk vis) :
    Ensures (dir.Add name sector type) post fault disk vis := by
  apply ensures_bind
  apply ensures_FindIndex plain
  cases found : dir.entryIndex name with
  | some i =>
    dsimp only
    rw [if_pos (by omega)]
    exact ensures_pure (full (.inl (by simp [found])))
  | none =>
    dsimp only
    rw [if_neg (by omega)]
    cases slot : dir.freeSlot with
    | none =>
      have none : (List.range dir.tableSize).find? (fun i => !dir.inUse i) = none := slot
      rw [none]
      exact ensures_pure (full (.inr slot))
    | some i =>
      have some : (List.range dir.tableSize).find? (fun i => !dir.inUse i) = some i := slot
      rw [some, Name.getRealName_of_plain plain]
      exact ensures_pure (holds i found slot)

theorem ensures_Remove {post : Bool × Directory → Disk → Counters → Prop} (plain : name.Plain)
    (missing : dir.entryIndex name = none → post (false, dir) disk vis)
    (holds : ∀ i, dir.entryIndex name = some i → post (true, dir.setInUse i false) disk vis) :
    Ensures (dir.Remove name) post fault disk vis := by
  apply ensures_bind
  apply ensures_FindIndex plain
  cases found : dir.entryIndex name with
  | none =>
    dsimp only
    rw [if_pos (by omega)]
    exact ensures_pure (missing found)
  | some i =>
    dsimp only
    rw [if_neg (by omega), Int.toNat_natCast]
    exact ensures_pure (holds i found)

/-! ## Tables on disk -/

/-- The table in the file with this header. -/
def tableOf (disk : Disk) (hdr : FileHeader) : Directory where
  tableSize := 10
  table := OpenFile.fileByte disk hdr

/-- A header over the three sectors of a directory table. -/
structure IsTableHeader (hdr : FileHeader) : Prop where
  length : hdr.numBytes = 360
  slots : ∀ k, k < 3 → ValidSector (hdr.dataSectors k)
  number : ValidSector hdr.sectorNumber

theorem IsTableHeader.agrees {hdr hdr' : FileHeader} (table : IsTableHeader hdr)
    (agrees : Agrees hdr' hdr) : IsTableHeader hdr' where
  length := agrees.numBytes.trans table.length
  slots := fun k bound => by rw [agrees.dataSectors (by omega)]; exact table.slots k bound
  number := by rw [agrees.sectorNumber]; exact table.number

theorem tableOf_congr {hdr hdr' : FileHeader} {disk' : Disk}
    (slots : ∀ k, k < 3 → hdr'.dataSectors k = hdr.dataSectors k)
    (content : ∀ k, k < 3 → disk' (hdr.dataSectors k) = disk (hdr.dataSectors k)) :
    Same (tableOf disk' hdr') (tableOf disk hdr) := by
  refine ⟨rfl, rfl, fun o bound => ?_⟩
  have block : o / 128 < 3 := by omega
  apply OpenFile.fileByte_congr
  · rw [blockSector_direct (by omega), blockSector_direct (by omega), slots _ block]
  · rw [blockSector_direct (by omega), content _ block]

theorem ensures_FetchFrom {post : Directory × OpenFile → Disk → Counters → Prop} {file : OpenFile}
    (size : dir.tableSize = 10) (table : IsTableHeader file.hdr)
    (holds : ∀ dir' hdr', Same dir' (tableOf disk file.hdr) → SameBut .visit hdr' file.hdr →
      post (dir', { file with hdr := hdr' }) (Function.update disk file.hdr.sectorNumber hdr'.raw)
        vis) :
    Ensures (dir.FetchFrom file) post fault disk vis := by
  have length : file.hdr.numBytes = ((360 : Nat) : Int) := table.length
  unfold Directory.FetchFrom
  rw [size]
  apply ensures_bind
  change Ensures (file.ReadAt dir.table ((360 : Nat) : Int) ((0 : Nat) : Int)) _ _ _ _
  refine OpenFile.ensures_ReadAt length (by omega) (by omega) (.inl (by omega)) table.number ?_ (by omega) ?_
  · intro k _ high
    exact OpenFile.Located.direct (by omega) (table.slots k (by omega))
  · intro hdr' into visited copied _
    apply ensures_pure
    refine holds _ _ ⟨rfl, rfl, fun o bound => ?_⟩ visited
    have here := copied o (by omega)
    rw [Nat.zero_add] at here
    exact here

theorem ensures_WriteBack {post : OpenFile → Disk → Counters → Prop} {file : OpenFile}
    (size : dir.tableSize = 10) (table : IsTableHeader file.hdr)
    (apart : ∀ k, k < 3 → file.hdr.dataSectors k ≠ file.hdr.sectorNumber)
    (distinct : ∀ k k', k < 3 → k' < 3 → file.hdr.dataSectors k = file.hdr.dataSectors k' → k = k')
    (holds : ∀ hdr' disk', Agrees hdr' file.hdr → disk' file.hdr.sectorNumber = hdr'.raw →
      Same (tableOf disk' hdr') dir →
      (∀ s, s ≠ file.hdr.sectorNumber → (∀ k, k < 3 → s ≠ file.hdr.dataSectors k) →
        disk' s = disk s) → post { file with hdr := hdr' } disk' vis) :
    Ensures (dir.WriteBack file) post fault disk vis := by
  have length : file.hdr.numBytes = ((360 : Nat) : Int) := table.length
  have direct : ∀ k, k * 128 < 0 + 360 → blockSector disk file.hdr k = file.hdr.dataSectors k :=
    fun k high => blockSector_direct (by omega)
  unfold Directory.WriteBack
  rw [size]
  apply ensures_bind
  change Ensures (OpenFile.writeAt (7 + 1) file dir.table ((360 : Nat) : Int) ((0 : Nat) : Int))
    _ _ _ _
  refine OpenFile.ensures_writeAt_inside length (by omega) (by omega) table.number
    ⟨?_, ?_, ?_, by omega⟩ ?_
  · intro k _ high
    exact OpenFile.Located.direct (by omega) (table.slots k (by omega))
  · intro k k' _ high _ high' same
    rw [direct k high, direct k' high'] at same
    exact distinct k k' (by omega) (by omega) same
  · intro k _ high
    rw [direct k high]
    exact apart k (by omega)
  · intro hdr' disk' wrote
    apply ensures_pure
    refine holds hdr' disk' wrote.agrees wrote.header ⟨rfl, size, fun o bound => ?_⟩ ?_
    · have written := wrote.written o (by omega) (by omega)
      rw [direct _ (by omega)] at written
      unfold tableOf OpenFile.fileByte
      dsimp only
      rw [blockSector_direct (by omega), wrote.agrees.dataSectors (by omega), written, Nat.sub_zero]
    · intro s notOwn blocks
      refine wrote.frame s notOwn fun k _ high => ?_
      rw [direct k high]
      exact blocks k (by omega)

end Kernel
end Directory
end Nachos
