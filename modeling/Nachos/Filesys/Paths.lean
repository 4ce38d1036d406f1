import Nachos.Filesys.BadPaths
import Mathlib.Data.Finset.Card

/-! Paths of any depth, all of whose directories are there. `FindIndex` walks to the
last directory as long as each component fills the twenty characters that are
compared; a shorter one is compared together with the bytes behind its unterminated
copy. What the walk returns is an index of the last directory's table, and `Find`
reads the root's table there. -/
namespace Nachos
open Effects FileHeader OpenFile

/-! ## Paths -/

/-- A component of a path, as a C string. -/
structure Component (name : Name) : Prop where
  nonempty : name ≠ []
  plain : name.Plain
  text : ∀ ch ∈ name, ch ≠ 0

theorem Name.text_of_all {name : Name} (nonzero : name.all (fun ch => decide (ch ≠ 0)) = true) :
    ∀ ch ∈ name, ch ≠ 0 := fun ch member =>
  of_decide_eq_true (List.all_eq_true.mp nonzero ch member)

/-- The components with slashes between them. -/
def joined : (front : List Name) → (last : Name) → Name
  | [], last => last
  | c :: front, last => c ++ slash :: joined front last

/-- The directories of a path and its last name. -/
structure Path where
  front : List Name
  last : Name
  proper : ∀ c ∈ front ++ [last], Component c

def Path.name (path : Path) : Name := joined path.front path.last

/-- From the directory in sector `h` each component names a directory, and they lead to
the one in sector `h'`. -/
inductive Walks (disk : Disk) : Int → List Name → Int → Prop where
  | here (h : Int) : Walks disk h [] h
  | down {h h' : Int} {c : Name} {front : List Name} {i : Nat}
      (found : (tableAt disk h).entryIndex c = some i) (kind : (tableAt disk h).type i = 0)
      (rest : Walks disk ((tableAt disk h).sector i) front h') : Walks disk h (c :: front) h'

section Names

variable {c last d : Name} {front : List Name}

theorem joined_concat (front : List Name) (d last : Name) :
    joined (front ++ [d]) last = joined front d ++ slash :: last := by
  induction front with
  | nil => rfl
  | cons c front ih => simp only [List.cons_append, joined, ih, List.append_assoc]

theorem length_joined (front : List Name) (last : Name) : front.length ≤ (joined front last).length := by
  induction front with
  | nil => exact Nat.zero_le _
  | cons c front ih =>
    simp only [joined, List.length_cons, List.length_append]
    omega

theorem joined_nonempty (front : List Name) (nonempty : last ≠ []) : joined front last ≠ [] := by
  cases front with
  | nil => exact nonempty
  | cons c front => simp [joined]

theorem firstSlash_joined (plain : c.Plain) (rest : Name) :
    Name.firstSlash (c ++ slash :: rest) = some c.length := by
  have outside : c.findIdx? (· == slash) = none := plain
  rw [Name.firstSlash, List.findIdx?_append, outside]
  simp [List.findIdx?_cons]

theorem drop_joined (c rest : Name) : (c ++ slash :: rest).drop (c.length + 1) = rest := by
  simp [List.drop_append]

/-- The last number below a bound that passes a test. -/
theorem getLast?_filter_range {test : Nat → Bool} {n m : Nat} (inside : n < m) (passes : test n = true)
    (later : ∀ i, n < i → i < m → test i = false) : ((List.range m).filter test).getLast? = some n := by
  induction m with
  | zero => omega
  | succ m ih =>
    rw [List.range_succ, List.filter_append]
    by_cases top : n = m
    · rw [← top, List.filter_cons_of_pos passes, List.filter_nil, List.getLast?_concat]
    · have fails := later m (by omega) (by omega)
      rw [List.filter_cons_of_neg (by rw [fails]; exact Bool.false_ne_true), List.filter_nil, List.append_nil]
      exact ih (by omega) fun i above below => later i above (by omega)

/-- The last slash is the one before the last name. -/
theorem lastSlash_joined (nonempty : d ≠ []) (plain : last.Plain) :
    Name.lastSlash (d ++ slash :: last) = some d.length := by
  have positive : 0 < d.length := List.length_pos_iff.mpr nonempty
  refine getLast?_filter_range ?_ ?_ fun i above below => ?_
  · rw [List.length_append, List.length_cons]
    omega
  · simp [positive]
  · rw [List.length_append, List.length_cons] at below
    obtain ⟨k, rfl⟩ : ∃ k, i = d.length + (k + 1) := ⟨i - d.length - 1, by omega⟩
    have bound : k < last.length := by omega
    have other := Name.plain_iff.mp plain last[k] (List.getElem_mem bound)
    have here : (d ++ slash :: last).getD (d.length + (k + 1)) 0 = last[k] := by
      rw [List.getD_eq_getElem?_getD, List.getElem?_append_right (by omega), Nat.add_sub_cancel_left,
        List.getElem?_cons_succ, List.getElem?_eq_getElem bound, Option.getD_some]
    rw [here, beq_eq_false_iff_ne.mpr other, Bool.and_false]

theorem splitPath_joined (nonempty : d ≠ []) (plain : last.Plain) :
    FileSystem.splitPath (joined (front ++ [d]) last) = (joined front d, last) := by
  have split := lastSlash_joined (joined_nonempty front nonempty) plain
  rw [joined_concat]
  unfold FileSystem.splitPath Name.absPath Name.getAbsDir Name.getRealName
  rw [split]
  simp [List.drop_append]

end Names

/-! ## Components in a table -/

/-- The index `FindIndex` returns for a name in this table. -/
def Directory.indexOf (dir : Directory) (name : Name) : Int :=
  match dir.entryIndex name with
  | some i => (i : Int)
  | none => -1

section Tables

variable {layout : Layout} {disk disk' : Disk} {vis : Counters} {h h' : Int} {dir : Directory}
  {c rest : Name} {front : List Name} {i : Nat}

theorem Name.strncmpEq_comm (a b : Memory) (count : Nat) :
    Name.strncmpEq a b count = Name.strncmpEq b a count :=
  Bool.eq_iff_iff.mpr ⟨Name.strncmpEq_symm, Name.strncmpEq_symm⟩

/-- Only the characters that are compared decide which directory is picked. -/
theorem Directory.subdirectory_congr {a b : Memory} (same : ∀ k, k < 20 → a k = b k) :
    dir.subdirectory a = dir.subdirectory b := by
  have equal : ∀ j, Name.strncmpEq (dir.name j) a FileNameMaxLen =
      Name.strncmpEq (dir.name j) b FileNameMaxLen := fun j => by
    have swapped : Name.strncmpEq a (dir.name j) FileNameMaxLen =
        Name.strncmpEq b (dir.name j) FileNameMaxLen := Name.strncmpEq_congr same
    rw [Name.strncmpEq_comm, swapped, Name.strncmpEq_comm]
  simp only [Directory.subdirectory, equal]

theorem chars_joined {k : Nat} (inside : k < c.length) :
    Name.chars (c ++ slash :: rest) k = c.chars k := by
  rw [Name.chars, Name.chars, List.getD_eq_getElem?_getD, List.getD_eq_getElem?_getD,
    List.getElem?_append_left inside]

/-- Nothing behind the copy of a long component is compared. -/
theorem subdirectory_of_long (long : 20 ≤ c.length) (storage : Memory) :
    dir.subdirectory (storage.splice 0 c.length (Name.chars (c ++ slash :: rest))) =
      dir.subdirectory c.chars := by
  refine Directory.subdirectory_congr fun k inside => ?_
  rw [Memory.splice_inside (Nat.zero_le k) (by omega), Nat.sub_zero, chars_joined (by omega)]

/-- The component's entry is the directory that is picked. -/
theorem Sheltered.subdirectory_eq (sheltered : Sheltered layout disk) (known : h ∈ layout.dirs)
    (same : Directory.Same dir (tableAt disk h)) (found : (tableAt disk h).entryIndex c = some i)
    (kind : (tableAt disk h).type i = 0) : dir.subdirectory c.chars = some i := by
  obtain ⟨bound, here⟩ := Directory.entryIndex_some found
  have isDirectory : (tableAt disk h).IsSubdirectory c i := ⟨bound, here, kind⟩
  cases picked : dir.subdirectory c.chars with
  | none =>
    exact absurd (same.isSubdirectory_iff.mpr isDirectory) (Directory.subdirectory_none same.size picked)
  | some j =>
    have other := same.isSubdirectory_iff.mp (Directory.subdirectory_some same.size picked)
    rw [sheltered.subdirectory_unique known isDirectory other]

theorem exists_unlike (f : Nat → UInt8) : ∃ b : UInt8, ∀ i, i < 10 → f i ≠ b := by
  have fewer : ((Finset.range 10).image fun i => (f i).toNat).card < (Finset.range 11).card := by
    refine lt_of_le_of_lt Finset.card_image_le ?_
    simp
  obtain ⟨m, small, fresh⟩ := Finset.exists_mem_notMem_of_card_lt_card fewer
  have bound := Finset.mem_range.mp small
  refine ⟨UInt8.ofNat m, fun i inside same => fresh ?_⟩
  refine Finset.mem_image.mpr ⟨i, Finset.mem_range.mpr inside, ?_⟩
  rw [same, UInt8.toNat_ofNat']
  omega

/-- Behind a short component there can be a byte no entry has there. -/
theorem subdirectory_of_short (size : dir.tableSize = 10) (short : c.length < 20)
    (text : ∀ ch ∈ c, ch ≠ 0) {b : UInt8} (unlike : ∀ i, i < 10 → dir.name i c.length ≠ b) :
    dir.subdirectory (Memory.splice (fun _ => b) 0 c.length (Name.chars (c ++ slash :: rest))) = none := by
  refine List.getLast?_eq_none_iff.mpr (List.filter_eq_nil_iff.mpr fun i member => ?_)
  have bound := List.mem_range.mp member
  rw [size] at bound
  simp only [Bool.and_eq_true, not_and]
  intro _ equal
  have compared := Name.strncmpEq_iff.mp (Name.strncmpEq_symm equal) c.length short fun k before => ?_
  · rw [Memory.splice_outside (by omega)] at compared
    exact unlike i bound compared.symm
  · rw [Memory.splice_inside (Nat.zero_le k) (by omega), Nat.sub_zero, chars_joined before, Name.chars,
      List.getD_eq_getElem?_getD, List.getElem?_eq_getElem before, Option.getD_some]
    exact text _ (List.getElem_mem before)

/-! ## Walks -/

theorem Walks.known (walks : Walks disk h front h') (sheltered : Sheltered layout disk)
    (known : h ∈ layout.dirs) : h' ∈ layout.dirs := by
  induction walks with
  | here h => exact known
  | down found kind rest ih =>
    obtain ⟨bound, here⟩ := Directory.entryIndex_some found
    exact ih (sheltered.subdirectory_known known ⟨bound, here, kind⟩)

/-- Reading along the way does not change where a path leads. -/
theorem Walks.quiet (walks : Walks disk h front h') (sheltered : Sheltered layout disk)
    (known : h ∈ layout.dirs) (quiet : Quiet layout disk disk') : Walks disk' h front h' := by
  induction walks with
  | here h => exact .here h
  | @down h h' c front i found kind rest ih =>
    obtain ⟨bound, here⟩ := Directory.entryIndex_some found
    have same := quiet.same_table sheltered known
    have entry := same.entry bound
    refine .down (i := i) ?_ (entry.type.trans kind) ?_
    · rw [Directory.entryIndex_congr same]
      exact found
    · rw [entry.sector]
      exact ih (sheltered.subdirectory_known known ⟨bound, here, kind⟩)

end Tables

/-! ## FindIndex -/

section Lookups

variable {layout : Layout} {disk disk' : Disk} {vis : Counters} {fault : Fault → Prop} {h h' : Int}
  {dir : Directory} {c last : Name} {front : List Name} {i : Nat}

/-- Along long components `FindIndex` comes to the last directory, and returns an index
of its table. -/
theorem ensures_findIndex {post : Int → Disk → Counters → Prop} (depth : Nat) (deep : front.length < depth)
    (sheltered : Sheltered layout disk) (known : h ∈ layout.dirs)
    (same : Directory.Same dir (tableAt disk h)) (walks : Walks disk h front h')
    (proper : ∀ c ∈ front, Component c) (plain : last.Plain) (long : ∀ c ∈ front, 20 ≤ c.length)
    (holds : ∀ disk', Quiet layout disk disk' → post ((tableAt disk h').indexOf last) disk' vis) :
    Ensures (Directory.findIndex depth dir (joined front last)) post fault disk vis := by
  induction depth generalizing disk vis h dir front post with
  | zero => omega
  | succ depth ih =>
    cases walks with
    | here =>
      rw [joined, Directory.findIndex, plain]
      have found := holds disk (Frame.refl layout disk _)
      rw [Directory.indexOf, ← Directory.entryIndex_congr same] at found
      dsimp only
      split <;> rename_i result <;> rw [result] at found <;> exact ensures_pure found
    | @down _ _ c front i found kind rest =>
      have first := proper c (List.mem_cons_self ..)
      have picked : dir.subdirectory c.chars = some i := sheltered.subdirectory_eq known same found kind
      obtain ⟨bound, here⟩ := Directory.entryIndex_some found
      have inside := sheltered.subdirectory_known known ⟨bound, here, kind⟩
      have head : layout.Head ((tableAt disk h).sector i) := .inr (.inl inside)
      have valid := sheltered.valid_head head
      rw [joined, Directory.findIndex, firstSlash_joined first.plain]
      apply ensures_bind
      apply ensures_uninitialized
      intro storage
      simp only [subdirectory_of_long (long c (List.mem_cons_self ..)), picked, (same.entry bound).sector,
        drop_joined]
      apply ensures_bind
      refine ensures_new_head sheltered head ?_
      intro file _ current _
      apply ensures_bind
      apply ensures_bind
      apply ensures_uninitialized
      intro storage'
      apply ensures_pure
      apply ensures_bind
      have rootValid : ValidSector rootSector := by decide
      refine ensures_fetchTable sheltered sheltered.whole inside current
        (Directory.make_fresh storage' rootValid rootValid).size ?_
      intro dir' file' disk₁ same' current' _ quiet _
      have sheltered' := quiet.sheltered sheltered
      apply ensures_bind
      refine ih (by rw [List.length_cons] at deep; omega) sheltered' inside
        (same'.trans (quiet.same_table sheltered inside).symm) (rest.quiet sheltered inside quiet)
        (fun c member => proper c (List.mem_cons_of_mem _ member))
        (fun c member => long c (List.mem_cons_of_mem _ member)) ?_
      intro disk₂ quiet'
      apply ensures_bind
      have number : file'.hdr.sectorNumber = (tableAt disk h).sector i := sheltered'.number head current'
      refine OpenFile.ensures_delete (by rw [number]; exact valid) ?_
      apply ensures_pure
      rw [number, Function.update_self, Function.update_idem, add_sub_cancel_right, Function.update_eq_self]
      have through := holds disk₂ (Frame.trans quiet quiet')
      have ends := rest.known sheltered inside
      rw [Directory.indexOf, ← Directory.entryIndex_congr (quiet.same_table sheltered ends)] at through
      exact through

/-- A short component can be copied so that it names nothing. -/
theorem exists_stops_findIndex (last : Name) (depth : Nat) (deep : front.length < depth)
    (sheltered : Sheltered layout disk)
    (known : h ∈ layout.dirs) (walks : Walks disk h front h') (proper : ∀ c ∈ front, Component c)
    (short : ∃ c ∈ front, c.length < 20) : ∃ b : UInt8, ∀ disk' vis dir, Quiet layout disk disk' →
      Directory.Same dir (tableAt disk' h) →
      StopsOn (fun _ => b) .undefined (Directory.findIndex depth dir (joined front last)) disk' vis := by
  induction walks generalizing depth with
  | here h =>
    obtain ⟨c, member, -⟩ := short
    exact absurd member List.not_mem_nil
  | @down h h' c front i found kind rest ih =>
    obtain ⟨depth, rfl⟩ : ∃ d, depth = d + 1 := ⟨depth - 1, by omega⟩
    have first := proper c (List.mem_cons_self ..)
    by_cases long : 20 ≤ c.length
    · obtain ⟨bound, here⟩ := Directory.entryIndex_some found
      have inside := sheltered.subdirectory_known known ⟨bound, here, kind⟩
      obtain ⟨b, stops⟩ := ih depth (by rw [List.length_cons] at deep; omega) inside
        (fun c member => proper c (List.mem_cons_of_mem _ member)) (by
          obtain ⟨d, member, few⟩ := short
          rcases List.mem_cons.mp member with rfl | later
          · omega
          · exact ⟨d, later, few⟩)
      refine ⟨b, fun disk' vis dir quiet same => ?_⟩
      have sheltered' := quiet.sheltered sheltered
      have entry := (quiet.same_table sheltered known).entry bound
      have found' : (tableAt disk' h).entryIndex c = some i := by
        rw [Directory.entryIndex_congr (quiet.same_table sheltered known)]
        exact found
      have picked := sheltered'.subdirectory_eq known same found' (entry.type.trans kind)
      rw [joined, Directory.findIndex, firstSlash_joined first.plain]
      apply stopsOn_uninitialized
      simp only [subdirectory_of_long long, picked, (same.entry bound).sector, entry.sector, drop_joined]
      apply stopsOn_bind
      refine ensures_new_head sheltered' (.inr (.inl inside)) ?_
      intro file _ current _
      apply stopsOn_bind
      apply ensures_bind
      apply ensures_uninitialized
      intro storage
      apply ensures_pure
      apply stopsOn_bind
      have rootValid : ValidSector rootSector := by decide
      refine ensures_fetchTable sheltered' sheltered'.whole inside current
        (Directory.make_fresh storage rootValid rootValid).size ?_
      intro dir' file' disk₁ same' _ _ quiet' _
      apply stopsOn_bind_left
      exact stops disk₁ _ dir' (Frame.trans quiet quiet')
        (same'.trans (quiet'.same_table sheltered' inside).symm)
    · obtain ⟨b, unlike⟩ := exists_unlike fun i => (tableAt disk h).name i c.length
      refine ⟨b, fun disk' vis dir quiet same => ?_⟩
      have same₀ := same.trans (quiet.same_table sheltered known)
      have none_ : dir.subdirectory (Memory.splice (fun _ => b) 0 c.length
          (Name.chars (c ++ slash :: joined front last))) = none :=
        subdirectory_of_short same.size (by omega) first.text fun i bound => by
          rw [(same₀.entry bound).name (by omega)]
          exact unlike i bound
      rw [joined, Directory.findIndex, firstSlash_joined first.plain]
      apply stopsOn_uninitialized
      simp only [none_]
      exact stopsOn_stop

end Lookups

end Nachos
