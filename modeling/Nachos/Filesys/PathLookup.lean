import Nachos.Filesys.Paths

/-! What `Find` and `Open` make of a path whose directories are all there. `Find` takes
the index from the last directory's table and the sector from the root's, so a path of
two components or more is found only where both tables say the same; `Open` looks only
the directory part up that way. -/
namespace Nachos
open Effects FileHeader OpenFile

/-- `Find` on the root's table returns what the last directory's table says. -/
def FindsPath (disk : Disk) (vis : Counters) (path : Path) (h : Int) : Prop :=
  ∀ dir, Directory.Same dir (tableAt disk 1) →
    Ensures (dir.Find path.name) (fun result _ _ => result = (tableAt disk h).lookup path.last)
      (fun _ => False) disk vis

/-- `Open` returns a handle on the header the last directory's table names, or none. -/
def OpensPath (fs : FileSystem) (disk : Disk) (vis : Counters) (path : Path) (h : Int) : Prop :=
  Ensures (fs.Open path.name)
    (fun result disk' _ => match (tableAt disk h).entryIndex path.last with
      | some i => ∃ file, result.1 = some file ∧ Current disk' file ((tableAt disk h).sector i) ∧
          file.hdr.sectorNumber = (tableAt disk h).sector i
      | none => result.1 = none)
    (fun _ => False) disk vis

/-- The root's entry at the index of this name has the sector that is meant. -/
def SameSector (disk : Disk) (h : Int) (name : Name) : Prop :=
  ∀ i, (tableAt disk h).entryIndex name = some i → (tableAt disk 1).sector i = (tableAt disk h).sector i

/-- Nothing goes wrong with the path: it is a single name, or its directories fill the
characters that are compared and the root's table has the right sector by chance. -/
def Straight (disk : Disk) (front : List Name) (last : Name) (h : Int) : Prop :=
  front = [] ∨ ((∀ c ∈ front, 20 ≤ c.length) ∧ SameSector disk h last)

/-- Nothing goes wrong with the directory part of the path. -/
def StraightDirectory (disk : Disk) (path : Path) : Prop :=
  path.front = [] ∨ ∃ front d p, path.front = front ++ [d] ∧ Walks disk 1 front p ∧ Straight disk front d p

section Finding

variable {layout : Layout} {disk disk' : Disk} {vis : Counters} {fault : Fault → Prop} {h : Int}
  {dir : Directory} {last : Name} {front : List Name} {path : Path} {fs : FileSystem}

/-- What `Find` reads in the root's table. -/
theorem ensures_Find_long {post : Int → Disk → Counters → Prop} (sheltered : Sheltered layout disk)
    (same : Directory.Same dir (tableAt disk 1)) (walks : Walks disk 1 front h)
    (proper : ∀ c ∈ front, Component c) (plain : last.Plain) (long : ∀ c ∈ front, 20 ≤ c.length)
    (holds : ∀ disk', Quiet layout disk disk' →
      post (match (tableAt disk h).entryIndex last with
        | some i => (tableAt disk 1).sector i
        | none => -1) disk' vis) :
    Ensures (dir.Find (joined front last)) post fault disk vis := by
  unfold Directory.Find Directory.FindIndex
  apply ensures_bind
  have deep : front.length < (joined front last).length + 1 :=
    Nat.lt_succ_of_le (length_joined front last)
  refine ensures_findIndex _ deep sheltered sheltered.root same walks proper plain long fun disk' quiet => ?_
  have through := holds disk' quiet
  unfold Directory.indexOf
  cases found : (tableAt disk h).entryIndex last with
  | none =>
    rw [found] at through
    exact ensures_pure through
  | some i =>
    have bound := (Directory.entryIndex_some found).1
    rw [found] at through
    dsimp only
    rw [if_pos (by omega), Int.toNat_natCast, (same.entry bound).sector]
    exact ensures_pure through

theorem lookup_of_sameSector (right : SameSector disk h last) :
    (match (tableAt disk h).entryIndex last with
      | some i => (tableAt disk 1).sector i
      | none => -1) = (tableAt disk h).lookup last := by
  unfold Directory.lookup
  cases found : (tableAt disk h).entryIndex last with
  | none => rfl
  | some i => exact right i found

theorem Straight.quiet (straight : Straight disk front last h) (sheltered : Sheltered layout disk)
    (known : h ∈ layout.dirs) (quiet : Quiet layout disk disk') : Straight disk' front last h := by
  refine straight.imp id fun ⟨long, right_⟩ => ⟨long, fun i found => ?_⟩
  have same := quiet.same_table sheltered known
  rw [Directory.entryIndex_congr same] at found
  have bound := (Directory.entryIndex_some found).1
  rw [((quiet.same_table sheltered sheltered.root).entry bound).sector, (same.entry bound).sector]
  exact right_ i found

/-- A straight path is found. -/
theorem ensures_Find_straight {post : Int → Disk → Counters → Prop} (sheltered : Sheltered layout disk)
    (same : Directory.Same dir (tableAt disk 1)) (walks : Walks disk 1 front h)
    (proper : ∀ c ∈ front, Component c) (plain : last.Plain) (straight : Straight disk front last h)
    (holds : ∀ disk', Quiet layout disk disk' → post ((tableAt disk h).lookup last) disk' vis) :
    Ensures (dir.Find (joined front last)) post fault disk vis := by
  rcases straight with rfl | ⟨long, right_⟩
  · cases walks with
    | here =>
      refine Directory.ensures_Find plain ?_
      rw [Directory.lookup_congr same]
      exact holds disk (Frame.refl layout disk _)
  · refine ensures_Find_long sheltered same walks proper plain long fun disk' quiet => ?_
    rw [lookup_of_sameSector right_]
    exact holds disk' quiet

theorem Path.proper_front (path : Path) : ∀ c ∈ path.front, Component c :=
  fun c member => path.proper c (List.mem_append_left _ member)

theorem Path.proper_last (path : Path) : Component path.last :=
  path.proper _ (List.mem_append_right _ (List.mem_singleton_self _))

/-- With a short directory on the way nothing can be relied on. -/
theorem long_of_finds (sheltered : Sheltered layout disk) (walks : Walks disk 1 path.front h)
    (finds : FindsPath disk vis path h) : ∀ c ∈ path.front, 20 ≤ c.length := by
  by_contra short
  push Not at short
  have deep : path.front.length < path.name.length + 1 :=
    Nat.lt_succ_of_le (length_joined path.front path.last)
  obtain ⟨b, stops⟩ := exists_stops_findIndex path.last _ deep sheltered sheltered.root walks
    path.proper_front short
  have same : Directory.Same (tableAt disk 1) (tableAt disk 1) := ⟨rfl, rfl, fun _ _ => rfl⟩
  exact (stopsOn_bind_left (stops disk vis _ (Frame.refl layout disk _) same)).not_ensures (finds _ same)

/-- `Find` works exactly on the straight paths. -/
theorem findsPath_iff (sheltered : Sheltered layout disk) (walks : Walks disk 1 path.front h) :
    FindsPath disk vis path h ↔ Straight disk path.front path.last h := by
  constructor
  · intro finds
    by_cases single : path.front = []
    · exact .inl single
    · have long := long_of_finds sheltered walks finds
      refine .inr ⟨long, fun i found => ?_⟩
      have same : Directory.Same (tableAt disk 1) (tableAt disk 1) := ⟨rfl, rfl, fun _ _ => rfl⟩
      have read : Ensures ((tableAt disk 1).Find path.name)
          (fun result _ _ => result = (tableAt disk 1).sector i) (fun _ => False) disk vis := by
        refine ensures_Find_long sheltered same walks path.proper_front path.proper_last.plain long
          fun _ _ => ?_
        rw [found]
      obtain ⟨_, _, _, meant, got⟩ := ensures_both (finds _ same) read
      rw [← got, meant, Directory.lookup, found]
  · intro straight dir same
    exact ensures_Find_straight sheltered same walks path.proper_front path.proper_last.plain straight
      fun _ _ => rfl

/-- `Open` when the directory part is found. -/
theorem ensures_Open_through {post : Option OpenFile × FileSystem → Disk → Counters → Prop}
    {name dirPart : Name} (sheltered : Sheltered layout disk) (mounted : Mounted fs disk)
    (known : h ∈ layout.dirs) (split : FileSystem.splitPath name = (dirPart, last)) (plain : last.Plain)
    (finds : ∀ {dir disk' vis'} {post : Int → Disk → Counters → Prop}, Quiet layout disk disk' →
      Directory.Same dir (tableAt disk' 1) →
      (∀ disk'', Quiet layout disk' disk'' → post h disk'' vis') →
      Ensures (dir.Find dirPart) post fault disk' vis')
    (missing : ∀ fs' disk' vis', (tableAt disk h).entryIndex last = none → post (none, fs') disk' vis')
    (found : ∀ fs' file disk' vis' i, (tableAt disk h).entryIndex last = some i →
      Current disk' file ((tableAt disk h).sector i) →
      file.hdr.sectorNumber = (tableAt disk h).sector i → post (some file, fs') disk' vis') :
    Ensures (fs.Open name) post fault disk vis := by
  unfold FileSystem.Open
  rw [split]
  apply ensures_bind
  apply ensures_bind
  apply ensures_uninitialized
  intro storage
  apply ensures_pure
  apply ensures_bind
  have rootValid : ValidSector rootSector := by decide
  refine ensures_fetchTable sheltered sheltered.whole sheltered.root mounted.root
    (Directory.make_fresh storage rootValid rootValid).size ?_
  intro root rootFile disk₁ sameRoot _ _ quiet₁ _
  have sheltered₁ := quiet₁.sheltered sheltered
  apply ensures_bind
  refine finds quiet₁ (sameRoot.trans (quiet₁.same_table sheltered sheltered.root).symm) ?_
  intro disk₂ quiet₂
  have sheltered₂ := quiet₂.sheltered sheltered₁
  apply ensures_bind
  refine ensures_new_head sheltered₂ (.inr (.inl known)) ?_
  intro file _ current _
  apply ensures_bind
  apply ensures_bind
  apply ensures_uninitialized
  intro storage'
  apply ensures_pure
  apply ensures_bind
  refine ensures_fetchTable sheltered₂ sheltered₂.whole known current
    (Directory.make_fresh storage' rootValid rootValid).size ?_
  intro dir _ disk₃ same _ _ quiet₃ _
  have sheltered₃ := quiet₃.sheltered sheltered₂
  have original : Directory.Same dir (tableAt disk h) :=
    same.trans ((quiet₂.same_table sheltered₁ known).trans (quiet₁.same_table sheltered known))
  apply ensures_bind
  refine Directory.ensures_Find plain ?_
  rw [Directory.lookup_congr original, Directory.lookup]
  cases result : (tableAt disk h).entryIndex last with
  | none =>
    dsimp only
    rw [if_neg (by omega)]
    exact ensures_pure (missing _ _ _ result)
  | some i =>
    obtain ⟨bound, used, -⟩ := Directory.entryIndex_some result
    have head := sheltered.entry_head known bound used
    dsimp only
    rw [if_pos (sheltered.valid_head head).1]
    apply ensures_bind
    refine ensures_new_head sheltered₃ head ?_
    intro opened _ currentOpened _
    exact ensures_pure (found _ _ _ _ i result currentOpened (sheltered₃.number head currentOpened))

/-- The last directory of a walk is looked up in the one before it. -/
theorem Walks.last_step {d : Name} {p : Int} (walks : Walks disk p (front ++ [d]) h) :
    ∃ q i, Walks disk p front q ∧ (tableAt disk q).entryIndex d = some i ∧
      (tableAt disk q).sector i = h := by
  induction front generalizing p with
  | nil =>
    cases walks with
    | @down _ _ _ _ i found kind rest =>
      cases rest with
      | here => exact ⟨p, i, .here p, found, rfl⟩
  | cons c front ih =>
    cases walks with
    | down found kind rest =>
      obtain ⟨q, i, before, last, sector⟩ := ih rest
      exact ⟨q, i, .down found kind before, last, sector⟩

theorem Walks.unique {p q q' : Int} (walks : Walks disk p front q) (walks' : Walks disk p front q') :
    q = q' := by
  induction walks with
  | here h =>
    cases walks' with
    | here => rfl
  | down found kind rest ih =>
    cases walks' with
    | down found' kind' rest' =>
      rw [found, Option.some_inj] at found'
      subst found'
      exact ih rest'

/-- A path with a straight directory part is opened. -/
theorem opensPath_of_straight (sheltered : Sheltered layout disk) (mounted : Mounted fs disk)
    (walks : Walks disk 1 path.front h) (straight : StraightDirectory disk path) :
    OpensPath fs disk vis path h := by
  have known := walks.known sheltered sheltered.root
  have plain := path.proper_last.plain
  rcases straight with single | ⟨front, d, p, split, before, straight⟩
  · have name : path.name = path.last := by rw [Path.name, single, joined]
    rw [single] at walks
    cases walks with
    | here =>
      have split : FileSystem.splitPath path.name = ([dot], path.last) := by
        rw [name, splitPath_of_plain plain]
      refine ensures_Open_through sheltered mounted known split plain ?_ ?_ ?_
      · intro dir disk' vis' post quiet same holds
        refine Directory.ensures_Find (by decide) ?_
        rw [Directory.lookup_congr same, (quiet.sheltered sheltered).lookup_dot.2]
        exact holds disk' (Frame.refl layout disk' _)
      · intro fs' disk' vis' absent
        simp only [absent]
      · intro fs' file disk' vis' i found current number
        simp only [found]
        exact ⟨file, rfl, current, number⟩
  · have proper : ∀ c ∈ front ++ [d], Component c := split ▸ path.proper_front
    have parent := proper d (List.mem_append_right _ (List.mem_singleton_self d))
    have name : path.name = joined (front ++ [d]) path.last := by rw [Path.name, split]
    rw [split] at walks
    obtain ⟨q, i, before', found, sector⟩ := walks.last_step
    obtain rfl := before.unique before'
    have entered : (tableAt disk p).lookup d = h := by
      rw [Directory.lookup, found]
      exact sector
    refine ensures_Open_through sheltered mounted known
      (by rw [name, splitPath_joined parent.nonempty plain]) plain ?_ ?_ ?_
    · intro dir disk' vis' post quiet same holds
      have inside := before.known sheltered sheltered.root
      refine ensures_Find_straight (quiet.sheltered sheltered) same (before.quiet sheltered sheltered.root quiet)
        (fun c member => proper c (List.mem_append_left _ member)) parent.plain ?_ ?_
      · exact straight.quiet sheltered inside quiet
      · rw [Directory.lookup_congr (quiet.same_table sheltered inside), entered]
        exact holds
    · intro fs' disk' vis' absent
      simp only [absent]
    · intro fs' file disk' vis' i found current number
      simp only [found]
      exact ⟨file, rfl, current, number⟩

/-- On which paths `Find` and `Open` do what they should: every path of one component,
and longer ones only where the comparison and the root's table happen to help. -/
theorem paths_resolve (sheltered : Sheltered layout disk) (mounted : Mounted fs disk)
    (walks : Walks disk 1 path.front h) :
    (FindsPath disk vis path h ↔ Straight disk path.front path.last h) ∧
      (StraightDirectory disk path → OpensPath fs disk vis path h) :=
  ⟨findsPath_iff sheltered walks, opensPath_of_straight sheltered mounted walks⟩

end Finding

/-! The path `"./a"` on a new disk -/

def dotPath : Path where
  front := [[dot]]
  last := nameA
  proper c member := by
    rcases List.mem_cons.mp member with rfl | member
    · exact ⟨by decide, by decide, Name.text_of_all (by decide)⟩
    · obtain rfl := List.mem_singleton.mp member
      exact ⟨by decide, by decide, Name.text_of_all (by decide)⟩

theorem Sheltered.walks_dot {layout : Layout} {disk : Disk} (sheltered : Sheltered layout disk) :
    Walks disk 1 dotPath.front 1 := by
  obtain ⟨self, -, kind, -⟩ := sheltered.rootSelf
  refine .down sheltered.lookup_dot.1 kind ?_
  rw [self]
  exact .here 1

theorem paths_resolve_new_disk : ∃ fs booted,
    FileSystem.format.run SynchDisk.handle zeroMachine = .done fs booted ∧
      (FindsPath booted.disk booted.visNum dotPath 1 ↔ Straight booted.disk dotPath.front dotPath.last 1) ∧
      (StraightDirectory booted.disk dotPath → OpensPath fs booted.disk booted.visNum dotPath 1) := by
  obtain ⟨fs, booted, ran, ⟨formatted, mounted⟩, -⟩ := zeroMachine_blank.formats
  exact ⟨fs, booted, ran, paths_resolve formatted.sheltered mounted formatted.sheltered.walks_dot⟩

/-- `Find("./a")` cannot be relied on: the copy of `"."` is compared with what follows it. -/
theorem dot_path_not_found : ∃ fs booted,
    FileSystem.format.run SynchDisk.handle zeroMachine = .done fs booted ∧
      Walks booted.disk 1 dotPath.front 1 ∧ ¬ FindsPath booted.disk booted.visNum dotPath 1 := by
  obtain ⟨fs, booted, ran, ⟨formatted, -⟩, -⟩ := zeroMachine_blank.formats
  have walks := formatted.sheltered.walks_dot
  refine ⟨fs, booted, ran, walks, fun finds => ?_⟩
  have long := long_of_finds formatted.sheltered walks finds [dot] (by decide)
  exact absurd long (by decide)

end Nachos
