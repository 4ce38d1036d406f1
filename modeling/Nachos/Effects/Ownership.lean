import Mathlib.Tactic

/-! Bookkeeping of shared resources. `Partition` says an allocation map is
exact: every marked resource has one owner; `Shelter` lets some have none.
`Rooted` says the owners hang together in a tree, so that each can be reached
from the root by exactly one sequence of links. All come with the steps an
allocator takes: a new owner, a new link, and their removal. -/
namespace Effects

section Partition

variable {K R : Type} {owns owns' : K → R → Prop} {marked marked' : R → Prop}

/-- Every marked resource has exactly one owner, and no other resource has one. -/
structure Partition (owns : K → R → Prop) (marked : R → Prop) : Prop where
  exactly : ∀ r, marked r ↔ ∃ k, owns k r
  single : ∀ k k' r, owns k r → owns k' r → k = k'

theorem Partition.marked_of_owns (exact : Partition owns marked) {k : K} {r : R} (owned : owns k r) :
    marked r := (exact.exactly r).mpr ⟨k, owned⟩

/-- What is owned is marked, and by one owner; marked resources without an owner are
lost to everybody. -/
structure Shelter (owns : K → R → Prop) (marked : R → Prop) : Prop where
  kept : ∀ k r, owns k r → marked r
  single : ∀ k k' r, owns k r → owns k' r → k = k'

theorem Partition.shelter (exact : Partition owns marked) : Shelter owns marked :=
  ⟨fun _ _ => exact.marked_of_owns, exact.single⟩

theorem Shelter.marked_of_owns (shelter : Shelter owns marked) {k : K} {r : R} (owned : owns k r) :
    marked r := shelter.kept k r owned

theorem Shelter.congr (shelter : Shelter owns marked) (same : ∀ k r, owns' k r ↔ owns k r)
    (marks : ∀ r, marked' r ↔ marked r) : Shelter owns' marked' where
  kept := fun k r owned => (marks r).mpr (shelter.kept k r ((same k r).mp owned))
  single := fun k k' r first second =>
    shelter.single k k' r ((same k r).mp first) ((same k' r).mp second)

/-- Handing out resources that were not marked keeps owners apart. -/
theorem Shelter.add (shelter : Shelter owns marked) (new : K → R → Prop)
    (more : ∀ k r, owns' k r ↔ owns k r ∨ new k r)
    (marks : ∀ r, marked' r ↔ marked r ∨ ∃ k, new k r) (fresh : ∀ k r, new k r → ¬ marked r)
    (apart : ∀ k k' r, new k r → new k' r → k = k') : Shelter owns' marked' where
  kept := fun k r owned => (marks r).mpr
    (((more k r).mp owned).imp (shelter.kept k r) fun taken => ⟨k, taken⟩)
  single := fun k k' r first second => by
    rcases (more k r).mp first with old | taken <;> rcases (more k' r).mp second with old' | taken'
    · exact shelter.single k k' r old old'
    · exact absurd (shelter.kept k r old) (fresh k' r taken')
    · exact absurd (shelter.kept k' r old') (fresh k r taken)
    · exact apart k k' r taken taken'

/-- So does taking back everything some owners have. -/
theorem Shelter.drop (shelter : Shelter owns marked) (gone : K → Prop)
    (fewer : ∀ k r, owns' k r ↔ owns k r ∧ ¬ gone k)
    (marks : ∀ r, marked' r ↔ marked r ∧ ∀ k, gone k → ¬ owns k r) : Shelter owns' marked' where
  kept := fun k r owned => by
    obtain ⟨owned, kept⟩ := (fewer k r).mp owned
    refine (marks r).mpr ⟨shelter.kept k r owned, fun k' lost owned' => kept ?_⟩
    rw [shelter.single k k' r owned owned']
    exact lost
  single := fun k k' r first second =>
    shelter.single k k' r ((fewer k r).mp first).1 ((fewer k' r).mp second).1

/-- So does exchanging what some owners have, if nobody else has what they get. -/
theorem Shelter.exchange (shelter : Shelter owns marked) (mine : K → Prop) (new : K → R → Prop)
    (each : ∀ k r, owns' k r ↔ owns k r ∧ ¬ mine k ∨ mine k ∧ new k r)
    (marks : ∀ r, marked r → marked' r) (kept : ∀ k r, mine k → new k r → marked' r)
    (apart : ∀ k k' r, mine k → mine k' → new k r → new k' r → k = k')
    (others : ∀ k k' r, owns k r → ¬ mine k → mine k' → ¬ new k' r) : Shelter owns' marked' where
  kept := fun k r owned => by
    rcases (each k r).mp owned with ⟨old, -⟩ | ⟨own, given⟩
    · exact marks r (shelter.kept k r old)
    · exact kept k r own given
  single := fun k k' r first second => by
    rcases (each k r).mp first with ⟨old, other⟩ | ⟨own, given⟩ <;>
      rcases (each k' r).mp second with ⟨old', other'⟩ | ⟨own', given'⟩
    · exact shelter.single k k' r old old'
    · exact absurd given' (others k k' r old other own')
    · exact absurd given (others k' k r old' other' own)
    · exact apart k k' r own own' given given'

theorem Partition.congr (exact : Partition owns marked) (same : ∀ k r, owns' k r ↔ owns k r)
    (marks : ∀ r, marked' r ↔ marked r) : Partition owns' marked' where
  exactly := fun r => by simp only [marks, same, exact.exactly]
  single := (exact.shelter.congr same marks).single

/-- Handing out resources that nobody owned keeps the map exact. -/
theorem Partition.add (exact : Partition owns marked) (new : K → R → Prop)
    (more : ∀ k r, owns' k r ↔ owns k r ∨ new k r)
    (marks : ∀ r, marked' r ↔ marked r ∨ ∃ k, new k r) (fresh : ∀ k r, new k r → ¬ marked r)
    (apart : ∀ k k' r, new k r → new k' r → k = k') : Partition owns' marked' where
  exactly := fun r => by
    refine ⟨fun now => ?_, fun ⟨k, owned⟩ =>
      (exact.shelter.add new more marks fresh apart).kept k r owned⟩
    obtain old | ⟨k, taken⟩ := (marks r).mp now
    · obtain ⟨k, owned⟩ := (exact.exactly r).mp old
      exact ⟨k, (more k r).mpr (.inl owned)⟩
    · exact ⟨k, (more k r).mpr (.inr taken)⟩
  single := (exact.shelter.add new more marks fresh apart).single

/-- Taking back everything some owners have keeps the map exact. -/
theorem Partition.drop (exact : Partition owns marked) (gone : K → Prop)
    (fewer : ∀ k r, owns' k r ↔ owns k r ∧ ¬ gone k)
    (marks : ∀ r, marked' r ↔ marked r ∧ ∀ k, gone k → ¬ owns k r) : Partition owns' marked' where
  exactly := fun r => by
    refine ⟨fun now => ?_, fun ⟨k, owned⟩ => (exact.shelter.drop gone fewer marks).kept k r owned⟩
    obtain ⟨old, kept⟩ := (marks r).mp now
    obtain ⟨k, owned⟩ := (exact.exactly r).mp old
    exact ⟨k, (fewer k r).mpr ⟨owned, fun lost => kept k lost owned⟩⟩
  single := (exact.shelter.drop gone fewer marks).single

end Partition

section Rooted

variable {N I : Type} {child child' : N → I → N → Prop} {node node' : N → Prop} {root : N}

/-- The nodes form a tree under `root`: link `i` of `p` leads to `c` when
`child p i c`. -/
structure Rooted (child : N → I → N → Prop) (node : N → Prop) (root : N) : Prop where
  top : node root
  closed : ∀ p i c, node p → child p i c → node c ∧ c ≠ root
  named : ∀ c, node c → c ≠ root → ∃ p i, node p ∧ child p i c
  once : ∀ p p' i i' c, node p → node p' → child p i c → child p' i' c → p = p' ∧ i = i'
  ranked : ∃ rank : N → Nat, ∀ p i c, node p → child p i c → rank p < rank c

/-- Following the links in order leads from `root` to a node. -/
inductive Walk (child : N → I → N → Prop) (root : N) : List I → N → Prop where
  | here : Walk child root [] root
  | step {path : List I} {p c : N} {i : I} :
      Walk child root path p → child p i c → Walk child root (path ++ [i]) c

theorem Rooted.walk_node (tree : Rooted child node root) {path : List I} {c : N}
    (walk : Walk child root path c) : node c := by
  induction walk with
  | here => exact tree.top
  | step _ link ih => exact (tree.closed _ _ _ ih link).1

/-- Every node is reached. The induction is on the rank. -/
theorem Rooted.exists_walk (tree : Rooted child node root) {c : N} (known : node c) :
    ∃ path, Walk child root path c := by
  obtain ⟨rank, climbs⟩ := tree.ranked
  induction level : rank c using Nat.strong_induction_on generalizing c with
  | _ level ih =>
    by_cases top : c = root
    · subst top
      exact ⟨[], .here⟩
    · obtain ⟨p, i, parent, link⟩ := tree.named c known top
      obtain ⟨path, walk⟩ := ih (rank p) (by rw [← level]; exact climbs p i c parent link) parent rfl
      exact ⟨path ++ [i], .step walk link⟩

theorem Rooted.walk_unique (tree : Rooted child node root) {path path' : List I} {c : N}
    (walk : Walk child root path c) (walk' : Walk child root path' c) : path = path' := by
  induction walk generalizing path' with
  | here =>
    cases walk' with
    | here => rfl
    | step before link => exact absurd rfl (tree.closed _ _ _ (tree.walk_node before) link).2
  | step before link ih =>
    cases walk' with
    | here => exact absurd rfl (tree.closed _ _ _ (tree.walk_node before) link).2
    | step before' link' =>
      obtain ⟨rfl, rfl⟩ :=
        tree.once _ _ _ _ _ (tree.walk_node before) (tree.walk_node before') link link'
      rw [ih before']

theorem Rooted.congr (tree : Rooted child node root) (same : ∀ c, node' c ↔ node c)
    (links : ∀ p i c, node p → (child' p i c ↔ child p i c)) : Rooted child' node' root where
  top := (same root).mpr tree.top
  closed := fun p i c known link => by
    rw [same] at known ⊢
    exact tree.closed p i c known ((links p i c known).mp link)
  named := fun c known other => by
    obtain ⟨p, i, parent, link⟩ := tree.named c ((same c).mp known) other
    exact ⟨p, i, (same p).mpr parent, (links p i c parent).mpr link⟩
  once := fun p p' i i' c known known' link link' => by
    rw [same] at known known'
    exact tree.once p p' i i' c known known' ((links p i c known).mp link)
      ((links p' i' c known').mp link')
  ranked := by
    obtain ⟨rank, climbs⟩ := tree.ranked
    exact ⟨rank, fun p i c known link =>
      climbs p i c ((same p).mp known) ((links p i c ((same p).mp known)).mp link)⟩

/-- A new leaf under an unused link of an existing node. -/
theorem Rooted.add (tree : Rooted child node root) (parent leaf : N) (slot : I)
    (known : node parent) (fresh : ¬ node leaf)
    (nodes : ∀ c, node' c ↔ node c ∨ c = leaf)
    (links : ∀ p i c, node p → (child' p i c ↔ child p i c ∨ (p = parent ∧ i = slot ∧ c = leaf)))
    (bare : ∀ i c, ¬ child' leaf i c) : Rooted child' node' root := by
  classical
  have old : ∀ p i c, node p → child p i c → c ≠ leaf := by
    rintro p i c knownP link rfl
    exact fresh (tree.closed p i c knownP link).1
  have split : ∀ p i c, node' p → child' p i c →
      node p ∧ (child p i c ∨ (p = parent ∧ i = slot ∧ c = leaf)) := by
    intro p i c knownP link
    rcases (nodes p).mp knownP with knownP | rfl
    · exact ⟨knownP, (links p i c knownP).mp link⟩
    · exact absurd link (bare i c)
  refine ⟨(nodes root).mpr (.inl tree.top), ?_, ?_, ?_, ?_⟩
  · intro p i c knownP link
    obtain ⟨knownP, link | ⟨rfl, rfl, rfl⟩⟩ := split p i c knownP link
    · obtain ⟨knownC, other⟩ := tree.closed p i c knownP link
      exact ⟨(nodes c).mpr (.inl knownC), other⟩
    · exact ⟨(nodes c).mpr (.inr rfl), fun same => fresh (same ▸ tree.top)⟩
  · intro c knownC other
    rcases (nodes c).mp knownC with knownC | rfl
    · obtain ⟨p, i, knownP, link⟩ := tree.named c knownC other
      exact ⟨p, i, (nodes p).mpr (.inl knownP), (links p i c knownP).mpr (.inl link)⟩
    · exact ⟨parent, slot, (nodes parent).mpr (.inl known),
        (links parent slot c known).mpr (.inr ⟨rfl, rfl, rfl⟩)⟩
  · intro p p' i i' c knownP knownP' link link'
    obtain ⟨knownP, link | ⟨rfl, rfl, rfl⟩⟩ := split p i c knownP link <;>
      obtain ⟨knownP', link' | ⟨same, same', same''⟩⟩ := split p' i' _ knownP' link'
    · exact tree.once p p' i i' c knownP knownP' link link'
    · exact absurd same'' (old p i c knownP link)
    · exact absurd rfl (old p' i' _ knownP' link')
    · exact ⟨same.symm, same'.symm⟩
  · obtain ⟨rank, climbs⟩ := tree.ranked
    have notLeaf : ∀ p, node p → p ≠ leaf := by
      rintro p knownP rfl
      exact fresh knownP
    refine ⟨Function.update rank leaf (rank parent + 1), ?_⟩
    intro p i c knownP link
    obtain ⟨knownP, link | ⟨rfl, rfl, rfl⟩⟩ := split p i c knownP link
    · rw [Function.update_of_ne (notLeaf p knownP),
        Function.update_of_ne (old p i c knownP link)]
      exact climbs p i c knownP link
    · rw [Function.update_of_ne (notLeaf p knownP), Function.update_self]
      omega

/-- Cutting off a leaf. -/
theorem Rooted.cut (tree : Rooted child node root) (parent leaf : N) (slot : I)
    (known : node parent) (link : child parent slot leaf)
    (alone : ∀ c, child parent slot c → c = leaf)
    (nodes : ∀ c, node' c ↔ node c ∧ c ≠ leaf)
    (links : ∀ p i c, node p → (child' p i c ↔ child p i c ∧ ¬ (p = parent ∧ i = slot)))
    (bare : ∀ i c, ¬ child leaf i c) : Rooted child' node' root := by
  obtain ⟨knownLeaf, notRoot⟩ := tree.closed parent slot leaf known link
  have only : ∀ p i, node p → child p i leaf → p = parent ∧ i = slot := fun p i knownP other =>
    tree.once p parent i slot leaf knownP known other link
  refine ⟨(nodes root).mpr ⟨tree.top, notRoot.symm⟩, ?_, ?_, ?_, ?_⟩
  · intro p i c knownP below
    obtain ⟨knownP, -⟩ := (nodes p).mp knownP
    obtain ⟨below, kept⟩ := (links p i c knownP).mp below
    obtain ⟨knownC, other⟩ := tree.closed p i c knownP below
    refine ⟨(nodes c).mpr ⟨knownC, ?_⟩, other⟩
    rintro rfl
    exact kept (only p i knownP below)
  · intro c knownC other
    obtain ⟨knownC, notLeaf⟩ := (nodes c).mp knownC
    obtain ⟨p, i, knownP, below⟩ := tree.named c knownC other
    refine ⟨p, i, (nodes p).mpr ⟨knownP, ?_⟩, (links p i c knownP).mpr ⟨below, ?_⟩⟩
    · rintro rfl
      exact bare i c below
    · rintro ⟨rfl, rfl⟩
      exact notLeaf (alone c below)
  · intro p p' i i' c knownP knownP' below below'
    obtain ⟨knownP, -⟩ := (nodes p).mp knownP
    obtain ⟨knownP', -⟩ := (nodes p').mp knownP'
    exact tree.once p p' i i' c knownP knownP' ((links p i c knownP).mp below).1
      ((links p' i' c knownP').mp below').1
  · obtain ⟨rank, climbs⟩ := tree.ranked
    refine ⟨rank, fun p i c knownP below => ?_⟩
    obtain ⟨knownP, -⟩ := (nodes p).mp knownP
    exact climbs p i c knownP ((links p i c knownP).mp below).1

end Rooted
end Effects
