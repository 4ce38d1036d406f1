import Nachos.Filesys.StaleHeader

/-! The free map against what can be reached. A route names a sector by how it
is reached: as part of the free map's file, or by following entries from the
root to a header and taking one of that file's parts. The map is exact when it
marks just the sectors some route reaches and no sector has two routes. -/
namespace Nachos
open Effects FileHeader

/-- How a sector is reached. -/
inductive Route where
  | freeMap (part : Part)
  | entry (path : List Nat) (part : Part)

/-- The route leads to sector `s`. Entries `"."` and `".."` are not followed. -/
def Reaches (disk : Disk) : Route → Int → Prop
  | .freeMap part, s => HasPart disk FreeMapSector part s
  | .entry path part, s => ∃ h isDir,
      Walk (Child disk) (DirectorySector, true) path (h, isDir) ∧ HasPart disk h part s

/-- The free map as a read through its header finds it. -/
def storedMap (disk : Disk) : BitMap where
  numBits := NumSectors
  map := fun i => (disk ((headerAt disk FreeMapSector).dataSectors 0)).mem.word (4 * i)

/-- The map marks exactly the sectors that can be reached, each by one route. -/
structure Exact (disk : Disk) : Prop where
  marked : ∀ s, (storedMap disk).Marked s ↔ ∃ route, Reaches disk route s
  single : ∀ s route route', Reaches disk route s → Reaches disk route' s → route = route'

theorem Consistent.exact {layout : Layout} {disk : Disk} (consistent : Consistent layout disk) :
    Exact disk := by
  have stored : storedMap disk = diskMap disk := by
    unfold storedMap diskMap
    rw [FreeMapSector, consistent.map.slot]
    rfl
  have node : ∀ {path h isDir}, Walk (Child disk) (DirectorySector, true) path (h, isDir) →
      layout.Node (h, isDir) := fun walk => consistent.tree.walk_node walk
  refine ⟨fun s => ?_, fun s route route' => ?_⟩
  · rw [stored, consistent.partition.exactly]
    constructor
    · rintro ⟨⟨h, part⟩, head, owned⟩
      rcases head with zero | dir | file
      · dsimp only at zero
        subst zero
        exact ⟨.freeMap part, owned⟩
      · obtain ⟨path, walk⟩ := consistent.tree.exists_walk (show layout.Node (h, true) from dir)
        exact ⟨.entry path part, h, true, walk, owned⟩
      · obtain ⟨path, walk⟩ := consistent.tree.exists_walk (show layout.Node (h, false) from file)
        exact ⟨.entry path part, h, false, walk, owned⟩
    · rintro ⟨part | ⟨path, part⟩, reached⟩
      · exact ⟨(0, part), .inl rfl, reached⟩
      · obtain ⟨h, isDir, walk, owned⟩ := reached
        exact ⟨(h, part), Layout.head_of_node (node walk), owned⟩
  · -- both routes end in the same part of the same header
    have apart : ∀ {isDir}, ¬ layout.Node (0, isDir) := by
      intro isDir known
      cases isDir with
      | true => exact consistent.mapAlone.1 known
      | false => exact consistent.mapAlone.2 known
    rcases route with part | ⟨path, part⟩ <;> rcases route' with part' | ⟨path', part'⟩
    · intro first second
      have same := consistent.storage.single (0, part) (0, part') s ⟨.inl rfl, first⟩
        ⟨.inl rfl, second⟩
      rw [(Prod.mk.inj same).2]
    · rintro first ⟨h, isDir, walk, second⟩
      have same := consistent.storage.single (0, part) (h, part') s ⟨.inl rfl, first⟩
        ⟨Layout.head_of_node (node walk), second⟩
      obtain ⟨rfl, -⟩ := Prod.mk.inj same
      exact absurd (node walk) apart
    · rintro ⟨h, isDir, walk, first⟩ second
      have same := consistent.storage.single (h, part) (0, part') s
        ⟨Layout.head_of_node (node walk), first⟩ ⟨.inl rfl, second⟩
      obtain ⟨rfl, -⟩ := Prod.mk.inj same
      exact absurd (node walk) apart
    · rintro ⟨h, isDir, walk, first⟩ ⟨h', isDir', walk', second⟩
      have same := consistent.storage.single (h, part) (h', part') s
        ⟨Layout.head_of_node (node walk), first⟩ ⟨Layout.head_of_node (node walk'), second⟩
      obtain ⟨rfl, rfl⟩ := Prod.mk.inj same
      have kind : isDir = isDir' := by
        have known := node walk
        have known' := node walk'
        cases isDir <;> cases isDir'
        · rfl
        · exact absurd known (consistent.kinds h known')
        · exact absurd known' (consistent.kinds h known)
        · rfl
      subst kind
      rw [consistent.tree.walk_unique walk walk']

end Nachos
