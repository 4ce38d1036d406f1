import Nachos.Filesys.StaleHeader

/-! What `Create(name, -1)` leaves on disk. The new directory is right when the
sector its header goes to held a header of the same table already; on a disk of
zeros it is not. -/
namespace Nachos
open Effects FileHeader

variable {layout : Layout} {disk disk' : Disk} {vis : Counters} {fs : FileSystem} {name : Name}

/-- Header `hs` and its table are those of a new directory below `p`, and the
free map has gained its four sectors. -/
structure NewDirectory (disk disk' : Disk) (p hs : Int) : Prop where
  header : Headed disk' hs 360
  table : Directory.Fresh (tableAt disk' hs) hs p
  taken : (diskMap disk).Takes (hs :: (headerAt disk' hs).slots 0 3) (diskMap disk')
  map : IsMapHeader (headerAt disk' FreeMapSector)

/-- If `Create` says it made the directory, it did: the parent's entry leads to
a new directory. -/
def MakesDirectory (disk : Disk) (name : Name) (result : Bool × FileSystem) (disk' : Disk) : Prop :=
  result.1 = true → ∃ p hs, p = (tableAt disk DirectorySector).lookup (FileSystem.splitPath name).1 ∧
    (tableAt disk' p).lookup (FileSystem.splitPath name).2 = hs ∧ NewDirectory disk disk' p hs

/-- Where the first free sector holds a header that can be reused, a directory
that was made is a directory. -/
theorem create_makes_directory (consistent : Consistent layout disk) (mounted : Mounted fs disk)
    (safe : SafePath disk name) (reusable : ReusableHeader disk) :
    Ensures (fs.Create name (-1)) (fun result disk' _ => MakesDirectory disk name result disk')
      (· = .assertion) disk vis := by
  refine ensures_Create_directory consistent.sheltered mounted safe reusable (fun _ => rfl)
    (fun _ _ _ _ _ wrong => absurd wrong (by simp)) ?_
  intro fs' disk' p hs i lookup _ created _ _
  have after := created.consistent consistent
  refine ⟨p, hs, lookup, ?_, created.headed, (created.table rfl).2, ?_, after.map⟩
  · unfold Directory.lookup
    rw [created.entryIndex_new consistent.sheltered]
    exact (created.new_entry consistent.sheltered).2.1
  · have taken := created.taken
    rwa [claimed_direct created.headed.sectors (by decide)] at taken

/-- A header of a table in sectors 7 to 9 that lives in sector 6. -/
def leftHeader : FileHeader :=
  (((((({ raw := fun _ => 0 } : FileHeader).setNumBytes 360).setNumSectors 3).setDataSectors 0 7).setDataSectors
    1 8).setDataSectors 2 9).setSectorNumber 6

/-- A new disk on which sector 6 still holds that header. -/
def usedMachine : SynchDisk :=
  { zeroMachine with disk := Function.update zeroMachine.disk 6 leftHeader.raw }

/-- Making a directory on that disk, after formatting it. -/
theorem create_makes_directory_again : ∃ layout disk fs, Consistent layout disk ∧
    Mounted fs disk ∧ SafePath disk nameA ∧ ReusableHeader disk ∧
    Ensures (fs.Create nameA (-1)) (fun result disk' _ => MakesDirectory disk nameA result disk')
      (· = .assertion) disk fun _ => 0 := by
  have blank : System.Blank usedMachine := ⟨fun _ => rfl, fun _ => rfl⟩
  obtain ⟨fs, booted, -, ⟨shape, mounted⟩, -⟩ := blank.formats
  have safe := shape.sheltered.safe_of_plain (show nameA.Plain by decide)
  have stale : headerAt booted.disk 6 = leftHeader := by
    unfold headerAt
    rw [shape.rest 6 (by omega)]
    rfl
  have reusable : ReusableHeader booted.disk := by
    intro hs freeMap b first taken run
    obtain rfl := shape.firstFree.unique first
    have marks : freeMap.Prefix 7 := ⟨taken.size, fun s => by
      rw [taken.exactly, shape.marked, List.mem_singleton]
      omega⟩
    obtain rfl := run.unique (marks.run (by omega) (by omega))
    rw [stale]
    refine ⟨by decide, by decide, by decide, by decide, fun _ => by decide, ?_⟩
    intro k bound
    interval_cases k <;> decide
  exact ⟨_, booted.disk, fs, shape.consistent, mounted, safe, reusable,
    create_makes_directory shape.consistent mounted safe reusable⟩

/-- On a new disk of zeros it is not: what should be the header's number of
sectors is its own sector number. -/
theorem create_breaks_directory :
    ¬ ∀ (layout : Layout) (disk : Disk) (vis : Counters) (fs : FileSystem) (name : Name),
      Consistent layout disk → Mounted fs disk → SafePath disk name →
      (tableAt disk DirectorySector).entryIndex (FileSystem.splitPath name).1 ≠ none →
      Ensures (fs.Create name (-1)) (fun result disk' _ => MakesDirectory disk name result disk')
        (· = .assertion) disk vis := by
  intro always
  obtain ⟨fs, booted, -, ⟨shape, mounted⟩, -⟩ := zeroMachine_blank.formats
  have split := splitPath_of_plain (show nameA.Plain by decide)
  obtain ⟨dotIndex, dotLookup⟩ := shape.sheltered.lookup_dot
  have claimed := always _ booted.disk booted.visNum fs nameA shape.consistent mounted
    (shape.sheltered.safe_of_plain (by decide)) (by
      change (tableAt booted.disk 1).entryIndex _ ≠ none
      rw [split, dotIndex]
      simp)
  have done : Ensures (fs.Create nameA (-1)) (fun result disk' _ => result.1 = true ∧ ∃ i,
      i < 10 ∧ Overwritten booted.disk disk' 1 6 i nameA 7) (fun _ => False) booted.disk
      booted.visNum :=
    ensures_mkdir_formatted shape mounted (by decide) (by decide) (by decide) rfl
      fun fs' disk' i bound overwritten => ⟨rfl, i, bound, overwritten⟩
  obtain ⟨result, disk', -, ⟨success, i, bound, overwritten⟩, makes⟩ := ensures_both done claimed
  obtain ⟨p, hs, lookup, leads, new⟩ := makes success
  have root : p = 1 := by
    rw [lookup, split]
    exact dotLookup
  have here : hs = 6 := by
    rw [← leads, root, split, Directory.lookup_congr overwritten.entry]
    exact Directory.lookup_entered (shape.absent (by decide) (by decide)) bound (by decide) (.inl rfl)
  have sectors := new.header.sectors
  rw [here, overwritten.numSectors] at sectors
  exact absurd sectors (by decide)

end Nachos
