import Nachos.Filesys.SessionProofs

/-! A write for which the disk has no room. `WriteAt` ignores the answer of
`Extend`, which has recorded the new length before it looked for space, and goes
on to write every block of the request: it never returns fewer bytes than it was
given. -/
namespace Nachos
open Effects FileHeader OpenFile

/-- `hdr'` describes no sector that `hdr` does not. -/
structure OwnedOnly (hdr hdr' : FileHeader) : Prop where
  sectors : hdr'.numSectors ≤ hdr.numSectors
  length : hdr'.numBytes ≤ hdr.numSectors * SectorSize
  slots : ∀ k : Nat, (k : Int) < hdr'.numSectors → hdr'.dataSectors k = hdr.dataSectors k

/-- What a write of `n` bytes to the file with header `h` owes its caller when
there is no room for it: fewer bytes are reported, the handle and the disk still
describe the sectors the file has, the free map is as it was, and nothing but
the file's own sectors and the clock texts of headers was written. -/
structure CleanlyRefused (disk disk' : Disk) (h : Int) (n : Int) (result : Int × OpenFile) : Prop where
  fewer : result.1 < n
  handle : OwnedOnly (headerAt disk h) result.2.hdr
  stored : OwnedOnly (headerAt disk h) (headerAt disk' h)
  map : BitMap.Same (diskMap disk') (diskMap disk)
  frame : ∀ s, s ∉ (headerAt disk h).slots 0 (headerAt disk h).numSectors.toNat →
    disk' s = disk s ∨ Agrees (headerAt disk' s) (headerAt disk s)

variable {disk : Disk} {vis : Counters} {file : OpenFile} {source : Memory} {n pos : Int}

/-- Code of which nothing is known but that it may stop. -/
private theorem ensures_unknown {A B : Type} {program : Kernel A} {next : A → Kernel B}
    {post : B → Disk → Counters → Prop}
    (rest : ∀ value disk vis, Ensures (next value) post (fun _ => True) disk vis) :
    Ensures (program >>= next) post (fun _ => True) disk vis :=
  ensures_bind (ensures_any (fun _ => trivial) rest)

/-- Whatever the blocks of the file turn out to be, the whole count is reported. -/
private theorem ensures_writeBlocks_all {post : Int × OpenFile → Disk → Counters → Prop}
    (holds : ∀ file' disk' vis', post (n, file') disk' vis') :
    Ensures (writeBlocks file source n pos) post (fun _ => True) disk vis := by
  unfold writeBlocks
  refine ensures_unknown fun buf disk vis => ?_
  refine ensures_unknown fun first disk vis => ?_
  refine ensures_unknown fun last disk vis => ?_
  refine ensures_unknown fun _ disk vis => ?_
  refine ensures_unknown fun hdr disk vis => ?_
  refine ensures_unknown fun _ disk vis => ?_
  exact ensures_pure (holds _ disk vis)

/-- A write that starts inside the file reports all its bytes if it returns. -/
theorem ensures_WriteAt_all {post : Int × OpenFile → Disk → Counters → Prop} (positive : 0 < n)
    (reached : pos ≤ file.hdr.numBytes) (holds : ∀ file' disk' vis', post (n, file') disk' vis') :
    Ensures (file.WriteAt source n pos) post (fun _ => True) disk vis := by
  have length : file.hdr.FileLength = file.hdr.numBytes := rfl
  unfold WriteAt writeDepth writeAt
  dsimp only
  rw [if_neg (by omega)]
  split
  · exact ensures_stop trivial
  · split
    · refine ensures_unknown fun freeMapFile disk vis => ?_
      refine ensures_unknown fun freeMap disk vis => ?_
      refine ensures_unknown fun fetched disk vis => ?_
      refine ensures_unknown fun extended disk vis => ?_
      refine ensures_unknown fun _ disk vis => ?_
      refine ensures_unknown fun written disk vis => ?_
      refine ensures_unknown fun _ disk vis => ?_
      exact ensures_writeBlocks_all holds
    · exact ensures_writeBlocks_all holds

private theorem divRoundUp_eq (n : Int) : divRoundUp n SectorSize = (n + 127) / 128 := by
  simp only [SectorSize, Nat.cast_ofNat]
  unfold divRoundUp
  rw [Int.tdiv_eq_ediv, Int.tmod_eq_emod]
  simp only [Int.sign]
  split <;> split <;> omega

/-- A write that does not fit reaches past the end of the file. -/
private theorem positive_of_short {free len : Int} (some : 0 ≤ free) (reached : pos ≤ len)
    (short : free < divRoundUp (pos + n) SectorSize - divRoundUp len SectorSize) : 0 < n := by
  rw [divRoundUp_eq, divRoundUp_eq] at short
  omega

private theorem not_refused {h : Int} (positive : 0 < n) (reached : pos ≤ file.hdr.numBytes) :
    ¬ Ensures (file.WriteAt source n pos) (fun result disk' _ => CleanlyRefused disk disk' h n result)
      (fun _ => False) disk vis := by
  intro refused
  have reports : Ensures (file.WriteAt source n pos) (fun result _ _ => result.1 = n)
      (fun _ => True) disk vis := ensures_WriteAt_all positive reached fun _ _ _ => rfl
  obtain ⟨result, disk', -, clean, all⟩ := ensures_both refused reports
  have fewer := clean.fewer
  omega

/-- No write that needs more sectors than are clear is refused: not on any disk,
nor through any handle. -/
theorem write_without_space_never_refused {h : Int} (reached : pos ≤ file.hdr.numBytes)
    (short : (diskMap disk).freeCount < divRoundUp (pos + n) SectorSize -
      divRoundUp file.hdr.numBytes SectorSize) :
    ¬ Ensures (file.WriteAt source n pos) (fun result disk' _ => CleanlyRefused disk disk' h n result)
      (fun _ => False) disk vis :=
  not_refused (positive_of_short (Int.natCast_nonneg _) reached short) reached

/-- A disk with one file of two hundred bytes, and a handle on it. -/
private theorem small_file : ∃ layout disk file,
    Consistent layout disk ∧ (6 : Int) ∈ layout.files ∧ Headed disk 6 200 ∧ Current disk file 6 ∧
      file.hdr.numBytes = 200 := by
  obtain ⟨before, disk, i, shape, created, -⟩ := zeroMachine_file (show sectorsFor 200 ≤ 8 by decide)
  exact ⟨_, disk, { hdr := headerAt disk 6, seekPosition := 0 }, created.consistent shape.consistent,
    .inl rfl, created.headed, Agrees.refl _, created.headed.length⟩

/-- 140000 more bytes need 1094 sectors. -/
private theorem too_long (disk : Disk) : ((diskMap disk).freeCount : Int) <
    divRoundUp (200 + 140000) SectorSize - divRoundUp 200 SectorSize := by
  have most : (diskMap disk).freeCount ≤ 1024 := by
    have bound := Finset.card_filter_le (Finset.range (diskMap disk).numBits)
      fun i => (diskMap disk).bit i = false
    rw [Finset.card_range] at bound
    exact bound
  rw [divRoundUp_eq, divRoundUp_eq]
  omega

theorem write_without_space_never_refused_small : ∃ layout disk file,
    Consistent layout disk ∧ (6 : Int) ∈ layout.files ∧ Headed disk 6 200 ∧ Current disk file 6 ∧
      ¬ Ensures (file.WriteAt (fun _ => 7) 140000 200)
        (fun result disk' _ => CleanlyRefused disk disk' 6 140000 result) (fun _ => False) disk
        fun _ => 0 := by
  obtain ⟨layout, disk, file, consistent, known, headed, current, length⟩ := small_file
  have short := too_long disk
  rw [← length] at short
  refine ⟨layout, disk, file, consistent, known, headed, current, ?_⟩
  rw [← length]
  exact write_without_space_never_refused le_rfl short

/-- The same file, as an input on which the promise is broken. -/
theorem write_without_space_overcommits : ∃ layout disk file,
    Consistent layout disk ∧ (6 : Int) ∈ layout.files ∧ Headed disk 6 200 ∧ Current disk file 6 ∧
      ((diskMap disk).freeCount : Int) < divRoundUp (200 + 140000) SectorSize -
        divRoundUp file.hdr.numBytes SectorSize ∧
      ¬ Ensures (file.WriteAt (fun _ => 7) 140000 200)
        (fun result disk' _ => CleanlyRefused disk disk' 6 140000 result) (fun _ => False) disk
        fun _ => 0 := by
  obtain ⟨layout, disk, file, consistent, known, headed, current, length⟩ := small_file
  refine ⟨layout, disk, file, consistent, known, headed, current, ?_, ?_⟩
  · rw [length]
    exact too_long disk
  · exact not_refused (by omega) (by omega)

end Nachos
