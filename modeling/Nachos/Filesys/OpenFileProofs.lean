import Nachos.Filesys.FileHeaderProofs

/-! What reading and writing through an open file does to the sectors. All
facts are about blocks of the file as `ByteToSector` locates them; the layout
(direct slots or an indirect block) only enters where a block is located. -/
namespace Nachos.OpenFile
open Effects FileHeader

/-- `ByteToSector` reaches block `k` and the disk accepts its answer. -/
def Located (disk : Disk) (hdr : FileHeader) (k : Nat) : Prop :=
  k < 40 ∧ (8 ≤ k → ValidSector (hdr.dataSectors 8)) ∧ ValidSector (blockSector disk hdr k)

/-- The byte at an offset of the file. -/
def fileByte (disk : Disk) (hdr : FileHeader) (o : Nat) : UInt8 :=
  (disk (blockSector disk hdr (o / 128))).mem (o % 128)

variable {disk disk' : Disk} {vis : Counters} {fault : Fault → Prop} {hdr hdr' : FileHeader}
  {file : OpenFile}

theorem Located.direct {k : Nat} (small : k < 8) (valid : ValidSector (hdr.dataSectors k)) :
    Located disk hdr k :=
  ⟨by omega, by omega, by rw [blockSector_direct small]; exact valid⟩

theorem fileByte_congr {o : Nat} (place : blockSector disk' hdr' (o / 128) =
      blockSector disk hdr (o / 128))
    (content : disk' (blockSector disk hdr (o / 128)) = disk (blockSector disk hdr (o / 128))) :
    fileByte disk' hdr' o = fileByte disk hdr o := by
  unfold fileByte
  rw [place, content]

/-- Opening costs one read and counts the handle under the header's own number. -/
theorem ensures_new {post : OpenFile → Disk → Counters → Prop} {s : Int} (inRange : ValidSector s)
    (own : ValidSector (FileHeader.sectorNumber ⟨disk s⟩))
    (holds : post { hdr := ⟨disk s⟩, seekPosition := 0 } disk
      (Function.update vis (FileHeader.sectorNumber ⟨disk s⟩)
        (vis (FileHeader.sectorNumber ⟨disk s⟩) + 1))) :
    Ensures (OpenFile.new s) post fault disk vis := by
  apply ensures_bind
  apply ensures_bind
  refine ensures_ReadSector inRange ?_
  apply ensures_pure
  apply ensures_bind
  refine ensures_visNum own ?_
  apply ensures_bind
  refine ensures_setVisNum own ?_
  exact ensures_pure holds

theorem ensures_delete {post : Unit → Disk → Counters → Prop}
    (own : ValidSector file.hdr.sectorNumber)
    (holds : post () disk (Function.update vis file.hdr.sectorNumber
      (vis file.hdr.sectorNumber - 1))) :
    Ensures file.delete post fault disk vis := by
  apply ensures_bind
  refine ensures_visNum own ?_
  exact ensures_setVisNum own holds

theorem ensures_readSectors {post : Memory → Disk → Counters → Prop} {first count : Nat}
    {buf : Memory}
    (located : ∀ k, first ≤ k → k < first + count → Located disk hdr k)
    (holds : ∀ buf', (∀ x, x < count * 128 → buf' x = fileByte disk hdr (first * 128 + x)) →
      (∀ x, count * 128 ≤ x → buf' x = buf x) → post buf' disk vis) :
    Ensures (readSectors hdr first count buf) post fault disk vis := by
  refine ensures_post (ensures_loop (fun i buf' disk₁ vis₁ => disk₁ = disk ∧ vis₁ = vis ∧
    (∀ x, x < i * 128 → buf' x = fileByte disk hdr (first * 128 + x)) ∧
    ∀ x, i * 128 ≤ x → buf' x = buf x) ⟨rfl, rfl, by omega, fun _ _ => rfl⟩ ?_) ?_
  · rintro i buf' _ _ less ⟨rfl, rfl, filled, rest⟩
    obtain ⟨small, indirect, valid⟩ := located (first + i) (by omega) (by omega)
    apply ensures_bind
    refine ensures_ByteToSector (first + i) (by simp) small indirect ?_
    apply ensures_bind
    refine ensures_ReadSector valid ?_
    apply ensures_pure
    refine ⟨rfl, rfl, ?_, ?_⟩
    · intro x bound
      by_cases old : x < i * 128
      · rw [Memory.splice_outside (by simp only [SectorSize]; omega)]
        exact filled x old
      · rw [Memory.splice_inside (by simp only [SectorSize]; omega)
          (by simp only [SectorSize]; omega)]
        have block : (first * 128 + x) / 128 = first + i := by omega
        have inside : (first * 128 + x) % 128 = x - i * SectorSize := by
          simp only [SectorSize]
          omega
        rw [fileByte, block, inside]
    · intro x past
      rw [Memory.splice_outside (by simp only [SectorSize]; omega)]
      exact rest x (by omega)
  · rintro buf' _ _ ⟨rfl, rfl, filled, rest⟩
    exact holds buf' filled rest

theorem ensures_writeSectors {post : Unit → Disk → Counters → Prop} {first count : Nat}
    {buf : Memory}
    (located : ∀ k, first ≤ k → k < first + count → Located disk hdr k)
    (distinct : ∀ k k', first ≤ k → k < first + count → first ≤ k' → k' < first + count →
      blockSector disk hdr k = blockSector disk hdr k' → k = k')
    (apart : ∀ k, first ≤ k → k < first + count → 8 < first + count →
      blockSector disk hdr k ≠ hdr.dataSectors 8)
    (holds : ∀ disk',
      (∀ i, i < count →
        disk' (blockSector disk hdr (first + i)) = .of fun j => buf (i * 128 + j)) →
      (∀ s, (∀ k, first ≤ k → k < first + count → s ≠ blockSector disk hdr k) →
        disk' s = disk s) → post () disk' vis) :
    Ensures (writeSectors hdr first count buf) post fault disk vis := by
  refine ensures_post (ensures_loop (fun i _ disk₁ vis₁ => vis₁ = vis ∧
    (∀ j, j < i → disk₁ (blockSector disk hdr (first + j)) = .of fun x => buf (j * 128 + x)) ∧
    ∀ s, (∀ j, j < i → s ≠ blockSector disk hdr (first + j)) → disk₁ s = disk s)
    ⟨rfl, by omega, fun _ _ => rfl⟩ ?_) ?_
  · rintro i _ disk₁ _ less ⟨rfl, written, frame⟩
    obtain ⟨small, indirect, valid⟩ := located (first + i) (by omega) (by omega)
    have place : blockSector disk₁ hdr (first + i) = blockSector disk hdr (first + i) :=
      blockSector_congr (fun _ _ => rfl) fun far =>
        frame _ fun j before => (apart (first + j) (by omega) (by omega) (by omega)).symm
    apply ensures_bind
    refine ensures_ByteToSector (first + i) (by simp) small indirect ?_
    rw [place]
    refine ensures_WriteSector valid ⟨rfl, ?_, ?_⟩
    · intro j before
      by_cases last : j = i
      · subst last
        rw [Function.update_self]
        rfl
      · rw [Function.update_of_ne]
        · exact written j (by omega)
        · intro same
          have equal := distinct _ _ (by omega) (by omega) (by omega) (by omega) same
          omega
    · intro s other
      rw [Function.update_of_ne (other i (by omega))]
      exact frame s fun j before => other j (by omega)
  · rintro _ disk' _ ⟨rfl, written, frame⟩
    refine holds disk' written fun s other => frame s fun j before => other _ (by omega) (by omega)

theorem ensures_ReadAt_nothing {post : Int × Memory × OpenFile → Disk → Counters → Prop}
    {into : Memory} {numBytes position : Int}
    (nothing : numBytes ≤ 0 ∨ position > file.hdr.numBytes)
    (holds : post (0, into, file) disk vis) :
    Ensures (file.ReadAt into numBytes position) post fault disk vis := by
  have nothing : numBytes ≤ 0 ∨ position > file.hdr.FileLength := nothing
  unfold ReadAt
  dsimp only
  rw [if_pos nothing]
  exact ensures_pure holds

/-- A read whose end no `int` holds is undefined. -/
theorem ReadAt_overflow {into : Memory} {n pos len : Nat} (length : file.hdr.numBytes = len)
    (positive : 0 < n) (inside : pos ≤ len) (sum : ¬ pos + n < 2147483648) :
    file.ReadAt into n pos = undefinedBehaviour := by
  unfold ReadAt
  simp only [FileLength, length]
  rw [if_neg (by omega), if_pos (by omega)]

/-- Reading returns the bytes of the file and only touches the header's visit
time. A read at the end of an empty file still looks at slot 0. -/
theorem ensures_ReadAt {post : Int × Memory × OpenFile → Disk → Counters → Prop} {into : Memory}
    {n pos len : Nat} (length : file.hdr.numBytes = len) (positive : 0 < n) (inside : pos ≤ len)
    (sum : pos + n < 2147483648 ∨ fault .undefined) (own : ValidSector file.hdr.sectorNumber)
    (located : ∀ k, pos / 128 ≤ k → k * 128 < pos + min n (len - pos) → Located disk file.hdr k)
    (empty : len = 0 → fault .assertion ∨ ValidSector (file.hdr.dataSectors 0))
    (holds : ∀ hdr' into', SameBut .visit hdr' file.hdr →
      (∀ j, j < min n (len - pos) → into' j = fileByte disk file.hdr (pos + j)) →
      (∀ j, min n (len - pos) ≤ j → into' j = into j) →
      post ((min n (len - pos) : Nat), into', { file with hdr := hdr' })
        (Function.update disk file.hdr.sectorNumber hdr'.raw) vis) :
    Ensures (file.ReadAt into n pos) post fault disk vis := by
  by_cases sums : pos + n < 2147483648
  swap
  · rw [ReadAt_overflow length positive inside sums]
    exact ensures_stop (sum.resolve_left sums)
  generalize count : min n (len - pos) = m at *
  have trimmed : (if (pos : Int) + n > len then (len : Int) - pos else (n : Int)) = m := by
    split <;> omega
  unfold ReadAt
  simp only [FileLength, length]
  rw [if_neg (by omega), if_neg (by omega), trimmed]
  have first : divRoundDown (pos : Int) SectorSize = ((pos / 128 : Nat) : Int) :=
    divRoundDown_natCast pos
  rw [first]
  -- what is left once the sectors are in `buf`
  have finish : ∀ buf : Memory,
      (∀ j, j < m → buf ((pos - pos / 128 * 128) + j) = fileByte disk file.hdr (pos + j)) →
      Ensures (do
        let hdr ← file.hdr.SetTime .visit
        hdr.WriteBack hdr.sectorNumber
        return ((m : Int), into.splice 0 m (fun j => buf ((pos - pos / 128 * 128) + j)),
          ({ file with hdr := hdr } : OpenFile))) post fault disk vis := by
    intro buf copied
    apply ensures_bind
    apply ensures_SetTime
    intro stamped visited
    apply ensures_bind
    rw [visited.agrees.sectorNumber]
    refine ensures_WriteBack own ?_
    apply ensures_pure
    apply holds stamped _ visited
    · intro j less
      rw [Memory.splice_inside (by omega) (by omega), Nat.sub_zero]
      exact copied j less
    · intro j past
      exact Memory.splice_outside (by omega)
  have start : ((pos : Int) - ((pos / 128 : Nat) : Int) * (SectorSize : Nat)).toNat =
      pos - pos / 128 * 128 := by
    simp only [SectorSize]
    omega
  have amount : ((m : Nat) : Int).toNat = m := Int.toNat_natCast m
  apply ensures_bind
  apply ensures_uninitialized
  intro storage
  simp only [start, amount]
  by_cases none : len = 0
  · -- C division rounds -1 / 128 up to 0, so one sector is fetched for nothing
    have zeroPos : pos = 0 := by omega
    have zeroM : m = 0 := by omega
    have last : divRoundDown ((pos : Int) + m - 1) SectorSize = 0 := by
      rw [zeroPos, zeroM]
      rfl
    have one : (1 + (0 : Int) - ((pos / 128 : Nat) : Int)).toNat = 1 := by
      rw [zeroPos]
      rfl
    rw [last, one]
    apply ensures_bind
    rcases empty none with allowed | valid
    · by_cases valid : ValidSector (file.hdr.dataSectors 0)
      · refine ensures_readSectors (fun k low high => ?_) fun buf _ _ => finish buf (by omega)
        have zeroth : k = 0 := by omega
        subst zeroth
        exact Located.direct (by omega) valid
      · have stops : Ensures (readSectors file.hdr ((pos / 128 : Nat) : Int) 1 storage)
            (fun _ _ _ => False) fault disk vis := by
          apply ensures_bind
          apply ensures_pure
          apply ensures_bind
          refine ensures_ByteToSector 0 (by rw [zeroPos]; rfl) (by omega) (by omega) ?_
          rw [blockSector_direct (by omega)]
          apply ensures_bind
          exact ensures_ReadSector_or_assert allowed fun good => absurd good valid
        exact ensures_post stops fun _ _ _ impossible => impossible.elim
    · refine ensures_readSectors (fun k low high => ?_) fun buf _ _ => finish buf (by omega)
      have zeroth : k = 0 := by omega
      subst zeroth
      exact Located.direct (by omega) valid
  · have some : 0 < pos + m := by omega
    have last : divRoundDown ((pos : Int) + m - 1) SectorSize =
        (((pos + m - 1) / 128 : Nat) : Int) := by
      have whole : (pos : Int) + m - 1 = ((pos + m - 1 : Nat) : Int) := by omega
      rw [whole]
      exact divRoundDown_natCast _
    have sectors : (1 + (((pos + m - 1) / 128 : Nat) : Int) - ((pos / 128 : Nat) : Int)).toNat =
        1 + (pos + m - 1) / 128 - pos / 128 := by omega
    rw [last, sectors]
    apply ensures_bind
    refine ensures_readSectors (fun k low high => located k low (by omega)) fun buf filled _ => ?_
    apply finish
    intro j less
    rw [filled _ (by omega)]
    congr 1
    omega

/-- Whatever sectors the blocks lead to, a read only touches the header's visit
time, or fails the `ASSERT` of the disk. -/
theorem ensures_ReadAt_clock {post : Int × Memory × OpenFile → Disk → Counters → Prop}
    {into : Memory} {n pos len : Nat} (length : file.hdr.numBytes = len) (positive : 0 < n)
    (inside : pos ≤ len) (sum : pos + n < 2147483648 ∨ fault .undefined)
    (own : ValidSector file.hdr.sectorNumber) (fits : len ≤ 40 * 128)
    (indirect : 8 * 128 < len → ValidSector (file.hdr.dataSectors 8)) (allowed : fault .assertion)
    (holds : ∀ hdr' into', Agrees hdr' file.hdr →
      post ((min n (len - pos) : Nat), into', { file with hdr := hdr' })
        (Function.update disk file.hdr.sectorNumber hdr'.raw) vis) :
    Ensures (file.ReadAt into n pos) post fault disk vis := by
  by_cases sums : pos + n < 2147483648
  swap
  · rw [ReadAt_overflow length positive inside sums]
    exact ensures_stop (sum.resolve_left sums)
  generalize count : min n (len - pos) = m at *
  have trimmed : (if (pos : Int) + n > len then (len : Int) - pos else (n : Int)) = m := by
    split <;> omega
  unfold ReadAt
  simp only [FileLength, length]
  rw [if_neg (by omega), if_neg (by omega), trimmed]
  have first : divRoundDown (pos : Int) SectorSize = ((pos / 128 : Nat) : Int) :=
    divRoundDown_natCast pos
  rw [first]
  apply ensures_bind
  apply ensures_uninitialized
  intro storage
  apply ensures_bind
  have last : (1 + divRoundDown ((pos : Int) + m - 1) SectorSize - ((pos / 128 : Nat) : Int)).toNat ≤
      40 - pos / 128 ∧ (8 < pos / 128 + (1 + divRoundDown ((pos : Int) + m - 1) SectorSize -
        ((pos / 128 : Nat) : Int)).toNat → 8 * 128 < len) := by
    by_cases none : pos + m = 0
    · have zeroth : (pos : Int) + m - 1 = -1 := by omega
      have rounded : divRoundDown (-1 : Int) SectorSize = 0 := rfl
      rw [zeroth, rounded]
      omega
    · have whole : (pos : Int) + m - 1 = ((pos + m - 1 : Nat) : Int) := by omega
      have rounded : divRoundDown ((pos + m - 1 : Nat) : Int) SectorSize =
          (((pos + m - 1) / 128 : Nat) : Int) := divRoundDown_natCast _
      rw [whole, rounded]
      omega
  generalize (1 + divRoundDown ((pos : Int) + m - 1) SectorSize -
    ((pos / 128 : Nat) : Int)).toNat = sectors at last
  refine ensures_post (ensures_loop (fun _ _ disk₁ vis₁ => disk₁ = disk ∧ vis₁ = vis) ⟨rfl, rfl⟩
    ?_) ?_
  · rintro i buf _ _ less ⟨rfl, rfl⟩
    apply ensures_bind
    refine ensures_ByteToSector (pos / 128 + i) (by simp) (by omega) (fun far => ?_) ?_
    · exact indirect (last.2 (by omega))
    apply ensures_bind
    refine ensures_ReadSector_or_assert allowed fun _ => ?_
    exact ensures_pure ⟨rfl, rfl⟩
  · rintro buf _ _ ⟨rfl, rfl⟩
    apply ensures_bind
    apply ensures_SetTime
    intro stamped visited
    apply ensures_bind
    rw [visited.agrees.sectorNumber]
    refine ensures_WriteBack own ?_
    apply ensures_pure
    exact holds stamped _ visited.agrees

/-- What the blocks of a file of `len` bytes look like after `n` bytes were
written at `pos`, and what else stayed the same. -/
structure Wrote (disk disk' : Disk) (hdr hdr' : FileHeader) (source : Memory) (pos n len : Nat) :
    Prop where
  agrees : Agrees hdr' hdr
  header : disk' hdr.sectorNumber = hdr'.raw
  frame : ∀ s, s ≠ hdr.sectorNumber →
    (∀ k, pos / 128 ≤ k → k * 128 < pos + n → s ≠ blockSector disk hdr k) → disk' s = disk s
  written : ∀ o, pos ≤ o → o < pos + n →
    (disk' (blockSector disk hdr (o / 128))).mem (o % 128) = source (o - pos)
  kept : ∀ o, o < len → pos / 128 ≤ o / 128 → o / 128 * 128 < pos + n → o < pos ∨ pos + n ≤ o →
    (disk' (blockSector disk hdr (o / 128))).mem (o % 128) = fileByte disk hdr o

/-- The header sector and the indirect block are not among the blocks written,
and no two blocks share a sector. -/
structure Separate (disk : Disk) (hdr : FileHeader) (pos n : Nat) : Prop where
  located : ∀ k, pos / 128 ≤ k → k * 128 < pos + n → Located disk hdr k
  distinct : ∀ k k', pos / 128 ≤ k → k * 128 < pos + n → pos / 128 ≤ k' → k' * 128 < pos + n →
    blockSector disk hdr k = blockSector disk hdr k' → k = k'
  header : ∀ k, pos / 128 ≤ k → k * 128 < pos + n → blockSector disk hdr k ≠ hdr.sectorNumber
  indirect : 8 * 128 < pos + n → hdr.dataSectors 8 ≠ hdr.sectorNumber ∧
    ∀ k, pos / 128 ≤ k → k * 128 < pos + n → blockSector disk hdr k ≠ hdr.dataSectors 8

/-- Rewriting the clock texts of a header moves no block of its file. -/
theorem Separate.place {pos n : Nat} (separate : Separate disk hdr pos n)
    (agrees : Agrees hdr' hdr) (frame : ∀ s, s ≠ hdr.sectorNumber → disk' s = disk s) {k : Nat}
    (low : pos / 128 ≤ k) (high : k * 128 < pos + n) :
    blockSector disk' hdr' k = blockSector disk hdr k ∧
      disk' (blockSector disk hdr k) = disk (blockSector disk hdr k) :=
  ⟨blockSector_congr (fun _ bound => agrees.dataSectors bound) fun far =>
    frame _ (separate.indirect (by omega)).1, frame _ (separate.header k low high)⟩

/-- The file after one fetch: its header may have a new visit time, its other
sectors are untouched. -/
private def Refreshed (disk disk' : Disk) (file file' : OpenFile) : Prop :=
  Agrees file'.hdr file.hdr ∧ file'.seekPosition = file.seekPosition ∧
    ∀ s, s ≠ file.hdr.sectorNumber → disk' s = disk s

/-- Fetching a partly covered block before it is overwritten. -/
private theorem ensures_fetchPartial {post : Memory × OpenFile → Disk → Counters → Prop}
    {needed : Bool} {buf : Memory} {start k len : Nat} (length : file.hdr.numBytes = len)
    (inside : k * 128 < len) (own : ValidSector file.hdr.sectorNumber)
    (located : Located disk file.hdr k)
    (holds : ∀ buf' file' disk', Refreshed disk disk' file file' →
      (∀ x, x < start ∨ start + 128 ≤ x ∨ needed = false → buf' x = buf x) →
      (needed = true → ∀ j, j < 128 → k * 128 + j < len →
        buf' (start + j) = fileByte disk file.hdr (k * 128 + j)) →
      post (buf', file') disk' vis) :
    Ensures (file.fetchPartial needed buf start k) post fault disk vis := by
  unfold fetchPartial
  cases needed with
  | false =>
    rw [if_neg (by simp)]
    exact ensures_pure (holds buf file disk ⟨Agrees.refl _, rfl, fun _ _ => rfl⟩ (fun _ _ => rfl)
      (by simp))
  | true =>
    rw [if_pos rfl]
    have offset : (k : Int) * (SectorSize : Nat) = ((k * 128 : Nat) : Int) := by simp
    rw [offset]
    apply ensures_bind
    have within := located.1
    refine ensures_ReadAt (n := 128) length (by omega) (by omega) (.inl (by omega)) own ?_ (by omega) ?_
    · intro k' low high
      have same : k' = k := by omega
      rw [same]
      exact located
    · intro hdr' part visited copied _
      apply ensures_pure
      refine holds _ _ _ ⟨visited.agrees, rfl, fun s other => Function.update_of_ne other _ _⟩ ?_ ?_
      · intro x outside
        exact Memory.splice_outside (by simp at outside ⊢; omega)
      · intro _ j less within
        rw [Memory.splice_inside (by omega) (by simp only [SectorSize]; omega),
          Nat.add_sub_cancel_left]
        exact copied j (by omega)

theorem ensures_writeBlocks {post : Int × OpenFile → Disk → Counters → Prop} {source : Memory}
    {n pos len : Nat} (length : file.hdr.numBytes = len) (positive : 0 < n)
    (inside : pos + n ≤ len) (own : ValidSector file.hdr.sectorNumber)
    (separate : Separate disk file.hdr pos n)
    (holds : ∀ hdr' disk', Wrote disk disk' file.hdr hdr' source pos n len →
      post ((n : Int), { file with hdr := hdr' }) disk' vis) :
    Ensures (file.writeBlocks source n pos) post fault disk vis := by
  have first : divRoundDown (pos : Int) SectorSize = ((pos / 128 : Nat) : Int) :=
    divRoundDown_natCast pos
  have last : divRoundDown ((pos : Int) + n - 1) SectorSize =
      (((pos + n - 1) / 128 : Nat) : Int) := by
    have whole : (pos : Int) + n - 1 = ((pos + n - 1 : Nat) : Int) := by omega
    rw [whole]
    exact divRoundDown_natCast _
  unfold writeBlocks
  rw [first, last]
  generalize firstBlock : pos / 128 = f at *
  generalize lastBlock : (pos + n - 1) / 128 = l at *
  have sectors : (1 + (l : Int) - (f : Int)).toNat = l - f + 1 := by omega
  have startFirst : ((pos : Int) - (f : Int) * (SectorSize : Nat)).toNat = pos - f * 128 := by
    simp only [SectorSize]
    omega
  have startLast : (((l : Int) - (f : Int)) * (SectorSize : Nat)).toNat = (l - f) * 128 := by
    have split : ((l : Int) - (f : Int)) * ((128 : Nat) : Int) = (((l - f) * 128 : Nat) : Int) := by
      omega
    simp only [SectorSize]
    rw [split, Int.toNat_natCast]
  have firstAligned : ((pos : Int) == (f : Int) * (SectorSize : Nat)) = decide (pos = f * 128) := by
    simp only [SectorSize, Bool.beq_eq_decide_eq]
    congr 1
    simp only [eq_iff_iff]
    omega
  have lastAligned : ((pos : Int) + n == ((l : Int) + 1) * (SectorSize : Nat)) =
      decide (pos + n = (l + 1) * 128) := by
    simp only [SectorSize, Bool.beq_eq_decide_eq]
    congr 1
    simp only [eq_iff_iff]
    omega
  simp only [sectors, startFirst, startLast, firstAligned, lastAligned, Int.toNat_natCast]
  apply ensures_bind
  apply ensures_uninitialized
  intro storage
  apply ensures_bind
  refine ensures_fetchPartial length (by omega) own (separate.located f (by omega) (by omega)) ?_
  intro buf₁ file₁ disk₁ refreshed₁ same₁ fetched₁
  obtain ⟨agrees₁, seek₁, frame₁⟩ := refreshed₁
  have place₁ := fun k low high => separate.place (k := k) agrees₁ frame₁ low high
  have locate₁ : ∀ k, pos / 128 ≤ k → k * 128 < pos + n → Located disk₁ file₁.hdr k := by
    intro k low high
    obtain ⟨small, indirect, valid⟩ := separate.located k low high
    exact ⟨small, by rw [agrees₁.dataSectors (by omega)]; exact indirect,
      by rw [(place₁ k low high).1]; exact valid⟩
  apply ensures_bind
  refine ensures_fetchPartial (agrees₁.numBytes.trans length) (by omega)
    (by rw [agrees₁.sectorNumber]; exact own) (locate₁ l (by omega) (by omega)) ?_
  intro buf₂ file₂ disk₂ refreshed₂ same₂ fetched₂
  obtain ⟨agrees₂, seek₂, frame₂⟩ := refreshed₂
  replace agrees₂ := agrees₂.trans agrees₁
  replace seek₂ := seek₂.trans seek₁
  replace frame₂ : ∀ s, s ≠ file.hdr.sectorNumber → disk₂ s = disk s := fun s other =>
    (frame₂ s (by rw [agrees₁.sectorNumber]; exact other)).trans (frame₁ s other)
  -- every byte of the covered blocks that the write keeps is now in the buffer
  have fetched : ∀ x, x < (l - f + 1) * 128 → f * 128 + x < len →
      f * 128 + x < pos ∨ pos + n ≤ f * 128 + x →
      buf₂ x = fileByte disk file.hdr (f * 128 + x) := by
    intro x bound within outside
    by_cases tail : pos + n ≤ f * 128 + x ∧ (f ≠ l ∨ pos = f * 128)
    · have needed : (!decide (pos + n = (l + 1) * 128) &&
          (((f : Int) != (l : Int)) || decide (pos = f * 128))) = true := by
        simp only [Bool.and_eq_true, Bool.not_eq_true', decide_eq_false_iff_not, Bool.or_eq_true,
          bne_iff_ne, ne_eq, Nat.cast_inj, decide_eq_true_eq]
        omega
      have copied := fetched₂ needed (x - (l - f) * 128) (by omega) (by omega)
      have here : (l - f) * 128 + (x - (l - f) * 128) = x := by omega
      have there : l * 128 + (x - (l - f) * 128) = f * 128 + x := by omega
      rw [here, there] at copied
      rw [copied]
      have block : pos / 128 ≤ (f * 128 + x) / 128 ∧ (f * 128 + x) / 128 * 128 < pos + n := by omega
      obtain ⟨moved, content⟩ := place₁ _ block.1 block.2
      exact fileByte_congr moved content
    · have needed : (!decide (pos = f * 128)) = true := by
        simp only [Bool.not_eq_true', decide_eq_false_iff_not]
        omega
      have copied := fetched₁ needed x (by omega) within
      rw [Nat.zero_add] at copied
      rw [← copied]
      apply same₂
      by_cases one : f = l
      · refine .inr (.inr ?_)
        simp only [one, bne_self_eq_false, Bool.false_or, Bool.and_eq_false_iff,
          decide_eq_false_iff_not]
        exact .inr (by simpa [one] using needed)
      · exact .inl (by omega)
  have place₂ := fun k low high => separate.place (k := k) agrees₂ frame₂ low high
  apply ensures_bind
  refine ensures_writeSectors ?_ ?_ ?_ ?_
  · intro k low high
    obtain ⟨small, indirect, valid⟩ := separate.located k (by omega) (by omega)
    exact ⟨small, by rw [agrees₂.dataSectors (by omega)]; exact indirect,
      by rw [(place₂ k (by omega) (by omega)).1]; exact valid⟩
  · intro k k' low high low' high' same
    rw [(place₂ k (by omega) (by omega)).1, (place₂ k' (by omega) (by omega)).1] at same
    exact separate.distinct k k' (by omega) (by omega) (by omega) (by omega) same
  · intro k low high far
    rw [(place₂ k (by omega) (by omega)).1, agrees₂.dataSectors (by omega)]
    exact (separate.indirect (by omega)).2 k (by omega) (by omega)
  intro disk₃ stored frame₃
  apply ensures_bind
  apply ensures_SetTime
  intro stamped modified
  have agrees := modified.agrees
  apply ensures_bind
  have number : stamped.sectorNumber = file.hdr.sectorNumber :=
    agrees.sectorNumber.trans agrees₂.sectorNumber
  rw [number]
  refine ensures_WriteBack own ?_
  apply ensures_pure
  rw [seek₂]
  -- what a covered block holds at the end
  have final : ∀ o, f ≤ o / 128 → o / 128 * 128 < pos + n →
      (Function.update disk₃ file.hdr.sectorNumber stamped.raw
        (blockSector disk file.hdr (o / 128))).mem (o % 128) =
        buf₂.splice (pos - f * 128) n source (o - f * 128) := by
    intro o low high
    rw [Function.update_of_ne (separate.header _ (by omega) high)]
    have block := stored (o / 128 - f) (by omega)
    have position : f + (o / 128 - f) = o / 128 := by omega
    rw [position, (place₂ (o / 128) (by omega) high).1] at block
    rw [block, Block.mem_of (by simp only [SectorSize]; omega)]
    congr 1
    omega
  refine holds stamped _ ⟨agrees.trans agrees₂, Function.update_self _ _ _, ?_, ?_, ?_⟩
  · intro s other blocks
    rw [Function.update_of_ne other, frame₃ s, frame₂ s other]
    intro k low high
    rw [(place₂ k (by omega) (by omega)).1]
    exact blocks k (by omega) (by omega)
  · intro o low high
    rw [final o (by omega) (by omega), Memory.splice_inside (by omega) (by omega)]
    congr 1
    omega
  · intro o within low high outside
    rw [final o (by omega) high, Memory.splice_outside (by omega), fetched _ (by omega) (by omega)
      (by omega)]
    congr 1
    omega

end Nachos.OpenFile
