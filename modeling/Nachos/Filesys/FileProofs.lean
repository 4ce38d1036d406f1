import Nachos.Filesys.FileSystemProofs
import Nachos.Filesys.DirectFile

/-! Reading and writing one file of a consistent disk through a handle whose
header copy is current. A write is `Grew`; every other file keeps its bytes. -/
namespace Nachos
open Effects FileHeader OpenFile

variable {layout scope : Layout} {disk disk' : Disk} {vis : Counters} {fault : Fault → Prop}
  {file : OpenFile} {h q : Int} {len n pos : Nat} {source : Memory}

/-- The indirect entries of the blocks `first .. last - 1` fit in seven bits. -/
def SmallBetween (disk : Disk) (h : Int) (first last : Nat) : Prop :=
  ∀ k, 8 ≤ k → first ≤ k → k < last → dataSector disk (headerAt disk h) k < 128

theorem Sheltered.file_apart (sheltered : Sheltered layout disk) (known : h ∈ layout.files) :
    h ≠ 0 ∧ h ≠ 2 := by
  constructor
  · rintro rfl
    exact sheltered.mapAlone.2 known
  · rintro rfl
    exact sheltered.two_not_head (.inr (.inr known))

theorem Headed.data (headed : Headed disk h len) {k : Nat} (bound : k < sectorsFor len) :
    HasPart disk h (.data k) (dataSector disk (headerAt disk h) k) := by
  refine ⟨?_, rfl⟩
  rw [headed.sectors]
  exact_mod_cast bound

/-- A file of a consistent disk owns its blocks. -/
theorem Sheltered.owned (sheltered : Sheltered layout disk) (known : h ∈ layout.files)
    (headed : Headed disk h len) (current : Current disk file h) {first last : Nat}
    (inside : last ≤ sectorsFor len) (small : SmallBetween disk h first last) :
    Owned disk file.hdr (sectorsFor len) first last := by
  have head : layout.Head h := .inr (.inr known)
  have number := sheltered.number head current
  obtain ⟨notMap, notTwo⟩ := sheltered.file_apart known
  have slots : ∀ i, i < 9 → file.hdr.dataSectors i = (headerAt disk h).dataSectors i :=
    fun i bound => current.dataSectors bound
  have marked : ∀ part s, HasPart disk h part s → (diskMap disk).Marked s := fun part s here =>
    sheltered.storage.marked_of_owns (k := (h, part)) ⟨head, here⟩
  have place : ∀ k, first ≤ k → k < last →
      blockSector disk file.hdr k = dataSector disk (headerAt disk h) k := by
    intro k low high
    rw [blockSector_congr slots fun _ => rfl]
    refine blockSector_eq_dataSector fun far => ⟨?_, small k far low high⟩
    exact (marked _ _ (headed.data (by omega))).1
  have apart : ∀ part s, HasPart disk h part s → part ≠ .header → s ≠ h ∧ s ≠ 0 ∧ s ≠ 2 := by
    intro part s owned other
    have notHead := sheltered.not_head head owned other
    refine ⟨fun own => ?_, fun zero => notHead (.inl zero),
      sheltered.ne_two head owned (.inl notMap)⟩
    rw [own] at notHead
    exact notHead head
  have large : 8 < sectorsFor len → HasPart disk h .indirect ((headerAt disk h).dataSectors 8) := by
    intro far
    refine ⟨?_, rfl⟩
    rw [headed.sectors]
    omega
  refine ⟨?_, ?_, ?_, ?_, ?_, ?_⟩
  · rw [number]
    exact ⟨sheltered.head_marked head, notMap, notTwo⟩
  · intro k low high
    obtain ⟨lower, upper, -⟩ := marked _ _ (headed.data (show k < sectorsFor len by omega))
    refine ⟨by have fits := headed.fits; omega, fun far => ?_, ?_⟩
    · obtain ⟨lower', upper', -⟩ := marked _ _ (large (by omega))
      rw [slots 8 (by omega)]
      exact ⟨lower', upper'⟩
    · rw [place k low high]
      exact ⟨lower, upper⟩
  · intro k low high
    rw [place k low high]
    exact marked _ _ (headed.data (by omega))
  · intro k low high
    rw [place k low high, number]
    exact apart _ _ (headed.data (by omega)) (by simp)
  · intro k k' low high low' high' same
    rw [place k low high, place k' low' high'] at same
    have owned := headed.data (show k < sectorsFor len by omega)
    rw [same] at owned
    have equal := sheltered.storage.single (h, .data k) (h, .data k') _ ⟨head, owned⟩
      ⟨head, headed.data (by omega)⟩
    simpa using congrArg Prod.snd equal
  · intro far
    have owned := large far
    rw [slots 8 (by omega), number]
    refine ⟨apart _ _ owned (by simp), fun k low high same => ?_⟩
    rw [place k low high] at same
    rw [← same] at owned
    have equal := sheltered.storage.single (h, .data k) (h, .indirect) _
      ⟨head, headed.data (by omega)⟩ ⟨head, owned⟩
    simpa using congrArg Prod.snd equal

/-- A block a write covers was the file's already, or was nobody's. -/
theorem OpenFile.Written.block_cases {hdr' : FileHeader}
    (written : Written disk disk' file.hdr hdr' source pos n len)
    (sheltered : Sheltered layout disk) (known : h ∈ layout.files)
    (headed : Headed disk h len) (current : Current disk file h)
    (room : sectorsFor (pos + n) ≤ 8 ∨ sectorsFor (pos + n) ≤ sectorsFor len)
    (small : SmallBetween disk h (pos / 128) (min (sectorsFor len) (sectorsFor (pos + n))))
    {k : Nat} (low : pos / 128 ≤ k) (high : k * 128 < pos + n) :
    (k < sectorsFor len ∧ blockSector disk' hdr' k = dataSector disk (headerAt disk h) k) ∨
    (sectorsFor len ≤ k ∧ ¬ (diskMap disk).Marked (blockSector disk' hdr' k)) := by
  have total : sectorsFor (max len (pos + n)) = max (sectorsFor len) (sectorsFor (pos + n)) := by
    unfold sectorsFor
    omega
  have touched : k < sectorsFor (pos + n) := lt_sectorsFor_iff.mpr high
  have slots : ∀ i, i < 9 → file.hdr.dataSectors i = (headerAt disk h).dataSectors i :=
    fun i bound => current.dataSectors bound
  by_cases old : k < sectorsFor len
  · refine .inl ⟨old, ?_⟩
    have same : blockSector disk' hdr' k = blockSector disk file.hdr k := by
      unfold blockSector
      split
      · exact written.slots k (by omega) (.inl old)
      · rw [written.slots 8 (by omega) (.inl (by omega)), written.indirect (by omega)]
    rw [same, blockSector_congr slots fun _ => rfl]
    refine blockSector_eq_dataSector fun far => ⟨?_, small k far low (by omega)⟩
    exact (sheltered.storage.marked_of_owns (k := (h, .data k))
      ⟨.inr (.inr known), headed.data old⟩).1
  · refine .inr ⟨by omega, ?_⟩
    rw [blockSector_direct (by omega)]
    refine (written.taken.fresh _ (mem_slots.mpr ⟨k - sectorsFor len, by omega, ?_⟩)).2.2
    congr 1
    omega

/-- The effect of `WriteAt` on the layout. -/
theorem OpenFile.Written.grew {hdr' : FileHeader}
    (written : Written disk disk' file.hdr hdr' source pos n len)
    (sheltered : Sheltered layout disk) (known : h ∈ layout.files) (near : h ∈ scope.files)
    (headed : Headed disk h len) (current : Current disk file h)
    (room : sectorsFor (pos + n) ≤ 8 ∨ sectorsFor (pos + n) ≤ sectorsFor len)
    (small : SmallBetween disk h (pos / 128) (min (sectorsFor len) (sectorsFor (pos + n)))) :
    Grew scope disk disk' h len (max len (pos + n)) := by
  have head : layout.Head h := .inr (.inr known)
  have number := sheltered.number head current
  have total : sectorsFor (max len (pos + n)) = max (sectorsFor len) (sectorsFor (pos + n)) := by
    unfold sectorsFor
    omega
  have fits := headed.fits
  have stored : headerAt disk' h = hdr' := by
    unfold headerAt
    rw [← number, written.header]
  have slots : ∀ i, i < 9 → file.hdr.dataSectors i = (headerAt disk h).dataSectors i :=
    fun i bound => current.dataSectors bound
  have untouched : ∀ s, (diskMap disk).Marked s →
      (∀ k, k < sectorsFor len → s ≠ dataSector disk (headerAt disk h) k) →
      ∀ k, pos / 128 ≤ k → k * 128 < pos + n → s ≠ blockSector disk' hdr' k := by
    intro s marked blocks k low high
    rcases written.block_cases sheltered known headed current room small low high with
      ⟨old, place⟩ | ⟨-, clear⟩
    · rw [place]
      exact blocks k old
    · exact fun same => clear (same ▸ marked)
  refine ⟨near, headed, ⟨?_, ?_, ?_, ?_⟩, ?_, ?_, ?_, ?_, ?_, ?_, ?_⟩
  · rw [stored]
    exact written.length
  · rw [stored]
    exact written.sectors
  · rw [stored]
    exact written.number.trans number
  · rw [total]
    omega
  · rw [total]
    exact Nat.le_max_left _ _
  · rw [total]
    omega
  · intro i bound apart
    rw [stored, written.slots i bound apart, slots i bound]
  · rw [stored]
    exact written.taken
  · intro large
    rw [← slots 8 (by omega)]
    exact written.indirect (by omega)
  · intro q headQ unchanged
    push Not at unchanged
    obtain ⟨notOwn, notTwo, marked, blocks⟩ := unchanged
    by_cases map : q = 0
    · subst map
      exact written.map
    · rw [headerAt_congr (written.frame q (by rw [number]; exact notOwn) map notTwo
        (untouched q marked blocks))]
      exact Agrees.refl _
  · intro s free unchanged
    push Not at unchanged
    obtain ⟨notOwn, notTwo, marked, blocks⟩ := unchanged
    exact written.frame s (by rw [number]; exact notOwn) (fun zero => free (.inl zero)) notTwo
      (untouched s marked blocks)

/-! ## Handles -/

/-- `WriteAt` through a current handle, when the blocks it covers can be
located and the growth has room. -/
theorem ensures_WriteAt_file {post : Int × OpenFile → Disk → Counters → Prop}
    (sheltered : Sheltered layout disk) (known : h ∈ layout.files) (near : h ∈ scope.files)
    (headed : Headed disk h len) (current : Current disk file h) (positive : 0 < n)
    (reached : pos ≤ len)
    (room : sectorsFor (pos + n) ≤ 8 ∨ sectorsFor (pos + n) ≤ sectorsFor len)
    (enough : sectorsFor (pos + n) - sectorsFor len ≤ (diskMap disk).freeCount)
    (small : SmallBetween disk h (pos / 128) (min (sectorsFor len) (sectorsFor (pos + n))))
    (holds : ∀ file' disk', Written disk disk' file.hdr file'.hdr source pos n len →
      Grew scope disk disk' h len (max len (pos + n)) → Current disk' file' h →
      file'.seekPosition = file.seekPosition → post ((n : Int), file') disk' vis) :
    Ensures (file.WriteAt source n pos) post fault disk vis := by
  have fits := headed.fits
  have bound : pos + n < 2147483648 := by
    unfold sectorsFor at room fits
    omega
  have number := sheltered.number (.inr (.inr known)) current
  refine ensures_writeAt (current.numBytes.trans headed.length)
    (current.numSectors.trans headed.sectors) positive reached bound room sheltered.map
    ⟨sheltered.head_marked (.inl rfl), sheltered.part_marked (.inl rfl) sheltered.map_data⟩ enough
    (sheltered.owned known headed current (Nat.min_le_left _ _) small) ?_
  intro hdr' disk' written
  refine holds _ disk' written (written.grew sheltered known near headed current room small) ?_ rfl
  unfold Current headerAt
  rw [← number, written.header]
  exact Agrees.refl _

/-- Any read through a current handle changes clock texts only, or fails an
`ASSERT`. -/
theorem ensures_ReadAt_head {post : Int × Memory × OpenFile → Disk → Counters → Prop}
    {into : Memory} (sheltered : Sheltered layout disk) (known : layout.Head h)
    (near : scope.Head h) (headed : Headed disk h len) (current : Current disk file h)
    (positive : 0 < n) (reached : pos ≤ len) (sum : pos + n < 2147483648 ∨ fault .undefined)
    (allowed : fault .assertion)
    (holds : ∀ file' into' disk', Quiet scope disk disk' → Current disk' file' h →
      file'.seekPosition = file.seekPosition →
      post ((min n (len - pos) : Nat), into', file') disk' vis) :
    Ensures (file.ReadAt into n pos) post fault disk vis := by
  have number := sheltered.number known current
  refine ensures_ReadAt_clock (current.numBytes.trans headed.length) positive reached sum
    (by rw [number]; exact sheltered.valid_head known) (sectorsFor_le_iff.mp headed.fits) ?_
    allowed ?_
  · intro far
    rw [current.dataSectors (by omega)]
    obtain ⟨low, high, -⟩ := sheltered.storage.marked_of_owns (k := (h, .indirect)) ⟨known,
      show 9 ≤ (headerAt disk h).numSectors by
        have large : 8 < sectorsFor len := lt_sectorsFor_iff.mpr far
        rw [headed.sectors]
        omega, rfl⟩
    exact ⟨low, high⟩
  · intro hdr' into' agrees
    rw [number]
    refine holds _ into' _ (Frame.clock near (agrees.trans current) _) ?_ rfl
    unfold Current headerAt
    rw [Function.update_self]
    exact Agrees.refl _

/-! ## Contents of files whose blocks can be located -/

theorem SmallBetween.of_direct (direct : sectorsFor len ≤ 8) : SmallBetween disk h 0 (sectorsFor len) :=
  fun _ far _ high => by omega

theorem SmallBetween.mono {first last first' last' : Nat} (small : SmallBetween disk h first last)
    (lower : first ≤ first') (upper : last' ≤ last) : SmallBetween disk h first' last' :=
  fun k far low high => small k far (by omega) (by omega)

/-- The entries stay small as long as the file keeps its data sectors. -/
theorem SmallBetween.kept {first last : Nat} (small : SmallBetween disk h first last)
    (headed : Headed disk' h len) (inside : last ≤ sectorsFor len)
    (same : ∀ k s, HasPart disk' h (.data k) s → HasPart disk h (.data k) s) :
    SmallBetween disk' h first last := by
  intro k far low high
  rw [(same k _ (headed.data (by omega))).2]
  exact small k far low high

/-- Where the entries of the indirect block are small, `ByteToSector` finds every block. -/
theorem Sheltered.block_place (sheltered : Sheltered layout disk) (known : layout.Head h)
    (headed : Headed disk h len) (small : SmallBetween disk h 0 (sectorsFor len)) {k : Nat}
    (bound : k < sectorsFor len) :
    blockSector disk (headerAt disk h) k = dataSector disk (headerAt disk h) k := by
  have marked := sheltered.part_marked known (headed.data bound)
  exact blockSector_eq_dataSector fun far => ⟨marked.1, small k far (Nat.zero_le k) bound⟩

/-- A read returns the bytes of the file. A read at the end of an empty
file may fail an `ASSERT`, because it still looks at slot 0. -/
theorem ensures_ReadAt_file {post : Int × Memory × OpenFile → Disk → Counters → Prop}
    {into : Memory} (sheltered : Sheltered layout disk) (known : h ∈ layout.files)
    (near : scope.Head h) (headed : Headed disk h len) (current : Current disk file h)
    (small : SmallBetween disk h 0 (sectorsFor len)) (positive : 0 < n) (reached : pos ≤ len)
    (sum : pos + n < 2147483648 ∨ fault .undefined) (allowed : len = 0 → fault .assertion)
    (holds : ∀ file' into' disk', Quiet scope disk disk' → Current disk' file' h →
      file'.seekPosition = file.seekPosition →
      (∀ j, j < min n (len - pos) → into' j = fileByte disk (headerAt disk h) (pos + j)) →
      (∀ j, min n (len - pos) ≤ j → into' j = into j) →
      post ((min n (len - pos) : Nat), into', file') disk' vis) :
    Ensures (file.ReadAt into n pos) post fault disk vis := by
  have head : layout.Head h := .inr (.inr known)
  have number := sheltered.number head current
  have owned := sheltered.owned known headed current le_rfl small
  refine ensures_ReadAt (current.numBytes.trans headed.length) positive reached sum
    (by rw [number]; exact sheltered.valid_head head) ?_ (fun empty => .inl (allowed empty)) ?_
  · intro k _ high
    exact owned.located k (Nat.zero_le k) (lt_sectorsFor_iff.mpr (by omega))
  · intro hdr' into' visited copied kept
    rw [number]
    refine holds _ into' _ (Frame.clock near (visited.agrees.trans current) _) ?_ rfl (fun j less => ?_) kept
    · unfold Current headerAt
      rw [Function.update_self]
      exact Agrees.refl _
    · rw [copied j less]
      unfold fileByte
      rw [blockSector_congr (fun i bound => current.dataSectors bound) fun _ => rfl]

/-- A read through a current handle. Of the bytes nothing is said but for a file
without an indirect block. -/
theorem ensures_ReadAt_current {post : Int × Memory × OpenFile → Disk → Counters → Prop}
    {into : Memory} (sheltered : Sheltered layout disk) (known : layout.Head h)
    (near : scope.Head h) (headed : Headed disk h len) (current : Current disk file h)
    (positive : 0 < n) (reached : pos ≤ len) (sum : pos + n < 2147483648 ∨ fault .undefined)
    (allowed : ¬ (h ∈ layout.files ∧ sectorsFor len ≤ 8 ∧ 0 < len) → fault .assertion)
    (holds : ∀ file' into' disk', Quiet scope disk disk' → Current disk' file' h →
      file'.seekPosition = file.seekPosition →
      (h ∈ layout.files → sectorsFor len ≤ 8 →
        ∀ j, j < min n (len - pos) → into' j = fileByte disk (headerAt disk h) (pos + j)) →
      post ((min n (len - pos) : Nat), into', file') disk' vis) :
    Ensures (file.ReadAt into n pos) post fault disk vis := by
  by_cases direct : h ∈ layout.files ∧ sectorsFor len ≤ 8
  · refine ensures_ReadAt_file sheltered direct.1 near headed current (.of_direct direct.2) positive reached
      sum (fun empty => allowed fun all => by omega) ?_
    intro file' into' disk' quiet current' position copied _
    exact holds file' into' disk' quiet current' position fun _ _ => copied
  · refine ensures_ReadAt_head sheltered known near headed current positive reached sum
      (allowed fun all => direct ⟨all.1, all.2.1⟩) ?_
    intro file' into' disk' quiet current' position
    exact holds file' into' disk' quiet current' position fun regular small =>
      absurd ⟨regular, small⟩ direct

/-- The bytes of a file outside the changed sectors stay. -/
theorem Frame.byte {changed : Int → Prop} (frame : Frame layout disk disk' changed)
    (sheltered : Sheltered layout disk) (known : layout.Head q) (headed : Headed disk q len)
    (small : SmallBetween disk q 0 (sectorsFor len))
    (same : ∀ part s, HasPart disk q part s → ¬ changed s) {o : Nat} (inside : o < len) :
    fileByte disk' (headerAt disk' q) o = fileByte disk (headerAt disk q) o := by
  have block : o / 128 < sectorsFor len := lt_sectorsFor_iff.mpr (by omega)
  have owned := headed.data block
  have keeps : ∀ {part : Part} {s : Int}, HasPart disk' q part s ↔ HasPart disk q part s :=
    frame.hasPart_iff sheltered known (same .header q rfl) fun large => same .indirect _ ⟨large, rfl⟩
  have marked := sheltered.part_marked known owned
  have moved : dataSector disk' (headerAt disk' q) (o / 128) = dataSector disk (headerAt disk q) (o / 128) :=
    (keeps.mpr owned).2.symm
  have place := sheltered.block_place known headed small block
  apply fileByte_congr
  · rw [place, ← moved]
    refine blockSector_eq_dataSector fun far => ?_
    rw [moved]
    exact ⟨marked.1, small _ far (Nat.zero_le _) block⟩
  · rw [place]
    exact frame.others _ (sheltered.not_head known owned (by simp)) (same _ _ owned)

theorem Quiet.byte (quiet : Quiet layout disk disk') (sheltered : Sheltered layout disk)
    (known : layout.Head q) (headed : Headed disk q len)
    (small : SmallBetween disk q 0 (sectorsFor len)) {o : Nat} (inside : o < len) :
    fileByte disk' (headerAt disk' q) o = fileByte disk (headerAt disk q) o :=
  Frame.byte quiet sheltered known headed small (fun _ _ _ => id) inside

theorem Edited.byte {p : Int} (edited : Edited layout disk disk' p)
    (sheltered : Sheltered layout disk) (known : q ∈ layout.files) (headed : Headed disk q len)
    (small : SmallBetween disk q 0 (sectorsFor len)) {o : Nat} (inside : o < len) :
    fileByte disk' (headerAt disk' q) o = fileByte disk (headerAt disk q) o := by
  refine edited.frame.byte sheltered (.inr (.inr known)) headed small (fun part s owned => ?_) inside
  refine edited.unchanged sheltered (.inr (.inr known)) owned fun _ _ =>
    ⟨(sheltered.file_apart known).1, ?_⟩
  rintro rfl
  exact sheltered.kinds q edited.parent known

theorem Grew.other_byte {len' lenQ : Nat} (grew : Grew layout disk disk' h len len')
    (sheltered : Sheltered layout disk) (known : q ∈ layout.files) (other : q ≠ h)
    (headed : Headed disk q lenQ) (small : SmallBetween disk q 0 (sectorsFor lenQ)) {o : Nat}
    (inside : o < lenQ) :
    fileByte disk' (headerAt disk' q) o = fileByte disk (headerAt disk q) o :=
  grew.frame.byte sheltered (.inr (.inr known)) headed small (fun _ _ owned =>
    grew.unchanged sheltered (.inr (.inr known)) owned other (.inl (sheltered.file_apart known).1)) inside

/-- A file of a consistent disk has a consistent header, and so has a current
handle on it. -/
theorem Sheltered.header (sheltered : Sheltered layout disk) (known : h ∈ layout.files)
    (headed : Headed disk h len) (current : Current disk file h) (direct : sectorsFor len ≤ 8) :
    ConsistentHeader disk file.hdr len := by
  have head : layout.Head h := .inr (.inr known)
  have number := sheltered.number head current
  have slot : ∀ k, k < sectorsFor len → HasPart disk h (.data k) (file.hdr.dataSectors k) := by
    intro k bound
    rw [current.dataSectors (by omega), ← @dataSector_direct disk _ k (by omega)]
    exact headed.data bound
  refine ⟨current.numBytes.trans headed.length, current.numSectors.trans headed.sectors, direct, ?_,
    fun k bound => sheltered.storage.marked_of_owns (k := (h, .data k)) ⟨head, slot k bound⟩, ?_, ?_,
    sheltered.map, sheltered.head_marked (.inl rfl),
    sheltered.storage.marked_of_owns (k := (0, .data 0)) ⟨.inl rfl, sheltered.map_data⟩⟩
  · rw [number]
    exact ⟨sheltered.head_marked head, sheltered.file_apart known⟩
  · intro k bound
    have notHead := sheltered.not_head head (slot k bound) (by simp)
    refine ⟨fun own => notHead ?_, fun zero => notHead (.inl zero),
      sheltered.ne_two head (slot k bound) (.inl (sheltered.file_apart known).1)⟩
    rw [own, number]
    exact head
  · refine List.Nodup.map_on (fun i member j member' same => ?_) List.nodup_range
    have first := slot i (List.mem_range.mp member)
    have second := slot j (List.mem_range.mp member')
    rw [Nat.zero_add, Nat.zero_add] at same
    rw [same] at first
    have equal := sheltered.storage.single (h, .data i) (h, .data j) _ ⟨head, first⟩ ⟨head, second⟩
    simpa using congrArg Prod.snd equal

/-- The bytes of a direct file after a write. -/
theorem OpenFile.Written.content {file' : OpenFile}
    (written : Written disk disk' file.hdr file'.hdr source pos n len)
    (sheltered : Sheltered layout disk) (known : h ∈ layout.files)
    (headed : Headed disk h len) (current : Current disk file h)
    (current' : Current disk' file' h) (direct : sectorsFor (max len (pos + n)) ≤ 8) {o : Nat}
    (inside : o < max len (pos + n)) (reached : pos ≤ len) :
    fileByte disk' (headerAt disk' h) o =
      if pos ≤ o ∧ o < pos + n then source (o - pos) else fileByte disk (headerAt disk h) o := by
  have before : sectorsFor len ≤ 8 := by
    unfold sectorsFor at direct ⊢
    omega
  have here : fileByte disk' (headerAt disk' h) o = fileByte disk' file'.hdr o := by
    unfold fileByte
    rw [blockSector_congr (fun i bound => (current'.dataSectors bound).symm) fun _ => rfl]
  have there : fileByte disk file.hdr o = fileByte disk (headerAt disk h) o := by
    unfold fileByte
    rw [blockSector_congr (fun i bound => current.dataSectors bound) fun _ => rfl]
  rw [here, ← there]
  exact (sheltered.header known headed current before).content written direct reached inside

/-- The bytes of a file of any size after a write inside it. -/
theorem OpenFile.Written.content_inside {file' : OpenFile}
    (written : Written disk disk' file.hdr file'.hdr source pos n len)
    (sheltered : Sheltered layout disk) (known : h ∈ layout.files)
    (headed : Headed disk h len) (current : Current disk file h)
    (current' : Current disk' file' h) (small : SmallBetween disk h 0 (sectorsFor len))
    (within : pos + n ≤ len) {o : Nat} (inside : o < len) :
    fileByte disk' (headerAt disk' h) o =
      if pos ≤ o ∧ o < pos + n then source (o - pos) else fileByte disk (headerAt disk h) o := by
  have whole : max len (pos + n) = len := by omega
  have owned := sheltered.owned known headed current le_rfl small
  have block : o / 128 < sectorsFor len := lt_sectorsFor_iff.mpr (by omega)
  have here : fileByte disk' (headerAt disk' h) o = fileByte disk' file'.hdr o := by
    unfold fileByte
    rw [blockSector_congr (fun i bound => (current'.dataSectors bound).symm) fun _ => rfl]
  have there : fileByte disk file.hdr o = fileByte disk (headerAt disk h) o := by
    unfold fileByte
    rw [blockSector_congr (fun i bound => current.dataSectors bound) fun _ => rfl]
  have place : ∀ k, k < sectorsFor len →
      blockSector disk' file'.hdr k = blockSector disk file.hdr k := by
    intro k bound
    unfold blockSector
    split
    · exact written.slots k (by omega) (.inl bound)
    · rw [written.slots 8 (by omega) (.inl (by omega)), written.indirect (by omega)]
  rw [here, ← there]
  split
  · rename_i covered
    exact written.written o covered.1 covered.2
  · by_cases touched : pos / 128 ≤ o / 128 ∧ o / 128 * 128 < pos + n
    · exact written.kept o inside touched.1 touched.2 (by omega)
    · obtain ⟨notOwn, notZero, notTwo⟩ := owned.apart _ (Nat.zero_le _) block
      refine fileByte_congr (place _ block) (written.frame _ notOwn notZero notTwo fun k low high => ?_)
      have bound : k < sectorsFor len := lt_sectorsFor_iff.mpr (by omega)
      rw [place k bound]
      intro same
      have equal := owned.distinct _ k (Nat.zero_le _) block (Nat.zero_le k) bound same
      omega

/-- A growth elsewhere leaves a handle current. -/
theorem Grew.current {q : Int} {len len' : Nat} (grew : Grew layout disk disk' h len len')
    (sheltered : Sheltered layout disk) (known : layout.Head q) (other : q ≠ h)
    (current : Current disk file q) : Current disk' file q :=
  Agrees.trans current
    (grew.frame.headers q known (grew.other_header sheltered known other)).symm

theorem Grew.mounted {fs : FileSystem} {len len' : Nat}
    (grew : Grew layout disk disk' h len len') (sheltered : Sheltered layout disk)
    (mounted : Mounted fs disk) : Mounted fs disk' := by
  have notRoot : (1 : Int) ≠ h := by
    rintro rfl
    exact sheltered.kinds 1 sheltered.root grew.file
  exact ⟨grew.current sheltered (.inl rfl) (grew.not_map sheltered).symm mounted.map,
    grew.current sheltered (.inr (.inl sheltered.root)) notRoot mounted.root⟩

/-! ## A handle on a file whose blocks can be located -/

/-- A current handle on the file with its header in sector `h`. -/
structure Opened (layout : Layout) (disk : Disk) (file : OpenFile) (h : Int) (len : Nat) : Prop where
  known : h ∈ layout.files
  headed : Headed disk h len
  current : Current disk file h
  small : SmallBetween disk h 0 (sectorsFor len)

namespace Opened

theorem head (opened : Opened layout disk file h len) : layout.Head h := .inr (.inr opened.known)

/-- Clock texts change. -/
theorem quiet {file' : OpenFile} (opened : Opened layout disk file h len)
    (sheltered : Sheltered layout disk) (quiet : Quiet layout disk disk')
    (current : Current disk' file' h) : Opened layout disk' file' h len := by
  have headed := Frame.headed quiet opened.head id opened.headed
  exact ⟨opened.known, headed, current,
    opened.small.kept headed le_rfl fun _ _ => (quiet.hasPart_iff sheltered opened.head).mp⟩

/-- A directory changes, and a file comes to be. -/
theorem edited {p : Int} (opened : Opened layout disk file h len) (sheltered : Sheltered layout disk)
    (edited : Edited layout disk disk' p) (hs : Int) : Opened (layout.add hs false) disk' file h len := by
  have same := edited.header_unchanged sheltered opened.head
  have headed := edited.frame.headed opened.head same opened.headed
  exact ⟨.inr opened.known, headed, Agrees.trans opened.current (edited.frame.headers h opened.head same).symm,
    opened.small.kept headed le_rfl fun _ _ => (edited.hasPart_iff sheltered opened.head).mp⟩

/-- Another file is written. -/
theorem other {lenQ len' : Nat} (opened : Opened layout disk file h len)
    (sheltered : Sheltered layout disk) (grew : Grew layout disk disk' q lenQ len') (other : h ≠ q) :
    Opened layout disk' file h len := by
  have headed := grew.frame.headed opened.head (grew.other_header sheltered opened.head other)
    opened.headed
  exact ⟨opened.known, headed, grew.current sheltered opened.head other opened.current,
    opened.small.kept headed le_rfl fun _ _ => (grew.other_part sheltered opened.head other).mp⟩

/-- The file is written without growing. -/
theorem written {file' : OpenFile} (opened : Opened layout disk file h len)
    (grew : Grew layout disk disk' h len len) (current : Current disk' file' h) :
    Opened layout disk' file' h len := by
  refine ⟨opened.known, grew.after, current, opened.small.kept grew.after le_rfl fun k s part => ?_⟩
  rcases grew.own_part.mp part with old | ⟨k', -, low, high, -⟩
  · exact old
  · omega

/-- A read inside the file. -/
theorem ensures_ReadAt {post : Int × Memory × OpenFile → Disk → Counters → Prop} {into : Memory}
    (opened : Opened layout disk file h len) (sheltered : Sheltered layout disk) (positive : 0 < n)
    (inside : pos + n ≤ len)
    (holds : ∀ file' into' disk', Quiet layout disk disk' → Opened layout disk' file' h len →
      (∀ j, j < n → into' j = fileByte disk (headerAt disk h) (pos + j)) → (∀ j, n ≤ j → into' j = into j) →
      post ((n : Int), into', file') disk' vis) :
    Ensures (file.ReadAt into n pos) post fault disk vis := by
  have count : min n (len - pos) = n := by omega
  have fits := sectorsFor_le_iff.mp opened.headed.fits
  refine ensures_ReadAt_file sheltered opened.known opened.head opened.headed opened.current opened.small
    positive (by omega) (.inl (by omega)) (fun empty => by omega) ?_
  intro file' into' disk' quiet current _ copied kept
  rw [count] at copied kept ⊢
  exact holds file' into' disk' quiet (opened.quiet sheltered quiet current) copied kept

/-- A write inside the file. -/
theorem ensures_WriteAt {post : Int × OpenFile → Disk → Counters → Prop}
    (opened : Opened layout disk file h len) (sheltered : Sheltered layout disk) (positive : 0 < n)
    (inside : pos + n ≤ len)
    (holds : ∀ file' disk', Grew layout disk disk' h len len → Opened layout disk' file' h len →
      (∀ o, o < len → fileByte disk' (headerAt disk' h) o =
        if pos ≤ o ∧ o < pos + n then source (o - pos) else fileByte disk (headerAt disk h) o) →
      post ((n : Int), file') disk' vis) :
    Ensures (file.WriteAt source n pos) post fault disk vis := by
  have whole : max len (pos + n) = len := by omega
  have fewer : sectorsFor (pos + n) ≤ sectorsFor len := by
    unfold sectorsFor
    omega
  refine ensures_WriteAt_file sheltered opened.known opened.known opened.headed opened.current positive
    (by omega) (.inr fewer) (by omega) (opened.small.mono (Nat.zero_le _) (Nat.min_le_left _ _)) ?_
  intro file' disk' written grew current _
  rw [whole] at grew
  exact holds file' disk' grew (opened.written grew current) fun o bound =>
    written.content_inside sheltered opened.known opened.headed opened.current current opened.small inside
      bound

end Opened

/-! ## A file that changes as soon as it is made -/

section Made

variable {p hs : Int} {i len' : Nat} {name : Name} {isDir : Bool} {disk'' : Disk}

theorem Created.head_new (created : Created layout disk disk' p hs i name isDir len)
    (sheltered : Sheltered layout disk) (known : layout.Head h) : h ≠ hs := by
  rintro rfl
  exact created.not_head sheltered known

/-- Clock texts may change afterwards. -/
theorem Created.quiet (created : Created scope disk disk' p hs i name isDir len)
    (sheltered : Sheltered layout disk) (within : scope.Within layout)
    (quiet : Quiet (scope.add hs isDir) disk' disk'') :
    Created scope disk disk'' p hs i name isDir len := by
  have after := (created.widen within).sheltered sheltered
  have wide : Quiet (layout.add hs isDir) disk' disk'' := quiet.widen (within.add hs isDir)
  have head : (scope.add hs isDir).Head hs := Layout.head_add.mpr (.inr rfl)
  have old : ∀ {h}, scope.Head h → (scope.add hs isDir).Head h := fun known =>
    Layout.head_add.mpr (.inl known)
  have isOld : ∀ s, ¬ scope.Head s → s ≠ hs → ¬ (scope.add hs isDir).Head s :=
    fun s free other known => (Layout.head_add.mp known).elim free other
  have marks := (wide.map after).marks
  have parts : claimed disk'' hs = claimed disk' hs := claimed_congr (quiet.agrees head) fun large =>
    wide.data after (Layout.head_add.mpr (.inr rfl))
      (show HasPart disk' hs .indirect _ from ⟨large, rfl⟩) (by simp)
  refine ⟨⟨created.parent, fun h known same => ?_, fun s free same => ?_⟩, ?_, ?_, created.absent,
    created.slot, ?_, fun flag => ⟨(created.table flag).1, ?_⟩, fun s clear => ?_⟩
  · exact (quiet.agrees (old known)).trans (created.frame.headers h known same)
  · rw [quiet.others s (isOld s free ?_) id]
    · exact created.frame.others s free same
    · rintro rfl
      exact same (.inr (.inl created.header_fresh.1))
  · exact Frame.headed quiet head id created.headed
  · rw [parts]
    exact created.taken.congr (BitMap.Same.refl _) (wide.map after)
  · refine (wide.same_table after ?_).trans created.entry
    cases isDir with
    | true => exact .inr (within.dirs p created.parent)
    | false => exact within.dirs p created.parent
  · refine (created.table flag).2.congr (wide.same_table after ?_)
    subst flag
    exact .inl rfl
  · have clear' : ¬ (diskMap disk').Marked s := fun marked => clear ((marks s).mpr marked)
    rw [wide.others s (fun known => clear' (after.head_marked known)) id]
    exact created.rest s clear'

/-- A new file that grows might as well have been made with its new length. -/
theorem Created.grew (created : Created scope disk disk' p hs i name false len)
    (sheltered : Sheltered layout disk) (within : scope.Within layout)
    (grew : Grew (scope.add hs false) disk' disk'' hs len len') (small : sectorsFor len' ≤ 8)
    (rest : ∀ s, ¬ (diskMap disk'').Marked s → disk'' s = disk' s) :
    Created scope disk disk'' p hs i name false len' := by
  have after := (created.widen within).sheltered sheltered
  have wide := grew.widen (within.add hs false)
  have old : ∀ {h}, scope.Head h → (scope.add hs false).Head h := fun known =>
    Layout.head_add.mpr (.inl known)
  have keeps : ∀ s, (diskMap disk).Marked s → (diskMap disk').Marked s := fun s marked =>
    (created.taken.exactly s).mpr (.inl marked)
  have more := grew.more
  refine ⟨⟨created.parent, fun h known same => ?_, fun s free same => ?_⟩, grew.after, ?_,
    created.absent, created.slot, ?_, (by simp), fun s clear => ?_⟩
  · exact (grew.frame.headers h (old known)
      (wide.other_header after (Layout.head_add.mpr (.inl (within.head known)))
        ((created.widen within).head_new sheltered (within.head known)))).trans
        (created.frame.headers h known same)
  · push Not at same
    obtain ⟨notTwo, marked, slots⟩ := same
    have notNew : s ≠ hs := by
      rintro rfl
      exact created.header_fresh.1 marked
    rw [grew.frame.others s (fun known => (Layout.head_add.mp known).elim free notNew) ?_]
    · refine created.frame.others s free ?_
      rintro (two | clear | ⟨k, bound, here⟩)
      · exact notTwo two
      · exact clear marked
      · exact slots k bound here
    · rintro (own | two | clear | ⟨k, bound, here⟩)
      · exact notNew own
      · exact notTwo two
      · exact clear (keeps s marked)
      · refine (created.taken.fresh s (mem_claimed.mpr ⟨.data k, ?_, here⟩)).2.2 marked
        rw [created.headed.sectors]
        exact_mod_cast bound
  · have before := created.taken
    rw [claimed_direct created.headed.sectors (by omega)] at before
    have split : claimed disk'' hs = (hs :: (headerAt disk' hs).slots 0 (sectorsFor len)) ++
        (headerAt disk'' hs).slots (sectorsFor len) (sectorsFor len' - sectorsFor len) := by
      have whole := slots_append (headerAt disk'' hs) 0 (sectorsFor len)
        (sectorsFor len' - sectorsFor len)
      rw [Nat.zero_add, Nat.add_sub_cancel' more] at whole
      have first : (headerAt disk'' hs).slots 0 (sectorsFor len) =
          (headerAt disk' hs).slots 0 (sectorsFor len) := slots_congr fun k bound => by
        rw [Nat.zero_add]
        exact grew.slots k (by omega) (.inl bound)
      rw [claimed_direct grew.after.sectors small, whole, first]
      rfl
    rw [split]
    exact before.append grew.taken
  · exact (wide.other_table after (within.dirs p created.parent)).trans created.entry
  · rw [rest s clear]
    exact created.rest s fun marked => clear ((grew.taken.exactly s).mpr (.inl marked))

end Made

end Nachos
