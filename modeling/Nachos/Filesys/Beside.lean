import Nachos.Effects.Interleaving
import Nachos.Filesys.WriteAtProofs

/-! Kernel code that other threads interrupt between its sector reads and writes.
`Ensures` is about code that runs alone; `Beside` is about code whose sectors
`keep` nobody else writes, and which itself writes only what it `may`. -/
namespace Nachos
open Effects FileHeader

/-- The sectors `keep` are as they were. -/
def Intact (keep : Int → Prop) (disk disk' : Disk) : Prop := ∀ s, keep s → disk' s = disk s

theorem Intact.refl (keep : Int → Prop) (disk : Disk) : Intact keep disk disk := fun _ _ => rfl

theorem Intact.trans {keep : Int → Prop} {disk disk' disk'' : Disk} (first : Intact keep disk disk')
    (second : Intact keep disk' disk'') : Intact keep disk disk'' :=
  fun s kept => (second s kept).trans (first s kept)

/-- One of the permitted writes, or none. -/
def Writes (may : Disk → Int → Sector → Prop) (disk disk' : Disk) : Prop :=
  disk' = disk ∨ ∃ s data, may disk s data ∧ disk' = Function.update disk s data

/-- From these sectors the program ends in `post` and stops nowhere, whatever the
others do to the sectors outside `keep`, to the counters and to uninitialised storage. -/
def Beside {A : Type} (keep : Int → Prop) (may : Disk → Int → Sector → Prop) (program : Kernel A)
    (post : A → Disk → Prop) (disk : Disk) : Prop :=
  ∀ vis supply, program.under Store.handle (fun store store' => Intact keep store.disk store'.disk)
    (fun store store' => Writes may store.disk store'.disk) (fun value store => post value store.disk)
    { disk := disk, visNum := vis, supply := supply }

section Rules

variable {A B : Type} {keep : Int → Prop} {may : Disk → Int → Sector → Prop} {post : A → Disk → Prop}
  {disk : Disk}

theorem beside_pure {value : A} (holds : post value disk) : Beside keep may (pure value) post disk :=
  fun _ _ => holds

theorem beside_bind {program : Kernel A} {next : A → Kernel B} {post : B → Disk → Prop}
    (holds : Beside keep may program (fun value disk' => Beside keep may (next value) post disk') disk) :
    Beside keep may (program >>= next) post disk := fun vis supply =>
  Program.under_bind (Program.under_mono (holds vis supply) fun _ after rest =>
    rest after.visNum after.supply)

theorem beside_post {program : Kernel A} {post' : A → Disk → Prop}
    (holds : Beside keep may program post' disk)
    (weaker : ∀ value disk', post' value disk' → post value disk') :
    Beside keep may program post disk := fun vis supply =>
  Program.under_mono (holds vis supply) fun value after => weaker value after.disk

theorem beside_loop {count : Nat} {body : Nat → A → Kernel A} {state : A}
    (inv : Nat → A → Disk → Prop) (start : inv 0 state disk)
    (next : ∀ i value disk', i < count → inv i value disk' →
      Beside keep may (body i value) (inv (i + 1)) disk') :
    Beside keep may (Program.loop count body state) (inv count) disk := fun _ _ =>
  Program.under_loop (fun i value (after : Store) => inv i value after.disk) start
    fun i value after bound holds => next i value after.disk bound holds after.visNum after.supply

theorem beside_ReadSector {s : Int} {post : Sector → Disk → Prop} (inRange : ValidSector s)
    (holds : ∀ disk', Intact keep disk disk' → post (disk s) disk') :
    Beside keep may (ReadSector s) post disk := fun _ _ =>
  ⟨_, _, if_pos inRange, .inl rfl, fun later kept => holds later.disk kept⟩

theorem beside_WriteSector {s : Int} {data : Sector} {post : Unit → Disk → Prop} (inRange : ValidSector s)
    (allowed : may disk s data)
    (holds : ∀ disk', Intact keep (Function.update disk s data) disk' → post () disk') :
    Beside keep may (WriteSector s data) post disk := fun _ _ =>
  ⟨_, _, if_pos inRange, .inr ⟨s, data, allowed, rfl⟩, fun later kept => holds later.disk kept⟩

theorem beside_visNum {s : Int} {post : Int → Disk → Prop} (inRange : ValidSector s)
    (holds : ∀ count disk', Intact keep disk disk' → post count disk') :
    Beside keep may (visNum s) post disk := fun _ _ =>
  ⟨_, _, if_pos inRange, .inl rfl, fun later kept => holds _ later.disk kept⟩

theorem beside_setVisNum {s count : Int} {post : Unit → Disk → Prop} (inRange : ValidSector s)
    (holds : ∀ disk', Intact keep disk disk' → post () disk') :
    Beside keep may (setVisNum s count) post disk := fun _ _ =>
  ⟨_, _, if_pos inRange, .inl rfl, fun later kept => holds later.disk kept⟩

theorem beside_uninitialized {post : Memory → Disk → Prop}
    (holds : ∀ storage disk', Intact keep disk disk' → post storage disk') :
    Beside keep may uninitialized post disk := fun _ _ =>
  ⟨_, _, rfl, .inl rfl, fun later kept => holds _ later.disk kept⟩

theorem beside_checked {result : Except Fault A} {value : A} (computed : result = .ok value)
    (holds : post value disk) : Beside keep may (checked result) post disk := by
  rw [computed]
  exact beside_pure holds

theorem Beside.value {value : A} (holds : Beside keep may (.pure value) post disk) : post value disk :=
  holds (fun _ => 0) fun _ _ => 0

/-- A request of such a program makes a permitted write, or none, and the program goes on. -/
theorem Beside.advances {program program' : Kernel A} {store store' : Store}
    (holds : Beside keep may program post store.disk)
    (advances : Program.Advances Store.handle program store program' store') :
    Writes may store.disk store'.disk ∧
      ∀ disk', Intact keep store'.disk disk' → Beside keep may program' post disk' := by
  obtain ⟨wrote, goes⟩ := advances.under (holds store.visNum store.supply)
  exact ⟨wrote, fun disk' kept vis supply => goes { disk := disk', visNum := vis, supply := supply } kept⟩

/-- Left alone, such a program returns. -/
theorem Beside.returns {program : Kernel A} {store : Store} {P : Kernel A → Store → Prop}
    (holds : Beside keep may program post store.disk) (reached : P program store)
    (goes : ∀ {p w p' w'}, P p w → Program.Advances Store.handle p w p' w' → P p' w') :
    ∃ value store', P (.pure value) store' ∧ post value store'.disk :=
  Program.under_returns (fun (store : Store) => Intact.refl keep store.disk) reached goes
    (holds store.visNum store.supply)

end Rules

-- `apply` would otherwise run the program while it counts arguments
attribute [irreducible] Beside

/-! ## Files of at most eight sectors -/

namespace OpenFile

variable {keep : Int → Prop} {may : Disk → Int → Sector → Prop} {disk : Disk} {hdr : FileHeader}
  {file : OpenFile}

theorem beside_SetTime {post : FileHeader → Disk → Prop} {mode : TimeMode}
    (holds : ∀ stamped disk', Agrees stamped hdr → Intact keep disk disk' → post stamped disk') :
    Beside keep may (hdr.SetTime mode) post disk := by
  apply beside_bind
  apply beside_uninitialized
  intro text disk' kept
  exact beside_pure (holds _ disk' sameBut_splice.agrees kept)

/-- A block in a slot of the header costs no request. -/
theorem ByteToSector_direct {offset : Int} (k : Nat) (place : offset = ((k * 128 : Nat) : Int))
    (direct : k < 8) : hdr.ByteToSector offset = pure (hdr.dataSectors k) := by
  subst place
  have unsigned : toUnsigned ((k * 128 : Nat) : Int) = k * 128 := toUnsigned_natCast (by omega)
  have block : ((k * 128 : Nat) : Int).toNat / SectorSize = k := by
    simp only [Int.toNat_natCast, SectorSize]
    omega
  unfold ByteToSector
  rw [unsigned, if_pos (by simp; omega), block]

/-- The blocks `first ..` of the file are in slots of the header that name sectors. -/
def Direct (hdr : FileHeader) (first count : Nat) : Prop :=
  ∀ k, first ≤ k → k < first + count → k < 8 ∧ ValidSector (hdr.dataSectors k)

theorem beside_readSectors {post : Memory → Disk → Prop} {first count : Nat} {buf : Memory}
    (direct : Direct hdr first count)
    (holds : ∀ buf' disk', Intact keep disk disk' →
      (∀ x, x < count * 128 → keep (hdr.dataSectors (first + x / 128)) →
        buf' x = (disk (hdr.dataSectors (first + x / 128))).mem (x % 128)) → post buf' disk') :
    Beside keep may (readSectors hdr first count buf) post disk := by
  refine beside_post (beside_loop (fun i buf' disk' => Intact keep disk disk' ∧
    ∀ x, x < i * 128 → keep (hdr.dataSectors (first + x / 128)) →
      buf' x = (disk (hdr.dataSectors (first + x / 128))).mem (x % 128))
    ⟨Intact.refl keep disk, by omega⟩ ?_) fun buf' disk' read => holds buf' disk' read.1 read.2
  rintro i buf' disk₁ less ⟨same, filled⟩
  obtain ⟨small, valid⟩ := direct (first + i) (by omega) (by omega)
  rw [ByteToSector_direct (first + i) (by simp) small]
  apply beside_bind
  apply beside_pure
  apply beside_bind
  refine beside_ReadSector valid fun disk₂ kept => ?_
  refine beside_pure ⟨same.trans kept, fun x bound mine => ?_⟩
  by_cases old : x < i * 128
  · rw [Memory.splice_outside (by simp only [SectorSize]; omega)]
    exact filled x old mine
  · have block : x / 128 = i := by omega
    have offset : x - i * SectorSize = x % 128 := by
      simp only [SectorSize]
      omega
    rw [block] at mine ⊢
    rw [Memory.splice_inside (by simp only [SectorSize]; omega) (by simp only [SectorSize]; omega), offset,
      same _ mine]

theorem beside_writeSectors {post : Unit → Disk → Prop} {first count : Nat} {buf : Memory}
    (direct : Direct hdr first count)
    (allowed : ∀ k disk data, first ≤ k → k < first + count → may disk (hdr.dataSectors k) data)
    (holds : ∀ disk', post () disk') : Beside keep may (writeSectors hdr first count buf) post disk := by
  refine beside_post (beside_loop (fun _ _ _ => True) trivial ?_) fun _ disk' _ => holds disk'
  intro i _ disk' less _
  obtain ⟨small, valid⟩ := direct (first + i) (by omega) (by omega)
  rw [ByteToSector_direct (first + i) (by simp) small]
  apply beside_bind
  apply beside_pure
  exact beside_WriteSector valid (allowed _ _ _ (by omega) (by omega)) fun disk' _ => trivial

/-- `ReadAt` from a file of `len` bytes only writes the header with another visit time,
and what it returns of a sector that nobody else writes is what stands there. -/
theorem beside_ReadAt {post : Int × Memory × OpenFile → Disk → Prop} {into : Memory} {n pos len : Nat}
    (length : file.hdr.numBytes = len) (positive : 0 < n) (inside : pos < len)
    (sum : pos + n < 2147483648) (own : ValidSector file.hdr.sectorNumber)
    (direct : Direct file.hdr 0 (sectorsFor len))
    (allowed : ∀ disk stamped, Agrees stamped file.hdr → may disk file.hdr.sectorNumber stamped.raw)
    (holds : ∀ count into' hdr' disk' disk'', Agrees hdr' file.hdr → Intact keep disk disk' →
      Intact keep (Function.update disk' file.hdr.sectorNumber hdr'.raw) disk'' →
      (∀ j, j < min n (len - pos) → keep (file.hdr.dataSectors ((pos + j) / 128)) →
        into' j = (disk (file.hdr.dataSectors ((pos + j) / 128))).mem ((pos + j) % 128)) →
      post (count, into', { file with hdr := hdr' }) disk'') :
    Beside keep may (file.ReadAt into n pos) post disk := by
  generalize count : min n (len - pos) = m at *
  have trimmed : (if (pos : Int) + n > len then (len : Int) - pos else (n : Int)) = m := by
    split <;> omega
  have first : divRoundDown (pos : Int) SectorSize = ((pos / 128 : Nat) : Int) :=
    divRoundDown_natCast pos
  have last : divRoundDown ((pos : Int) + m - 1) SectorSize = (((pos + m - 1) / 128 : Nat) : Int) := by
    have whole : (pos : Int) + m - 1 = ((pos + m - 1 : Nat) : Int) := by omega
    rw [whole]
    exact divRoundDown_natCast _
  have sectors : (1 + (((pos + m - 1) / 128 : Nat) : Int) - ((pos / 128 : Nat) : Int)).toNat =
      1 + (pos + m - 1) / 128 - pos / 128 := by omega
  have start : ((pos : Int) - ((pos / 128 : Nat) : Int) * (SectorSize : Nat)).toNat = pos % 128 := by
    simp only [SectorSize]
    omega
  unfold ReadAt
  simp only [FileLength, length]
  rw [if_neg (by omega), if_neg (by omega), trimmed, first, last, sectors, start]
  apply beside_bind
  apply beside_uninitialized
  intro storage disk₁ kept₁
  apply beside_bind
  refine beside_readSectors (fun k _ bound => direct k (by omega) ?_) fun buf disk₂ kept₂ filled => ?_
  · unfold sectorsFor
    omega
  apply beside_bind
  apply beside_SetTime
  intro stamped disk₃ agrees kept₃
  apply beside_bind
  rw [agrees.sectorNumber]
  refine beside_WriteSector own (allowed _ _ agrees) fun disk₄ kept₄ => ?_
  apply beside_pure
  refine holds _ _ stamped disk₃ disk₄ agrees ((kept₁.trans kept₂).trans kept₃) kept₄ ?_
  intro j bound mine
  have block : pos / 128 + (pos % 128 + j) / 128 = (pos + j) / 128 := by omega
  have offset : (pos % 128 + j) % 128 = (pos + j) % 128 := by omega
  have read := filled (pos % 128 + j) (by omega)
  rw [block, offset] at read
  rw [Int.toNat_natCast, Memory.splice_inside (by omega) (by omega), Nat.sub_zero, read mine, kept₁ _ mine]

theorem beside_fetchPartial {post : Memory × OpenFile → Disk → Prop} {needed : Bool} {buf : Memory}
    {start k len : Nat} (length : file.hdr.numBytes = len) (inside : k * 128 < len)
    (own : ValidSector file.hdr.sectorNumber) (direct : Direct file.hdr 0 (sectorsFor len))
    (allowed : ∀ disk stamped, Agrees stamped file.hdr → may disk file.hdr.sectorNumber stamped.raw)
    (holds : ∀ buf' hdr' disk', Agrees hdr' file.hdr → post (buf', { file with hdr := hdr' }) disk') :
    Beside keep may (file.fetchPartial needed buf start k) post disk := by
  unfold fetchPartial
  cases needed with
  | false => exact beside_pure (holds buf file.hdr disk (Agrees.refl _))
  | true =>
    apply beside_bind
    have place : (k : Int) * (SectorSize : Nat) = ((k * 128 : Nat) : Int) := by simp
    rw [place]
    have small := (direct k (by omega) (by unfold sectorsFor; omega)).1
    refine beside_ReadAt length (show 0 < SectorSize by decide) inside
      (by simp only [SectorSize]; omega) own direct allowed ?_
    intro count into' hdr' disk' disk'' agrees _ _ _
    exact beside_pure (holds _ hdr' disk'' agrees)

theorem Direct.agrees {hdr' : FileHeader} {first count : Nat} (direct : Direct hdr first count)
    (agrees : Agrees hdr' hdr) : Direct hdr' first count := fun k low high => by
  obtain ⟨small, valid⟩ := direct k low high
  rw [agrees.dataSectors (by omega)]
  exact ⟨small, valid⟩

/-- `writeBlocks` inside a file of `len` bytes writes its data sectors, and the header
with other clock texts. -/
theorem beside_writeBlocks {post : Int × OpenFile → Disk → Prop} {source : Memory} {n pos len : Nat}
    (length : file.hdr.numBytes = len) (positive : 0 < n) (inside : pos + n ≤ len)
    (own : ValidSector file.hdr.sectorNumber) (direct : Direct file.hdr 0 (sectorsFor len))
    (allowed : ∀ disk stamped, Agrees stamped file.hdr → may disk file.hdr.sectorNumber stamped.raw)
    (data : ∀ k disk block, k < sectorsFor len → may disk (file.hdr.dataSectors k) block)
    (holds : ∀ hdr' disk', Agrees hdr' file.hdr → post (n, { file with hdr := hdr' }) disk') :
    Beside keep may (file.writeBlocks source n pos) post disk := by
  have first : divRoundDown (pos : Int) SectorSize = ((pos / 128 : Nat) : Int) :=
    divRoundDown_natCast pos
  have last : divRoundDown ((pos : Int) + n - 1) SectorSize = (((pos + n - 1) / 128 : Nat) : Int) := by
    have whole : (pos : Int) + n - 1 = ((pos + n - 1 : Nat) : Int) := by omega
    rw [whole]
    exact divRoundDown_natCast _
  have sectors : (1 + (((pos + n - 1) / 128 : Nat) : Int) - ((pos / 128 : Nat) : Int)).toNat =
      1 + (pos + n - 1) / 128 - pos / 128 := by omega
  unfold writeBlocks
  simp only [first, last, sectors]
  apply beside_bind
  apply beside_uninitialized
  intro storage disk₁ _
  apply beside_bind
  refine beside_fetchPartial length (by omega) own direct allowed ?_
  intro buf₂ hdr₂ disk₂ agrees₂
  have allowed₂ : ∀ disk stamped, Agrees stamped hdr₂ → may disk hdr₂.sectorNumber stamped.raw := by
    intro disk stamped agrees
    rw [agrees₂.sectorNumber]
    exact allowed disk stamped (agrees.trans agrees₂)
  apply beside_bind
  refine beside_fetchPartial (agrees₂.numBytes.trans length) (by omega)
    (by rw [agrees₂.sectorNumber]; exact own) (direct.agrees agrees₂) allowed₂ ?_
  intro buf₃ hdr₃ disk₃ agrees₃
  have agrees : Agrees hdr₃ file.hdr := agrees₃.trans agrees₂
  apply beside_bind
  refine beside_writeSectors (fun k _ bound => direct.agrees agrees k (by omega) ?_) ?_ ?_
  · unfold sectorsFor
    omega
  · intro k disk block _ bound
    have within : k < sectorsFor len := by
      unfold sectorsFor
      omega
    rw [agrees.dataSectors (by have := (direct k (by omega) (by omega)).1; omega)]
    exact data k disk block within
  · intro disk₄
    apply beside_bind
    apply beside_SetTime
    intro stamped disk₅ agrees₅ _
    have agrees₆ : Agrees stamped file.hdr := agrees₅.trans agrees
    apply beside_bind
    rw [agrees₆.sectorNumber]
    refine beside_WriteSector own (allowed _ _ agrees₆) fun disk₆ _ => ?_
    exact beside_pure (holds stamped disk₆ agrees₆)

/-! ## The free map -/

/-- The free map of `WriteAt`: a copy of its own, through a second handle on sector 0. -/
def fetchMap : Kernel (BitMap × OpenFile) := do
  let freeMapFile ← OpenFile.new 0
  let freeMap ← BitMap.create NumSectors
  freeMap.FetchFrom freeMapFile

/-- What follows with that copy: the file takes sectors from it, and header and copy
are written back. -/
def takeFrom (file : OpenFile) (size : Int) : BitMap × OpenFile → Kernel OpenFile
  | (freeMap, freeMapFile) => do
    let (_, hdr, freeMap) ← checked (file.hdr.Extend freeMap size)
    hdr.WriteBack hdr.sectorNumber
    let (_, freeMapFile) ← writeAt 7 freeMapFile freeMap.bytes (freeMap.numWords * 4) 0
    freeMapFile.delete
    return { file with hdr := hdr }

/-- The part of `WriteAt` that extends the file. -/
def grow (file : OpenFile) (size : Int) : Kernel OpenFile := fetchMap >>= file.takeFrom size

theorem IsMapHeader.direct (map : IsMapHeader hdr) : Direct hdr 0 (sectorsFor 128) := by
  intro k _ bound
  have zeroth : k = 0 := by
    have one : sectorsFor 128 = 1 := rfl
    omega
  rw [zeroth, map.slot]
  decide

/-- The copy is what sector 2 holds, as long as nobody else writes the free map. -/
theorem beside_fetchMap {post : BitMap × OpenFile → Disk → Prop} (kept : keep 0 ∧ keep 2)
    (map : IsMapHeader (headerAt disk 0))
    (clock : ∀ disk stamped, IsMapHeader stamped → may disk 0 stamped.raw)
    (holds : ∀ fetched mapFile disk', BitMap.Same fetched (diskMap disk) → IsMapHeader mapFile.hdr →
      IsMapHeader (headerAt disk' 0) → disk' 2 = disk 2 → post (fetched, mapFile) disk') :
    Beside keep may fetchMap post disk := by
  have number : FileHeader.sectorNumber ⟨disk 0⟩ = 0 := map.number
  have opened : IsMapHeader ⟨disk 0⟩ := map
  unfold fetchMap
  apply beside_bind
  apply beside_bind
  apply beside_bind
  refine beside_ReadSector (by decide) fun disk₁ kept₁ => ?_
  apply beside_pure
  apply beside_bind
  refine beside_visNum (by rw [number]; decide) fun count disk₂ kept₂ => ?_
  apply beside_bind
  refine beside_setVisNum (by rw [number]; decide) fun disk₃ kept₃ => ?_
  apply beside_pure
  apply beside_bind
  apply beside_bind
  apply beside_uninitialized
  intro storage disk₄ kept₄
  obtain ⟨blank, computed, size, -⟩ := BitMap.new_ok (fun i => storage.word (4 * i)) NumSectors
  refine beside_checked computed ?_
  have bits : blank.numBits = 1024 := size
  unfold BitMap.FetchFrom
  rw [BitMap.numWords_bytes bits]
  apply beside_bind
  have length : FileHeader.numBytes ⟨disk 0⟩ = ((128 : Nat) : Int) := map.length
  change Beside keep may (OpenFile.ReadAt _ _ ((128 : Nat) : Int) ((0 : Nat) : Int)) _ _
  refine beside_ReadAt length (by omega) (by omega) (by omega) (by dsimp only; rw [number]; decide)
    (IsMapHeader.direct opened) ?_ ?_
  · intro disk' stamped agrees
    dsimp only
    rw [number]
    exact clock disk' stamped (opened.agrees agrees)
  · intro count' into hdr' disk₅ disk₆ agrees kept₅ kept₆ copied
    dsimp only at agrees copied kept₆ ⊢
    rw [number] at kept₆
    have before := (((kept₁.trans kept₂).trans kept₃).trans kept₄).trans kept₅
    have header : headerAt disk₆ 0 = hdr' := by
      unfold headerAt
      rw [kept₆ 0 kept.1, Function.update_self]
    have two : disk₆ 2 = disk 2 := by
      rw [kept₆ 2 kept.2, Function.update_of_ne (by decide)]
      exact before 2 kept.2
    apply beside_pure
    refine holds _ _ disk₆ ?_ (opened.agrees agrees) (by rw [header]; exact opened.agrees agrees) two
    refine BitMap.same_of_words bits rfl fun i bound => Memory.word_congr fun k less => ?_
    have byte := copied (4 * i + k) (by omega)
    have block : (0 + (4 * i + k)) / 128 = 0 := by omega
    have offset : (0 + (4 * i + k)) % 128 = 4 * i + k := by omega
    rw [block, offset, opened.slot] at byte
    rw [byte kept.2, ((kept₁.trans kept₂).trans kept₃).trans kept₄ 2 kept.2]

/-- Writing a copy of the map back puts it into sector 2 and touches the clock of
sector 0. -/
theorem beside_writeAt_map {post : Int × OpenFile → Disk → Prop} {depth : Nat} {bitmap : BitMap}
    (bits : bitmap.numBits = 1024) (map : IsMapHeader file.hdr) (kept : keep 0 ∧ keep 2)
    (clock : ∀ disk stamped, IsMapHeader stamped → may disk 0 stamped.raw)
    (marks : ∀ disk' data, disk' 2 = disk 2 → BitMap.Same (diskMap (Function.update disk' 2 data)) bitmap →
      may disk' 2 data)
    (holds : ∀ result hdr' disk', IsMapHeader hdr' → disk' 0 = hdr'.raw →
      BitMap.Same (diskMap disk') bitmap → (∀ s, keep s → s ≠ 0 → s ≠ 2 → disk' s = disk s) →
      post (result, { file with hdr := hdr' }) disk') :
    Beside keep may (writeAt (depth + 1) file bitmap.bytes (bitmap.numWords * 4) 0) post disk := by
  have length : file.hdr.numBytes = ((128 : Nat) : Int) := map.length
  rw [BitMap.numWords_bytes bits]
  unfold writeAt
  simp only [FileLength, length]
  rw [if_neg (by omega), if_neg (by omega), if_neg (by omega)]
  unfold writeBlocks
  apply beside_bind
  apply beside_uninitialized
  intro storage disk₁ kept₁
  -- the map fills its sector, so nothing is fetched first
  change Beside keep may (do
    writeSectors file.hdr 0 1 (storage.splice 0 128 bitmap.bytes)
    let hdr ← file.hdr.SetTime .modify
    hdr.WriteBack hdr.sectorNumber
    return (((128 : Nat) : Int), { file with hdr := hdr })) post disk₁
  apply beside_bind
  apply beside_bind
  apply beside_pure
  dsimp only
  rw [ByteToSector_direct 0 (by simp) (by omega), map.slot]
  apply beside_bind
  apply beside_pure
  have stored : ∀ disk', BitMap.Same (diskMap (Function.update disk' 2
      (.of fun j => (storage.splice 0 128 bitmap.bytes) (0 * SectorSize + j)))) bitmap := by
    intro disk'
    refine BitMap.same_of_words rfl bits fun i bound => ?_
    rw [← BitMap.word_bytes bitmap i]
    refine Memory.word_congr fun k less => ?_
    rw [Function.update_self, Block.mem_of (by simp only [SectorSize]; omega),
      Memory.splice_inside (by omega) (by simp only [SectorSize]; omega)]
    simp
  refine beside_WriteSector (by decide) (marks _ _ (kept₁ 2 kept.2) (stored disk₁)) fun disk₂ kept₂ => ?_
  apply beside_bind
  apply beside_SetTime
  intro stamped disk₃ agrees kept₃
  have stampedMap : IsMapHeader stamped := map.agrees agrees
  apply beside_bind
  rw [stampedMap.number]
  refine beside_WriteSector (by decide) (clock _ _ stampedMap) fun disk₄ kept₄ => ?_
  apply beside_pure
  refine holds _ stamped disk₄ stampedMap ?_ ?_ ?_
  · rw [kept₄ 0 kept.1, Function.update_self]
  · have written : disk₄ 2 = Function.update disk₁ 2
        (.of fun j => (storage.splice 0 128 bitmap.bytes) (0 * SectorSize + j)) 2 := by
      rw [kept₄ 2 kept.2, Function.update_of_ne (by decide), kept₃ 2 kept.2, kept₂ 2 kept.2]
    unfold diskMap
    rw [written]
    exact stored disk₁
  · intro s mine notZero notTwo
    rw [kept₄ s mine, Function.update_of_ne notZero, kept₃ s mine, kept₂ s mine, Function.update_of_ne notTwo,
      kept₁ s mine]

/-- The file has its sectors from the copy, and the copy is on the disk, as long as
nobody else writes the free map or this header. -/
theorem beside_takeFrom {post : OpenFile → Disk → Prop} {size h : Int} {freeMap after : BitMap}
    {mapFile : OpenFile} {hdr₁ : FileHeader} {enough : Bool}
    (computed : file.hdr.Extend freeMap size = .ok (enough, hdr₁, after)) (bits : after.numBits = 1024)
    (map : IsMapHeader mapFile.hdr) (number : hdr₁.sectorNumber = h) (valid : ValidSector h)
    (apart : h ≠ 0 ∧ h ≠ 2) (kept : keep 0 ∧ keep 2 ∧ keep h)
    (header : ∀ disk, may disk h hdr₁.raw)
    (clock : ∀ disk stamped, IsMapHeader stamped → may disk 0 stamped.raw)
    (marks : ∀ disk' data, disk' 2 = disk 2 → BitMap.Same (diskMap (Function.update disk' 2 data)) after →
      may disk' 2 data)
    (holds : ∀ disk', IsMapHeader (headerAt disk' 0) → BitMap.Same (diskMap disk') after →
      disk' h = hdr₁.raw → post { file with hdr := hdr₁ } disk') :
    Beside keep may (file.takeFrom size (freeMap, mapFile)) post disk := by
  unfold takeFrom
  apply beside_bind
  refine beside_checked computed ?_
  apply beside_bind
  rw [number]
  refine beside_WriteSector valid (header disk) fun disk₁ kept₁ => ?_
  have two : disk₁ 2 = disk 2 := by
    rw [kept₁ 2 kept.2.1, Function.update_of_ne (Ne.symm apart.2)]
  apply beside_bind
  refine beside_writeAt_map bits map ⟨kept.1, kept.2.1⟩ clock
    (fun disk' data same => marks disk' data (same.trans two)) ?_
  intro result hdr₂ disk₂ map₂ zeroth same still
  apply beside_bind
  apply beside_bind
  refine beside_visNum (by dsimp only; rw [map₂.number]; decide) fun count disk₃ kept₃ => ?_
  refine beside_setVisNum (by dsimp only; rw [map₂.number]; decide) fun disk₄ kept₄ => ?_
  apply beside_pure
  have later := kept₃.trans kept₄
  refine holds disk₄ ?_ ?_ ?_
  · unfold headerAt
    rw [later 0 kept.1, zeroth]
    exact map₂
  · unfold diskMap at same ⊢
    rw [later 2 kept.2.1]
    exact same
  · rw [later h kept.2.2, still h kept.2.2 apart.1 apart.2, kept₁ h kept.2.2, Function.update_self]

end OpenFile

end Nachos
