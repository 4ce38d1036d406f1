import Nachos.Filesys.ReadBack
import Nachos.Filesys.SessionProofs
import Nachos.Userprog.Loading

/-! What the constructor of `AddrSpace` leaves in `virtual_memory`. The loop over one
segment copies it as long as it stays inside both files; the file is found again
through the root, whose table the loop leaves alone. -/
namespace Nachos
open Effects FileHeader

/-! ## The sectors of a new file -/

/-- The sector that block `k` of a new file of so many sectors gets. The first clear sector
is for the header. Up to eight blocks go into the first run behind it; more of them go into
the clear sectors in their order, with the indirect block as the ninth. -/
def Allotted (disk : Disk) (count k : Nat) (s : Int) : Prop :=
  (ValidSector s ∧ ¬ (diskMap disk).Marked s) ∧
    if 9 ≤ count then (diskMap disk).clearBelow s.toNat = if k < 8 then k + 1 else k + 2
    else ∃ hs freeMap b, FirstFree disk hs ∧ (diskMap disk).Takes [hs] freeMap ∧
      freeMap.FirstRun count b ∧ s = ((b + k : Nat) : Int)

section
variable {layout : Layout} {disk disk' : Disk} {p hs : Int} {i len count k : Nat} {name : Name} {isDir : Bool}

theorem BitMap.FirstRun.congr {bitmap bitmap' : BitMap} {size b : Nat} (run : bitmap.FirstRun size b)
    (same : Same bitmap' bitmap) : bitmap'.FirstRun size b where
  fits := run.fits.trans_eq same.size.symm
  clear := fun j less set => run.clear j less ((same.marks _).mp set)
  least := fun b' less => by
    obtain ⟨j, bound, set⟩ := run.least b' less
    exact ⟨j, bound, (same.marks _).mpr set⟩

theorem Allotted.unique {s s' : Int} (first : Allotted disk count k s) (second : Allotted disk count k s') :
    s = s' := by
  obtain ⟨⟨valid, clear⟩, place⟩ := first
  obtain ⟨⟨valid', clear'⟩, place'⟩ := second
  split at place
  · rw [if_pos (by assumption)] at place'
    exact BitMap.eq_of_clearBelow_eq clear clear' valid valid' (place.trans place'.symm)
  · rw [if_neg (by assumption)] at place'
    obtain ⟨hs, freeMap, b, header, taken, run, rfl⟩ := place
    obtain ⟨hs', freeMap', b', header', taken', run', rfl⟩ := place'
    obtain rfl := header.unique header'
    have same : BitMap.Same freeMap' freeMap :=
      ⟨taken'.size.trans taken.size.symm, fun t => (taken'.exactly t).trans (taken.exactly t).symm⟩
    obtain rfl := run'.unique (run.congr same)
    rfl

theorem Allotted.quiet {s : Int} (allotted : Allotted disk' count k s) (quiet : Quiet layout disk disk')
    (sheltered : Sheltered layout disk) : Allotted disk count k s := by
  have map := quiet.map sheltered
  obtain ⟨⟨valid, clear⟩, place⟩ := allotted
  refine ⟨⟨valid, fun marked => clear ((map.marks s).mpr marked)⟩, ?_⟩
  split
  · rw [if_pos (by assumption)] at place
    have inside : s < (1024 : Nat) := valid.2
    rw [← map.clearBelow (show s.toNat ≤ 1024 by omega)]
    exact place
  · rw [if_neg (by assumption)] at place
    obtain ⟨hs, freeMap, b, header, taken, rest⟩ := place
    exact ⟨hs, freeMap, b, header.quiet quiet sheltered, taken.congr map.symm (BitMap.Same.refl _), rest⟩

theorem FirstFree.takesLeast {freeMap : BitMap} (first : FirstFree disk hs)
    (taken : (diskMap disk).Takes [hs] freeMap) : (diskMap disk).TakesLeast [hs] freeMap where
  toTakes := taken
  ascending := List.pairwise_singleton _ _
  below := by
    intro s member t low less
    rw [List.mem_singleton.mp member] at less
    exact (taken.exactly t).mpr (.inl (first.2 t low less))

/-- From nine sectors on, a new file has the first sectors that were clear. -/
theorem Recycled.takesLeast (recycled : Recycled disk disk' hs len) (first : FirstFree disk hs)
    (large : 9 ≤ sectorsFor len) :
    (diskMap disk).TakesLeast (hs :: recorded disk' (headerAt disk' hs) (sectorsFor len)) (diskMap disk') := by
  obtain ⟨freeMap, header, least, -⟩ := recycled.places
  exact (first.takesLeast header).append (least large)

/-- Where block `k` is among the sectors recorded. -/
theorem getElem_recorded (disk : Disk) (hdr : FileHeader) {n : Nat} (large : 9 ≤ n) (bound : k < n) :
    (recorded disk hdr n)[if k < 8 then k else k + 1]? = some (dataSector disk hdr k) := by
  rw [recorded_indirect large]
  unfold dataSector
  by_cases direct : k < 8
  · rw [if_pos direct, if_pos direct, List.getElem?_append_left (by rw [length_slots]; omega)]
    simp [slots, show k < 9 by omega]
  · rw [if_neg direct, if_neg direct, List.getElem?_append_right (by rw [length_slots]; omega), length_slots,
      show k + 1 - 9 = k - 8 by omega]
    simp [indirectEntries, show k - 8 < n - 8 by omega]

theorem Recycled.allotted (created : Created layout disk disk' p hs i name isDir len)
    (recycled : Recycled disk disk' hs len) (first : FirstFree disk hs) (several : 2 ≤ sectorsFor len)
    (bound : k < sectorsFor len) :
    Allotted disk (sectorsFor len) k (dataSector disk' (headerAt disk' hs) k) := by
  obtain ⟨low, high, clear⟩ := created.taken.fresh _ (mem_claimed.mpr ⟨_, created.headed.data bound⟩)
  refine ⟨⟨⟨low, high⟩, clear⟩, ?_⟩
  split
  · rename_i large
    refine (recycled.takesLeast first large).clearBelow_getElem ?_
    have place := getElem_recorded disk' (headerAt disk' hs) large bound
    split at place <;> split <;> first | omega | exact place
  · rename_i few
    obtain ⟨freeMap, header, -, run⟩ := recycled.places
    obtain ⟨b, firstRun, places⟩ := run several (by omega)
    refine ⟨hs, freeMap, b, first, header, firstRun, ?_⟩
    rw [dataSector_direct (by omega)]
    exact places k bound

end

end Nachos

namespace Nachos.Loading
open Effects Machine FileHeader OpenFile
open Paging (AddrSpace BackingFile blankTable)

variable {layout : Layout} {disk disk' disk'' : Disk} {vis : Counters} {fault : Fault → Prop}
  {fs : FileSystem} {executable openfile : OpenFile} {e v : Int} {lenE lenV : Nat}
  {segment : Segment} {noffH : NoffHeader}

/-! ## Headers -/

/-- The number of bytes that the loop copies. -/
def Segment.count (segment : Segment) : Nat := segment.size.toInt.toNat

/-- If the segment is not empty, it lies between two addresses. -/
def Segment.Within (segment : Segment) (start stop : Int) : Prop :=
  0 < segment.size.toInt →
    start ≤ segment.virtualAddr.toInt ∧ segment.virtualAddr.toInt + segment.size.toInt ≤ stop

/-- The bytes of the segment are there in a file of `len` bytes. -/
def Segment.Stored (segment : Segment) (len : Nat) : Prop :=
  0 < segment.size.toInt →
    0 ≤ segment.inFileAddr.toInt ∧ segment.inFileAddr.toInt + segment.size.toInt ≤ len

/-- The two address ranges do not overlap. -/
def Segment.Apart (first second : Segment) : Prop :=
  0 < first.size.toInt → 0 < second.size.toInt →
    first.virtualAddr.toInt + first.size.toInt ≤ second.virtualAddr.toInt ∨
      second.virtualAddr.toInt + second.size.toInt ≤ first.virtualAddr.toInt

instance (segment : Segment) (start stop : Int) : Decidable (segment.Within start stop) :=
  inferInstanceAs (Decidable (_ → _))

instance (segment : Segment) (len : Nat) : Decidable (segment.Stored len) :=
  inferInstanceAs (Decidable (_ → _))

instance (first second : Segment) : Decidable (first.Apart second) :=
  inferInstanceAs (Decidable (_ → _ → _))

/-- An address of the segment. -/
def Segment.Covers (segment : Segment) (o : Nat) : Prop :=
  segment.virtualAddr.toNat ≤ o ∧ o < segment.virtualAddr.toNat + segment.count

instance (segment : Segment) (o : Nat) : Decidable (segment.Covers o) :=
  inferInstanceAs (Decidable (_ ∧ _))

/-- The byte of the executable that belongs at an address of the segment. -/
def Segment.byte (segment : Segment) (disk : Disk) (e : Int) (o : Nat) : UInt8 :=
  fileByte disk (headerAt disk e) (segment.inFileAddr.toNat + (o - segment.virtualAddr.toNat))

/-- The first bytes of the executable. -/
def noffHeader (disk : Disk) (e : Int) : NoffHeader := .ofBytes (fileByte disk (headerAt disk e))

theorem ofBytes_congr {bytes bytes' : Memory} (same : ∀ j, j < 40 → bytes j = bytes' j) :
    NoffHeader.ofBytes bytes = .ofBytes bytes' := by
  have word : ∀ i, i + 4 ≤ 40 → bytes.word i = bytes'.word i := fun i bound =>
    Memory.word_congr fun k less => same (i + k) (by omega)
  simp only [NoffHeader.ofBytes, Segment.ofBytes, word _ (show 0 + 4 ≤ 40 by omega),
    word _ (show 4 + 4 ≤ 40 by omega), word _ (show 4 + 4 + 4 ≤ 40 by omega),
    word _ (show 4 + 8 + 4 ≤ 40 by omega), word _ (show 16 + 4 ≤ 40 by omega),
    word _ (show 16 + 4 + 4 ≤ 40 by omega), word _ (show 16 + 8 + 4 ≤ 40 by omega),
    word _ (show 28 + 4 ≤ 40 by omega), word _ (show 28 + 4 + 4 ≤ 40 by omega),
    word _ (show 28 + 8 + 4 ≤ 40 by omega)]

theorem numPages_toNat (noffH : NoffHeader) : noffH.numPages.toNat = sectorsFor noffH.size.toNat := by
  have bound := noffH.size.isLt
  have size : (noffH.size / 128).toNat = noffH.size.toNat / 128 := BitVec.toNat_udiv
  have rest : (noffH.size % 128).toNat = noffH.size.toNat % 128 := BitVec.toNat_umod
  have positive : 0 < noffH.size % 128 ↔ 0 < noffH.size.toNat % 128 := by
    rw [BitVec.lt_def, rest]
    rfl
  unfold NoffHeader.numPages sectorsFor
  split
  · rename_i more
    have left := positive.mp more
    rw [BitVec.toNat_add, size]
    simp only [BitVec.ofNat_eq_ofNat, BitVec.toNat_ofNat]
    omega
  · rename_i none
    have left := mt positive.mpr none
    rw [BitVec.toNat_add, size]
    simp only [BitVec.ofNat_eq_ofNat, BitVec.toNat_ofNat]
    omega

/-- A position that counts up stays a number below the sign bit. -/
theorem toInt_add_ofNat {a : BitVec 32} {j : Nat} (low : 0 ≤ a.toInt) (high : a.toInt + j < 2147483648) :
    (a + BitVec.ofNat 32 j).toInt = ((a.toNat + j : Nat) : Int) := by
  have bound := a.isLt
  rw [BitVec.toInt_eq_toNat_cond] at low high ⊢
  rw [BitVec.toNat_add, BitVec.toNat_ofNat]
  split at low <;> split <;> omega

/-- A number that is not negative is the same with and without sign. -/
theorem toNat_of_nonneg {a : BitVec 32} (low : 0 ≤ a.toInt) : (a.toNat : Int) = a.toInt := by
  have bound := a.isLt
  rw [BitVec.toInt_eq_toNat_cond] at low ⊢
  split at low <;> split <;> omega

/-! ## One segment -/

/-- The loader's two files, through current handles. -/
structure Loader (layout : Layout) (fs : FileSystem) (e v : Int) (lenE lenV : Nat)
    (executable openfile : OpenFile) (disk : Disk) : Prop where
  sheltered : Sheltered layout disk
  mounted : Mounted fs disk
  source : Opened layout disk executable e lenE
  target : Opened layout disk openfile v lenV
  apart : e ≠ v

/-- `count` bytes have been copied from `first` in the executable to `start`; nothing else
has changed in the two files, nor in the root. -/
structure Copied (disk disk' : Disk) (e v : Int) (lenE lenV first start count : Nat) : Prop where
  root : Directory.Same (tableAt disk' 1) (tableAt disk 1)
  kept : ∀ o, o < lenE → fileByte disk' (headerAt disk' e) o = fileByte disk (headerAt disk e) o
  bytes : ∀ o, o < lenV → fileByte disk' (headerAt disk' v) o =
    if start ≤ o ∧ o < start + count then fileByte disk (headerAt disk e) (first + (o - start))
    else fileByte disk (headerAt disk v) o

theorem Loader.idle (loader : Loader layout fs e v lenE lenV executable openfile disk) (first start : Nat) :
    Copied disk disk e v lenE lenV first start 0 := by
  refine ⟨(Quiet.same_table (Frame.refl layout disk _) loader.sheltered loader.sheltered.root), fun _ _ => rfl,
    fun o _ => ?_⟩
  rw [if_neg (by omega)]

/-- One more byte is copied. -/
theorem Loader.ensures_byte {post : OpenFile × OpenFile × Memory → Disk → Counters → Prop}
    {first start k : Nat} {char : Memory}
    (loader : Loader layout fs e v lenE lenV executable openfile disk)
    (copied : Copied disk'' disk e v lenE lenV first start k) (inside : first + k < lenE)
    (within : start + k < lenV)
    (holds : ∀ executable' openfile' char' disk', Loader layout fs e v lenE lenV executable' openfile' disk' →
      Copied disk'' disk' e v lenE lenV first start (k + 1) →
      post (executable', openfile', char') disk' vis) :
    Ensures (do
      let (_, char, executable) ← executable.ReadAt char 1 ((first + k : Nat) : Int)
      let (_, openfile) ← openfile.WriteAt char 1 ((start + k : Nat) : Int)
      return (executable, openfile, char)) post fault disk vis := by
  obtain ⟨sheltered, mounted, source, target, apart⟩ := loader
  apply ensures_bind
  refine source.ensures_ReadAt (n := 1) sheltered (by omega) (by omega) ?_
  intro executable' char' disk₁ quiet source₁ read _
  have sheltered₁ := quiet.sheltered sheltered
  have mounted₁ := mounted.quiet sheltered quiet
  have target₁ := target.quiet sheltered quiet (target.current.quiet quiet target.head)
  apply ensures_bind
  refine target₁.ensures_WriteAt (n := 1) sheltered₁ (by omega) (by omega) ?_
  intro openfile' disk₂ grew target₂ written
  apply ensures_pure
  refine holds executable' openfile' char' disk₂ ⟨grew.sheltered sheltered₁, grew.mounted sheltered₁ mounted₁,
    source₁.other sheltered₁ grew apart, target₂, apart⟩ ⟨?_, fun o bound => ?_, fun o bound => ?_⟩
  · exact ((grew.other_table sheltered₁ sheltered.root).trans
      (quiet.same_table sheltered sheltered.root)).trans copied.root
  · rw [grew.other_byte sheltered₁ source.known apart source₁.headed source₁.small bound,
      quiet.byte sheltered source.head source.headed source.small bound]
    exact copied.kept o bound
  · rw [written o bound]
    by_cases last : o = start + k
    · subst last
      rw [if_pos (by omega), if_pos (by omega), Nat.sub_self, read 0 (by omega), Nat.add_zero,
        copied.kept _ inside, Nat.add_sub_cancel_left]
    · rw [if_neg (by omega), quiet.byte sheltered target.head target.headed target.small bound,
        copied.bytes o bound]
      by_cases before : start ≤ o ∧ o < start + k
      · rw [if_pos before, if_pos (by omega)]
      · rw [if_neg before, if_neg (by omega)]

theorem Loader.ensures_copySegment {post : OpenFile × OpenFile → Disk → Counters → Prop}
    (loader : Loader layout fs e v lenE lenV executable openfile disk) (stored : segment.Stored lenE)
    (within : segment.Within 0 lenV)
    (holds : ∀ executable' openfile' disk', Loader layout fs e v lenE lenV executable' openfile' disk' →
      Copied disk disk' e v lenE lenV segment.inFileAddr.toNat segment.virtualAddr.toNat segment.count →
      post (executable', openfile') disk' vis) :
    Ensures (copySegment executable openfile segment) post fault disk vis := by
  have longE := sectorsFor_le_iff.mp loader.source.headed.fits
  have longV := sectorsFor_le_iff.mp loader.target.headed.fits
  unfold copySegment
  split
  · rename_i positive
    obtain ⟨lowE, highE⟩ := stored positive
    obtain ⟨lowV, highV⟩ := within positive
    have size : (segment.size.toNat : Int) = segment.size.toInt := toNat_of_nonneg positive.le
    have placeE := toNat_of_nonneg lowE
    have placeV := toNat_of_nonneg lowV
    have count : segment.count = segment.size.toNat := by
      unfold Segment.count
      omega
    apply ensures_bind
    apply ensures_uninitialized
    intro storage
    apply ensures_bind
    refine ensures_post (ensures_loop (fun k value disk' vis' => vis = vis' ∧
      Loader layout fs e v lenE lenV value.1 value.2.1 disk' ∧
      Copied disk disk' e v lenE lenV segment.inFileAddr.toNat segment.virtualAddr.toNat k)
      ⟨rfl, loader, loader.idle _ _⟩ ?_) ?_
    · rintro k ⟨executable', openfile', char⟩ disk' vis' less ⟨rfl, loader', copied⟩
      dsimp only
      rw [toInt_add_ofNat lowE (by omega), toInt_add_ofNat lowV (by omega)]
      exact loader'.ensures_byte copied (by omega) (by omega)
        fun executable₂ openfile₂ char₂ disk₂ loader₂ copied₂ => ⟨rfl, loader₂, copied₂⟩
    · rintro ⟨executable', openfile', char⟩ disk' vis' ⟨rfl, loader', copied⟩
      apply ensures_pure
      rw [← count] at copied
      exact holds executable' openfile' disk' loader' copied
  · rename_i empty
    apply ensures_pure
    have none : segment.count = 0 := by
      unfold Segment.count
      omega
    refine holds executable openfile disk loader ?_
    rw [none]
    exact loader.idle _ _

/-! ## Both segments -/

/-- The root has an entry for `virtual_memory`, with its header in sector `v`. -/
def Named (disk : Disk) (v : Int) : Prop :=
  ∃ i, (tableAt disk 1).entryIndex virtualMemory = some i ∧ (tableAt disk 1).sector i = v

theorem virtualMemory_plain : virtualMemory.Plain := by decide

theorem Named.congr (named : Named disk v) (same : Directory.Same (tableAt disk' 1) (tableAt disk 1)) :
    Named disk' v := by
  obtain ⟨i, found, sector⟩ := named
  obtain ⟨bound, -⟩ := Directory.entryIndex_some found
  exact ⟨i, (Directory.entryIndex_congr same _).trans found, (same.entry bound).sector.trans sector⟩

/-- `Open` finds the file again. -/
theorem ensures_Open_named {post : Option OpenFile × FileSystem → Disk → Counters → Prop}
    (sheltered : Sheltered layout disk) (mounted : Mounted fs disk) (named : Named disk v)
    (holds : ∀ fs' file disk' vis', Quiet layout disk disk' → Mounted fs' disk' → Current disk' file v →
      post (some file, fs') disk' vis') :
    Ensures (fs.Open virtualMemory) post fault disk vis := by
  obtain ⟨i, present, sector⟩ := named
  have split := splitPath_of_plain virtualMemory_plain
  obtain ⟨dotIndex, dotLookup⟩ := sheltered.lookup_dot
  refine ensures_Open sheltered sheltered.reach mounted (sheltered.safe_of_plain virtualMemory_plain) ?_ ?_ ?_
  · intro missing
    rw [split, dotIndex] at missing
    cases missing
  · intro fs' disk' p lookup _ missing
    rw [split, dotLookup] at lookup
    rw [lookup, split, present] at missing
    cases missing
  · intro fs' file disk' p j s lookup _ found here quiet mounted' _ current _
    rw [split, dotLookup] at lookup
    rw [lookup, split, present] at found
    cases found
    rw [lookup, sector] at here
    subst here
    exact holds fs' file disk' _ quiet mounted' current

/-- The two segments are in the file, and all else in it is as it was. -/
structure Filled (disk disk' : Disk) (e v : Int) (lenV : Nat) (noffH : NoffHeader) : Prop where
  code : ∀ o, o < lenV → noffH.code.Covers o →
    fileByte disk' (headerAt disk' v) o = noffH.code.byte disk e o
  initData : ∀ o, o < lenV → noffH.initData.Covers o →
    fileByte disk' (headerAt disk' v) o = noffH.initData.byte disk e o
  rest : ∀ o, o < lenV → ¬ noffH.code.Covers o → ¬ noffH.initData.Covers o →
    fileByte disk' (headerAt disk' v) o = fileByte disk (headerAt disk v) o

/-- The file `virtual_memory` of `len` bytes, and where it is. -/
structure Backing (layout : Layout) (fs : FileSystem) (disk : Disk) (v : Int) (len : Nat) : Prop where
  sheltered : Sheltered layout disk
  mounted : Mounted fs disk
  named : Named disk v
  known : v ∈ layout.files
  headed : Headed disk v len
  small : SmallBetween disk v 0 (sectorsFor len)

theorem Backing.head (backing : Backing layout fs disk v lenV) : layout.Head v := .inr (.inr backing.known)

theorem Backing.quiet {fs' : FileSystem} (backing : Backing layout fs disk v lenV)
    (quiet : Quiet layout disk disk') (mounted : Mounted fs' disk') : Backing layout fs' disk' v lenV := by
  have headed := Frame.headed quiet backing.head id backing.headed
  exact ⟨quiet.sheltered backing.sheltered, mounted,
    backing.named.congr (quiet.same_table backing.sheltered backing.sheltered.root), backing.known, headed,
    backing.small.kept headed le_rfl fun _ _ => (quiet.hasPart_iff backing.sheltered backing.head).mp⟩

/-- An address is in one segment at most. -/
theorem Segment.Apart.not_covers {first second : Segment} (apart : first.Apart second) {start stop : Int}
    (inside : first.Within start stop) (inside' : second.Within start stop) (low : 0 ≤ start) {o : Nat}
    (covered : first.Covers o) : ¬ second.Covers o := by
  rintro ⟨low₂, high₂⟩
  obtain ⟨low₁, high₁⟩ := covered
  unfold Segment.count at high₁ high₂
  have positive₁ : 0 < first.size.toInt := by omega
  have positive₂ : 0 < second.size.toInt := by omega
  have place₁ := toNat_of_nonneg (low.trans (inside positive₁).1)
  have place₂ := toNat_of_nonneg (low.trans (inside' positive₂).1)
  rcases apart positive₁ positive₂ with before | after <;> omega

/-- A covered byte of the executable is there. -/
theorem Segment.Covers.inside {o : Nat} (covered : segment.Covers o) (stored : segment.Stored lenE) :
    segment.inFileAddr.toNat + (o - segment.virtualAddr.toNat) < lenE := by
  obtain ⟨low, high⟩ := covered
  unfold Segment.count at high
  have positive : 0 < segment.size.toInt := by omega
  obtain ⟨start, stop⟩ := stored positive
  have place := toNat_of_nonneg start
  omega

/-- Reading before the segments are copied makes no difference. -/
theorem Filled.quiet (filled : Filled disk' disk'' e v lenV noffH) (quiet : Quiet layout disk disk')
    (source : Opened layout disk executable e lenE) (backing : Backing layout fs disk v lenV)
    (stored : ∀ segment ∈ [noffH.code, noffH.initData], segment.Stored lenE) :
    Filled disk disk'' e v lenV noffH where
  code := fun o bound covered => (filled.code o bound covered).trans
    (quiet.byte backing.sheltered source.head source.headed source.small
      (covered.inside (stored _ List.mem_cons_self)))
  initData := fun o bound covered => (filled.initData o bound covered).trans
    (quiet.byte backing.sheltered source.head source.headed source.small
      (covered.inside (stored _ (List.mem_cons_of_mem _ List.mem_cons_self))))
  rest := fun o bound free free' => (filled.rest o bound free free').trans
    (quiet.byte backing.sheltered backing.head backing.headed backing.small bound)

/-- What the constructor does with a file that is long enough. -/
theorem Backing.ensures_loadSegments {post : OpenFile × FileSystem → Disk → Counters → Prop}
    (backing : Backing layout fs disk v lenV) (source : Opened layout disk executable e lenE) (other : e ≠ v)
    (stored : ∀ segment ∈ [noffH.code, noffH.initData], segment.Stored lenE)
    (within : ∀ segment ∈ [noffH.code, noffH.initData], segment.Within 0 lenV)
    (apart : noffH.code.Apart noffH.initData)
    (holds : ∀ executable' fs' disk' vis', Backing layout fs' disk' v lenV →
      Filled disk disk' e v lenV noffH → post (executable', fs') disk' vis') :
    Ensures (loadSegments fs executable noffH) post fault disk vis := by
  obtain ⟨sheltered, mounted, named, known, headed, small⟩ := backing
  have head : layout.Head v := .inr (.inr known)
  have storedCode := stored _ (by simp : noffH.code ∈ _)
  have storedInit := stored _ (by simp : noffH.initData ∈ _)
  have withinCode := within _ (by simp : noffH.code ∈ _)
  have withinInit := within _ (by simp : noffH.initData ∈ _)
  apply ensures_bind
  refine ensures_Open_named sheltered mounted named ?_
  intro fs₁ openfile disk₁ vis₁ quiet mounted₁ current
  have sheltered₁ := quiet.sheltered sheltered
  have headed₁ := Frame.headed quiet head id headed
  have target : Opened layout disk₁ openfile v lenV := ⟨known, headed₁, current,
    small.kept headed₁ le_rfl fun _ _ => (quiet.hasPart_iff sheltered head).mp⟩
  have source₁ := source.quiet sheltered quiet (source.current.quiet quiet source.head)
  have loader : Loader layout fs₁ e v lenE lenV executable openfile disk₁ :=
    ⟨sheltered₁, mounted₁, source₁, target, other⟩
  apply ensures_bind
  refine loader.ensures_copySegment storedCode withinCode ?_
  intro executable₂ openfile₂ disk₂ loader₂ copied₂
  apply ensures_bind
  refine loader₂.ensures_copySegment storedInit withinInit ?_
  intro executable₃ openfile₃ disk₃ loader₃ copied₃
  obtain ⟨sheltered₃, mounted₃, source₃, target₃, -⟩ := loader₃
  have number := sheltered₃.number target₃.head target₃.current
  apply ensures_bind
  refine ensures_delete (by rw [number]; exact sheltered₃.valid_head target₃.head) ?_
  apply ensures_pure
  have fromStart : ∀ o, o < lenE →
      fileByte disk₁ (headerAt disk₁ e) o = fileByte disk (headerAt disk e) o := fun o bound =>
    quiet.byte sheltered source.head source.headed source.small bound
  have root := copied₃.root.trans (copied₂.root.trans (quiet.same_table sheltered sheltered.root))
  refine holds executable₃ fs₁ disk₃ _ ⟨sheltered₃, mounted₃, named.congr root, known, target₃.headed,
    target₃.small⟩ ⟨fun o bound covered => ?_, fun o bound covered => ?_, fun o bound free free' => ?_⟩
  · have notInit := apart.not_covers withinCode withinInit le_rfl covered
    unfold Segment.Covers at covered notInit
    rw [copied₃.bytes o bound, if_neg notInit, copied₂.bytes o bound, if_pos covered]
    exact fromStart _ (Segment.Covers.inside covered storedCode)
  · have inside := covered.inside storedInit
    unfold Segment.Covers at covered
    rw [copied₃.bytes o bound, if_pos covered, copied₂.kept _ inside]
    exact fromStart _ inside
  · unfold Segment.Covers at free free'
    rw [copied₃.bytes o bound, if_neg free', copied₂.bytes o bound, if_neg free]
    exact quiet.byte sheltered head headed small bound

/-- A byte of the file as it is read back later. -/
theorem Backing.ensures_readBack {post : Int × UInt8 → Disk → Counters → Prop} {o : Nat}
    (backing : Backing layout fs disk v lenV) (inside : o < lenV)
    (holds : ∀ disk' vis', post (1, fileByte disk (headerAt disk v) o) disk' vis') :
    Ensures (readBack fs o) post fault disk vis := by
  obtain ⟨sheltered, mounted, named, known, headed, small⟩ := backing
  have head : layout.Head v := .inr (.inr known)
  apply ensures_bind
  refine ensures_Open_named sheltered mounted named ?_
  intro fs₁ openfile disk₁ vis₁ quiet _ current
  have sheltered₁ := quiet.sheltered sheltered
  have headed₁ := Frame.headed quiet head id headed
  have target : Opened layout disk₁ openfile v lenV := ⟨known, headed₁, current,
    small.kept headed₁ le_rfl fun _ _ => (quiet.hasPart_iff sheltered head).mp⟩
  apply ensures_bind
  apply ensures_uninitialized
  intro storage
  apply ensures_bind
  refine target.ensures_ReadAt (n := 1) sheltered₁ (by omega) (by omega) ?_
  intro openfile' bytes disk₂ quiet₂ opened copied _
  have sheltered₂ := quiet₂.sheltered sheltered₁
  have number := sheltered₂.number opened.head opened.current
  apply ensures_bind
  refine ensures_delete (by rw [number]; exact sheltered₂.valid_head opened.head) ?_
  apply ensures_pure
  rw [copied 0 (by omega), Nat.add_zero, quiet.byte sheltered head headed small inside]
  exact holds _ _

/-! ## A new file -/

theorem sectorsFor_pages (pages : Nat) : sectorsFor (pages * PageSize) = pages := by
  unfold sectorsFor
  simp only [PageSize]
  omega

/-- There is an entry for the file in the root and room for it on the disk, from nine
pages on in low sectors. -/
structure Roomy (disk : Disk) (pages : Nat) : Prop where
  slot : (tableAt disk 1).freeSlot ≠ none
  low : pages + 2 ≤ (diskMap disk).clearBelow 128
  run : pages ≤ 8 → ∀ hs freeMap, (diskMap disk).Takes [hs] freeMap → ∃ b, freeMap.FirstRun pages b

theorem Roomy.free {pages : Nat} (roomy : Roomy disk pages) : pages + 2 ≤ (diskMap disk).freeCount :=
  roomy.low.trans (BitMap.clearBelow_le_freeCount (by decide : 128 ≤ 1024))

theorem Roomy.not_full {pages : Nat} (roomy : Roomy disk pages) :
    ¬ ∀ s, ValidSector s → (diskMap disk).Marked s := by
  intro full
  have none : (diskMap disk).clearBelow 128 = 0 := by
    refine Finset.card_eq_zero.mpr (Finset.filter_eq_empty_iff.mpr fun s member clear => ?_)
    have bound := Finset.mem_range.mp member
    have marked := (full s ⟨by omega, by simp only [NumSectors, SectorsPerTrack, NumTracks]; omega⟩).2.2
    rw [Int.toNat_natCast, clear] at marked
    cases marked
  have low := roomy.low
  omega

theorem Roomy.quiet {pages : Nat} (roomy : Roomy disk pages) (sheltered : Sheltered layout disk)
    (quiet : Quiet layout disk disk') : Roomy disk' pages := by
  have map := quiet.map sheltered
  refine ⟨?_, ?_, fun few hs freeMap taken => ?_⟩
  · rw [Directory.freeSlot_congr (quiet.same_table sheltered sheltered.root)]
    exact roomy.slot
  · rw [map.clearBelow (by decide : 128 ≤ 1024)]
    exact roomy.low
  · exact roomy.run few hs freeMap (taken.congr map.symm (BitMap.Same.refl _))

/-- The blocks of the new file lie in low sectors. -/
theorem small_of_recycled {hs : Int} {len : Nat} (recycled : Recycled disk disk' hs len)
    (first : FirstFree disk hs) (low : sectorsFor len + 2 ≤ (diskMap disk).clearBelow 128) :
    SmallBetween disk' hs 0 (sectorsFor len) := by
  intro k far _ bound
  have large : 9 ≤ sectorsFor len := by omega
  have taken := recycled.takesLeast first large
  have small := (taken.all_below_iff (by decide : 128 ≤ 1024)).mpr (by
    rw [List.length_cons, length_recorded, need, if_neg (by omega)]
    exact low)
  have place := getElem_recorded disk' (headerAt disk' hs) large bound
  exact small _ (List.mem_cons_of_mem _ (List.mem_of_getElem? place))

/-- The name has no extension. -/
theorem virtualMemory_short : ShortExtension virtualMemory := by decide

section Create

variable {post : Bool × FileSystem → Disk → Counters → Prop} {pages : Nat}

theorem ensures_Create_backing (sheltered : Sheltered layout disk) (mounted : Mounted fs disk)
    (absent : (tableAt disk 1).entryIndex virtualMemory = none) (roomy : Roomy disk pages) (fits : pages ≤ 40)
    (holds : ∀ fs' disk' hs i, Created layout disk disk' 1 hs i virtualMemory false (pages * PageSize) →
      Recycled disk disk' hs (pages * PageSize) → FirstFree disk hs →
      Backing (layout.add hs false) fs' disk' hs (pages * PageSize) → post (true, fs') disk' vis) :
    Ensures (fs.Create virtualMemory ((pages * PageSize : Nat) : Int)) post fault disk vis := by
  have split := splitPath_of_plain virtualMemory_plain
  obtain ⟨dotIndex, dotLookup⟩ := sheltered.lookup_dot
  have free := roomy.free
  have sectors := sectorsFor_pages pages
  refine ensures_Create_file sheltered sheltered.reach mounted (sheltered.safe_of_plain virtualMemory_plain)
    virtualMemory_short (by omega) (by omega) ?_ ?_ ?_
  · rintro few (missing | ⟨hs, freeMap, taken, none⟩)
    · rw [split, dotIndex] at missing
      cases missing
    · rcases few with missing | few
      · rw [split, dotIndex] at missing
        cases missing
      · rw [sectors] at few none
        obtain ⟨b, run⟩ := roomy.run few hs freeMap taken
        exact absurd run (none b)
  · rintro fs' disk' ((present | full | full) | lacking)
    · rw [split, dotLookup] at present
      exact absurd absent present
    · rw [split, dotLookup] at full
      exact absurd full roomy.slot
    · exact absurd full roomy.not_full
    · omega
  · intro fs' disk' p hs i lookup first created recycled mounted'
    rw [split] at lookup created
    rw [dotLookup] at lookup
    subst lookup
    have entry := created.new_entry sheltered
    refine holds fs' disk' hs i created recycled first ⟨created.sheltered sheltered, mounted',
      ⟨i, created.entryIndex_new sheltered, entry.2.1⟩, .inl rfl, created.headed,
      small_of_recycled recycled first ?_⟩
    rw [sectors]
    exact roomy.low

/-- A file of more than forty pages is never made. -/
theorem ensures_Create_huge (sheltered : Sheltered layout disk) (mounted : Mounted fs disk)
    (absent : (tableAt disk 1).entryIndex virtualMemory = none) (roomy : Roomy disk pages)
    (huge : 40 < pages) (bound : pages ≤ NumPhysPages) (stops : fault .undefined) :
    Ensures (fs.Create virtualMemory ((pages * PageSize : Nat) : Int)) post fault disk vis := by
  have split := splitPath_of_plain virtualMemory_plain
  obtain ⟨dotIndex, dotLookup⟩ := sheltered.lookup_dot
  have free := roomy.free
  have sectors := sectorsFor_pages pages
  change pages ≤ 64 at bound
  refine ensures_Create sheltered sheltered.reach mounted (sheltered.safe_of_plain virtualMemory_plain) ?_ ?_ ?_
  · intro missing
    rw [split, dotIndex] at missing
    cases missing
  · intro fs' disk' p lookup reason _ _ _
    rw [split, dotLookup] at lookup
    subst lookup
    rcases reason with present | full | full
    · rw [split] at present
      exact absurd absent present
    · exact absurd full roomy.slot
    · exact absurd full roomy.not_full
  · intro fs' file disk' base hs freeMap i p hdr lookup near quiet mounted' _ current same taken least
      absent' slot
    have count := BitMap.freeCount_takes taken
    have before := (quiet.map sheltered).freeCount
    simp only [List.length_cons, List.length_nil] at count
    rw [if_neg (by omega)]
    unfold FileSystem.createFile
    apply ensures_bind
    refine ensures_Allocate_huge taken.size (by omega) (by simp only [PageSize]; omega) (by omega) stops

end Create

/-! ## The whole constructor -/

/-- A handle on an executable that passes the checks of the constructor, and is long
enough. -/
structure Loadable (layout : Layout) (fs : FileSystem) (executable : OpenFile) (e : Int) (lenE : Nat)
    (disk : Disk) : Prop where
  sheltered : Sheltered layout disk
  mounted : Mounted fs disk
  opened : Opened layout disk executable e lenE
  long : noffSize ≤ lenE
  magic : (noffHeader disk e).noffMagic = NOFFMAGIC
  pages : (noffHeader disk e).numPages.toNat ≤ NumPhysPages
  stored : ∀ segment ∈ [(noffHeader disk e).code, (noffHeader disk e).initData], segment.Stored lenE
  apart : (noffHeader disk e).code.Apart (noffHeader disk e).initData

/-- The length of the file that the constructor asks for. -/
def NoffHeader.space (noffH : NoffHeader) : Nat := noffH.numPages.toNat * PageSize

theorem toInt_space (few : noffH.numPages.toNat ≤ NumPhysPages) :
    (noffH.numPages * 128).toInt = (noffH.space : Int) := by
  change noffH.numPages.toNat ≤ 64 at few
  have product : (noffH.numPages * 128).toNat = noffH.numPages.toNat * 128 := by
    rw [BitVec.toNat_mul]
    simp only [BitVec.ofNat_eq_ofNat, BitVec.toNat_ofNat]
    omega
  unfold NoffHeader.space
  simp only [PageSize]
  rw [BitVec.toInt_eq_toNat_cond, product]
  split <;> omega

/-- The constructor up to `Create`. -/
theorem Loadable.ensures_header {post : AddrSpace × OpenFile × FileSystem → Disk → Counters → Prop}
    (loadable : Loadable layout fs executable e lenE disk)
    (holds : ∀ executable' disk', Quiet layout disk disk' → Opened layout disk' executable' e lenE →
      Ensures (do
        let (_, fs) ← fs.Create virtualMemory ((noffHeader disk e).space : Int)
        let (executable, fs) ← loadSegments fs executable' (noffHeader disk e)
        return ({ pageTable := blankTable, numPages := (noffHeader disk e).numPages }, executable, fs))
        post fault disk' vis) :
    Ensures (newAddrSpace fs executable) post fault disk vis := by
  apply ensures_bind
  apply ensures_uninitialized
  intro storage
  apply ensures_bind
  have long : 0 + noffSize ≤ lenE := loadable.long
  refine loadable.opened.ensures_ReadAt loadable.sheltered (by decide) long ?_
  intro executable' bytes disk' quiet opened read _
  have header : NoffHeader.ofBytes bytes = noffHeader disk e := ofBytes_congr fun j bound => by
    rw [read j bound, Nat.zero_add]
  dsimp only
  rw [header]
  apply ensures_bind
  refine ensures_ASSERT (beq_iff_eq.mpr loadable.magic) ?_
  apply ensures_bind
  refine ensures_ASSERT (decide_eq_true (BitVec.le_def.mpr loadable.pages)) ?_
  rw [toInt_space loadable.pages]
  exact holds executable' disk' quiet opened

/-- If the constructor returns, the space has the pages of the header. -/
theorem Loadable.ensures_pages (loadable : Loadable layout fs executable e lenE disk) :
    Ensures (newAddrSpace fs executable) (fun result _ _ => result.1.numPages = (noffHeader disk e).numPages)
      (fun _ => True) disk vis := by
  refine loadable.ensures_header fun executable' disk' _ _ => ?_
  apply ensures_bind
  refine ensures_any (fun _ => trivial) fun _ _ _ => ?_
  apply ensures_bind
  exact ensures_any (fun _ => trivial) fun _ _ _ => ensures_pure rfl

/-- What the constructor leaves in a new file: the segments, and elsewhere what its
sectors held before. -/
structure Made (disk disk' : Disk) (e v : Int) (noffH : NoffHeader) : Prop where
  code : ∀ o, o < noffH.space → noffH.code.Covers o →
    fileByte disk' (headerAt disk' v) o = noffH.code.byte disk e o
  initData : ∀ o, o < noffH.space → noffH.initData.Covers o →
    fileByte disk' (headerAt disk' v) o = noffH.initData.byte disk e o
  rest : ∀ o, o < noffH.space → ¬ noffH.code.Covers o → ¬ noffH.initData.Covers o →
    ∃ s, Allotted disk noffH.numPages.toNat (o / 128) s ∧
      fileByte disk' (headerAt disk' v) o = (disk s).mem (o % 128)

theorem Loadable.ensures_new {post : AddrSpace × OpenFile × FileSystem → Disk → Counters → Prop}
    (loadable : Loadable layout fs executable e lenE disk)
    (absent : (tableAt disk 1).entryIndex virtualMemory = none)
    (roomy : Roomy disk (noffHeader disk e).numPages.toNat) (several : 2 ≤ (noffHeader disk e).numPages.toNat)
    (fits : (noffHeader disk e).numPages.toNat ≤ 40)
    (within : ∀ segment ∈ [(noffHeader disk e).code, (noffHeader disk e).initData],
      segment.Within 0 (noffHeader disk e).space)
    (holds : ∀ executable' fs' disk' vis' v, Backing (layout.add v false) fs' disk' v (noffHeader disk e).space →
      Made disk disk' e v (noffHeader disk e) →
      post ({ pageTable := blankTable, numPages := (noffHeader disk e).numPages }, executable', fs') disk' vis') :
    Ensures (newAddrSpace fs executable) post fault disk vis := by
  refine loadable.ensures_header fun executable₁ disk₁ quiet opened₁ => ?_
  have sheltered := loadable.sheltered
  have sheltered₁ := quiet.sheltered sheltered
  have sameRoot := quiet.same_table sheltered sheltered.root
  apply ensures_bind
  refine ensures_Create_backing sheltered₁ (loadable.mounted.quiet sheltered quiet)
    ((Directory.entryIndex_congr sameRoot _).trans absent) (roomy.quiet sheltered quiet) fits ?_
  intro fs₂ disk₂ v i created recycled first backing
  have notHead := created.not_head sheltered₁
  have other : e ≠ v := by
    rintro rfl
    exact notHead opened₁.head
  have opened₂ := opened₁.edited sheltered₁ created.toEdited v
  apply ensures_bind
  refine backing.ensures_loadSegments opened₂ other loadable.stored within loadable.apart ?_
  intro executable₃ fs₃ disk₃ vis₃ backing₃ filled
  apply ensures_pure
  have source : ∀ o, o < lenE →
      fileByte disk₂ (headerAt disk₂ e) o = fileByte disk (headerAt disk e) o := fun o bound =>
    (created.toEdited.byte sheltered₁ opened₁.known opened₁.headed opened₁.small bound).trans
      (quiet.byte sheltered loadable.opened.head loadable.opened.headed loadable.opened.small bound)
  refine holds executable₃ fs₃ disk₃ vis₃ v backing₃ ⟨fun o bound covered => ?_, fun o bound covered => ?_,
    fun o bound free free' => ?_⟩
  · exact (filled.code o bound covered).trans
      (source _ (covered.inside (loadable.stored _ (List.mem_cons_self))))
  · exact (filled.initData o bound covered).trans
      (source _ (covered.inside (loadable.stored _ (List.mem_cons_of_mem _ List.mem_cons_self))))
  · have block : o / 128 < sectorsFor (noffHeader disk e).space := lt_sectorsFor_iff.mpr (by omega)
    have part := backing.headed.data block
    have sectors : sectorsFor (noffHeader disk e).space = (noffHeader disk e).numPages.toNat := sectorsFor_pages _
    have allotted : Allotted disk₁ (sectorsFor (noffHeader disk e).space) (o / 128) _ :=
      recycled.allotted created first (several.trans_eq sectors.symm) block
    rw [sectors] at allotted
    refine ⟨_, allotted.quiet quiet sheltered, (filled.rest o bound free free').trans ?_⟩
    have clear := (allotted.quiet quiet sheltered).1.2
    unfold fileByte
    rw [backing.sheltered.block_place backing.head backing.headed backing.small block,
      recycled.bytes _ block, quiet.others _ (fun known => clear (sheltered.head_marked known)) id]

/-- An old file is not made again. -/
theorem Loadable.ensures_old {post : AddrSpace × OpenFile × FileSystem → Disk → Counters → Prop}
    (loadable : Loadable layout fs executable e lenE disk) (backing : Backing layout fs disk v lenV)
    (other : e ≠ v)
    (within : ∀ segment ∈ [(noffHeader disk e).code, (noffHeader disk e).initData], segment.Within 0 lenV)
    (holds : ∀ executable' fs' disk' vis', Backing layout fs' disk' v lenV →
      Filled disk disk' e v lenV (noffHeader disk e) →
      post ({ pageTable := blankTable, numPages := (noffHeader disk e).numPages }, executable', fs') disk' vis') :
    Ensures (newAddrSpace fs executable) post fault disk vis := by
  refine loadable.ensures_header fun executable₁ disk₁ quiet opened₁ => ?_
  have sheltered := loadable.sheltered
  have backing₁ := backing.quiet quiet (loadable.mounted.quiet sheltered quiet)
  have split := splitPath_of_plain virtualMemory_plain
  obtain ⟨dotIndex, dotLookup⟩ := backing₁.sheltered.lookup_dot
  obtain ⟨i, present, -⟩ := backing₁.named
  apply ensures_bind
  refine ensures_Create backing₁.sheltered backing₁.sheltered.reach backing₁.mounted
    (backing₁.sheltered.safe_of_plain virtualMemory_plain) ?_ ?_ ?_
  · intro missing
    rw [split, dotIndex] at missing
    cases missing
  · intro fs₂ disk₂ p lookup reason quiet₂ mounted₂ _
    have backing₂ := backing₁.quiet quiet₂ mounted₂
    have opened₂ := opened₁.quiet backing₁.sheltered quiet₂ (opened₁.current.quiet quiet₂ opened₁.head)
    apply ensures_bind
    refine backing₂.ensures_loadSegments opened₂ other loadable.stored within loadable.apart ?_
    intro executable₃ fs₃ disk₃ vis₃ backing₃ filled
    apply ensures_pure
    exact holds executable₃ fs₃ disk₃ vis₃ backing₃
      ((filled.quiet quiet₂ opened₁ backing₁ loadable.stored).quiet quiet loadable.opened backing loadable.stored)
  · intro fs₂ file disk₂ base hs freeMap i p hdr lookup near quiet₂ mounted₂ _ current same taken least
      absent slot
    rw [split, dotLookup] at lookup
    subst lookup
    rw [split, Directory.entryIndex_congr same,
      Directory.entryIndex_congr (quiet₂.same_table backing₁.sheltered backing₁.sheltered.root), present] at absent
    cases absent

/-- More than forty pages: the constructor does not return. -/
theorem Loadable.ensures_huge {post : AddrSpace × OpenFile × FileSystem → Disk → Counters → Prop}
    (loadable : Loadable layout fs executable e lenE disk)
    (absent : (tableAt disk 1).entryIndex virtualMemory = none)
    (roomy : Roomy disk (noffHeader disk e).numPages.toNat) (huge : 40 < (noffHeader disk e).numPages.toNat)
    (stops : fault .undefined) : Ensures (newAddrSpace fs executable) post fault disk vis := by
  refine loadable.ensures_header fun executable₁ disk₁ quiet _ => ?_
  have sheltered := loadable.sheltered
  have sameRoot := quiet.same_table sheltered sheltered.root
  apply ensures_bind
  exact ensures_Create_huge (quiet.sheltered sheltered) (loadable.mounted.quiet sheltered quiet)
    ((Directory.entryIndex_congr sameRoot _).trans absent) (roomy.quiet sheltered quiet) huge loadable.pages
    stops

end Nachos.Loading
