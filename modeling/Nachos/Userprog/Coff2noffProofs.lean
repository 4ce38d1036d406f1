import Nachos.Userprog.Coff2noff
import Nachos.Userprog.LoadingProofs

/-! What `coff2noff` makes of a COFF file. The conversion loop is followed section by
section: `Converted` says what the variables hold once some of the sections are
done, and `convertSection_outcome` how a section can end the program instead. -/
namespace Nachos.Coff2noff
open Effects Loading

/-! ## Sections -/

/-- Sizes and positions in a COFF file are not negative. -/
def Scnhdr.Sane (s : Scnhdr) : Prop := 0 ≤ s.s_size.toInt ∧ 0 ≤ s.s_scnptr.toInt

structure CoffFile extends File where
  sane : ∀ s ∈ toFile.sections, s.Sane

namespace Scnhdr

/-- A non-empty `.text` section. -/
def isText (s : Scnhdr) : Bool := s.s_size != 0 && s.named textName

/-- A non-empty `.data` or `.rdata` section. -/
def isData (s : Scnhdr) : Bool := s.s_size != 0 && (s.named dataName || s.named rdataName)

def isBss (s : Scnhdr) : Bool := s.s_size != 0 && s.named bssName

def isSbss (s : Scnhdr) : Bool := s.s_size != 0 && s.named sbssName

def isUninit (s : Scnhdr) : Bool := s.isBss || s.isSbss

/-- The sections whose bytes are copied. -/
def isLoaded (s : Scnhdr) : Bool := s.isText || s.isData

/-- The addresses of a section are those from `start` to `stop`. -/
def start (s : Scnhdr) : Int := s.s_paddr.toInt

def len (s : Scnhdr) : Int := s.s_size.toInt

def stop (s : Scnhdr) : Int := s.start + s.len

/-- The names differ in their second character. -/
theorem named_second {s : Scnhdr} {name : Name} (named : s.named name) (long : 1 ≤ name.length) :
    s.s_name.mem 1 = name.chars 1 := by
  have all := List.all_eq_true.mp named 1 (List.mem_range.mpr (by omega))
  exact beq_iff_eq.mp all

theorem named_unique {s : Scnhdr} {name name' : Name} (named : s.named name) (long : 1 ≤ name.length)
    (long' : 1 ≤ name'.length) (differ : name.chars 1 ≠ name'.chars 1) : s.named name' = false := by
  rw [Bool.eq_false_iff]
  intro named'
  exact differ ((named_second named long).symm.trans (named_second named' long'))

theorem named_text {s : Scnhdr} (text : s.named textName) :
    s.named dataName = false ∧ s.named rdataName = false ∧
      s.named bssName = false ∧ s.named sbssName = false := by
  have other : ∀ {name : Name}, 1 ≤ name.length → textName.chars 1 ≠ name.chars 1 → s.named name = false :=
    named_unique text (by decide)
  exact ⟨other (by decide) (by decide), other (by decide) (by decide),
    other (by decide) (by decide), other (by decide) (by decide)⟩

theorem named_data {s : Scnhdr} (data : s.named dataName || s.named rdataName) :
    s.named textName = false ∧ s.named bssName = false ∧ s.named sbssName = false := by
  rcases Bool.or_eq_true_iff.mp data with data | rdata
  · have other : ∀ {name : Name}, 1 ≤ name.length → dataName.chars 1 ≠ name.chars 1 → s.named name = false :=
      named_unique data (by decide)
    exact ⟨other (by decide) (by decide), other (by decide) (by decide), other (by decide) (by decide)⟩
  · have other : ∀ {name : Name}, 1 ≤ name.length → rdataName.chars 1 ≠ name.chars 1 → s.named name = false :=
      named_unique rdata (by decide)
    exact ⟨other (by decide) (by decide), other (by decide) (by decide), other (by decide) (by decide)⟩

end Scnhdr

/-! ## The header in the file -/

theorem word_storeSegment_of_disjoint {bytes : Memory} {start i : Nat} {segment : Segment}
    (disjoint : i + 4 ≤ start ∨ start + 12 ≤ i) :
    (storeSegment bytes start segment).word i = bytes.word i := by
  rw [storeSegment, Memory.word_setWord_of_disjoint (by omega), Memory.word_setWord_of_disjoint (by omega),
    Memory.word_setWord_of_disjoint (by omega)]

theorem ofBytes_storeSegment (bytes : Memory) (start : Nat) (segment : Segment) :
    Segment.ofBytes (storeSegment bytes start segment) start = segment := by
  have first : (storeSegment bytes start segment).word start = segment.virtualAddr := by
    rw [storeSegment, Memory.word_setWord_of_disjoint (by omega),
      Memory.word_setWord_of_disjoint (by omega), Memory.word_setWord]
  have second : (storeSegment bytes start segment).word (start + 4) = segment.inFileAddr := by
    rw [storeSegment, Memory.word_setWord_of_disjoint (by omega), Memory.word_setWord]
  have third : (storeSegment bytes start segment).word (start + 8) = segment.size := by
    rw [storeSegment, Memory.word_setWord]
  rw [Segment.ofBytes, first, second, third]

theorem ofBytes_storeSegment_of_disjoint {bytes : Memory} {start i : Nat} {segment : Segment}
    (disjoint : i + 12 ≤ start ∨ start + 12 ≤ i) :
    Segment.ofBytes (storeSegment bytes start segment) i = .ofBytes bytes i := by
  rw [Segment.ofBytes, word_storeSegment_of_disjoint (by omega), word_storeSegment_of_disjoint (by omega),
    word_storeSegment_of_disjoint (by omega), Segment.ofBytes]

/-- The header that is written is the one `noffH` holds. -/
theorem ofBytes_headerBytes (noffH : NoffHeader) : NoffHeader.ofBytes (headerBytes noffH) = noffH := by
  have magic : (headerBytes noffH).word 0 = noffH.noffMagic := by
    rw [headerBytes, word_storeSegment_of_disjoint (by omega), word_storeSegment_of_disjoint (by omega),
      word_storeSegment_of_disjoint (by omega), Memory.word_setWord]
  have code : Segment.ofBytes (headerBytes noffH) 4 = noffH.code := by
    rw [headerBytes, ofBytes_storeSegment_of_disjoint (by omega), ofBytes_storeSegment_of_disjoint (by omega),
      ofBytes_storeSegment]
  have initData : Segment.ofBytes (headerBytes noffH) 16 = noffH.initData := by
    rw [headerBytes, ofBytes_storeSegment_of_disjoint (by omega), ofBytes_storeSegment]
  have uninitData : Segment.ofBytes (headerBytes noffH) 28 = noffH.uninitData := by
    rw [headerBytes, ofBytes_storeSegment]
  rw [NoffHeader.ofBytes, magic, code, initData, uninitData]

/-! ## Sections in order -/

section Order
variable {P : List Scnhdr → Scnhdr → Prop} {sections rest : List Scnhdr} {s : Scnhdr}

/-- A section that is not the first one, and those before it, satisfy `P`. -/
def Later (P : List Scnhdr → Scnhdr → Prop) (sections : List Scnhdr) : Prop :=
  ∃ before s after, sections = before ++ s :: after ∧ before ≠ [] ∧ P before s

theorem later_append (later : Later P sections) : Later P (sections ++ rest) := by
  obtain ⟨before, s, after, split, nonempty, holds⟩ := later
  exact ⟨before, s, after ++ rest, by rw [split, List.append_assoc, List.cons_append], nonempty, holds⟩

theorem later_concat : Later P (sections ++ [s]) ↔ Later P sections ∨ (sections ≠ [] ∧ P sections s) := by
  constructor
  · rintro ⟨before, s', after, split, nonempty, holds⟩
    rcases List.eq_nil_or_concat after with rfl | ⟨after, last, rfl⟩
    · obtain ⟨rfl, same⟩ := List.append_inj' split rfl
      cases same
      exact .inr ⟨nonempty, holds⟩
    · rw [List.concat_eq_append, ← List.cons_append, ← List.append_assoc] at split
      exact .inl ⟨before, s', after, (List.append_inj' split rfl).1, nonempty, holds⟩
  · rintro (later | ⟨nonempty, holds⟩)
    · exact later_append later
    · exact ⟨sections, s, [], rfl, nonempty, holds⟩

theorem not_later_nil : ¬ Later P [] := by
  rintro ⟨before, s, after, split, -, -⟩
  exact absurd split.symm (by simp)

theorem not_later_one : ¬ Later P [s] := by
  rw [← List.nil_append [s], later_concat]
  rintro (later | ⟨nonempty, -⟩)
  · exact not_later_nil later
  · exact nonempty rfl

theorem later_two {first second : Scnhdr} : Later P [first, second] ↔ P [first] second := by
  rw [← List.singleton_append, later_concat]
  constructor
  · rintro (later | ⟨-, holds⟩)
    · exact absurd later not_later_one
    · exact holds
  · exact fun holds => .inr ⟨by simp, holds⟩

end Order

/-- The sizes of the sections, added up as `int`s. -/
def sizeSum (sections : List Scnhdr) : BitVec 32 :=
  sections.foldl (fun total s => total + s.s_size) 0

/-- The address of the first section. -/
def firstAddr : List Scnhdr → BitVec 32
  | [] => 0
  | s :: _ => s.s_paddr

/-- The sections that one segment is made of: all of them, but for those before a
section at which the sizes so far came to zero. -/
def joint (sections : List Scnhdr) : List Scnhdr :=
  sections.foldl (fun before s => if sizeSum before = 0 then [s] else before ++ [s]) []

/-- The section begins where those before it would end if each began at the end of the
one before it. -/
def Joined (before : List Scnhdr) (s : Scnhdr) : Prop :=
  sizeSum (joint before) ≠ 0 ∧ s.s_paddr = firstAddr (joint before) + sizeSum (joint before)

theorem sizeSum_concat (sections : List Scnhdr) (s : Scnhdr) :
    sizeSum (sections ++ [s]) = sizeSum sections + s.s_size := by
  rw [sizeSum, List.foldl_concat]
  rfl

theorem sizeSum_one (s : Scnhdr) : sizeSum [s] = s.s_size := by simp [sizeSum]

theorem joint_concat (sections : List Scnhdr) (s : Scnhdr) : joint (sections ++ [s]) =
    if sizeSum (joint sections) = 0 then [s] else joint sections ++ [s] := by
  rw [joint, List.foldl_concat]
  rfl

theorem firstAddr_append {sections : List Scnhdr} (nonempty : sizeSum sections ≠ 0) (rest : List Scnhdr) :
    firstAddr (sections ++ rest) = firstAddr sections := by
  cases sections with
  | nil => exact absurd rfl nonempty
  | cons s sections => rfl

/-! ## What is kept while the sections are converted -/

/-- The segment has the address, the size and the bytes of the section. -/
structure Placed (file noff : File) (segment : Segment) (s : Scnhdr) : Prop where
  address : segment.virtualAddr = s.s_paddr
  size : segment.size = s.s_size
  stored : segment.inFileAddr.toNat + s.s_size.toNat ≤ noff.size
  bytes : ∀ k < s.s_size.toNat,
    noff.bytes (segment.inFileAddr.toNat + k) = file.bytes (s.s_scnptr.toNat + k)

/-- The bytes of a segment, if it has any, lie behind the header and before `stop`. -/
def Stored (segment : Segment) (stop : Nat) : Prop :=
  segment.size ≠ 0 →
    noffSize ≤ segment.inFileAddr.toNat ∧ segment.inFileAddr.toNat + segment.size.toNat ≤ stop

/-- Two segments have no byte of the file in common. -/
def Apart (first second : Segment) : Prop :=
  first.size ≠ 0 → second.size ≠ 0 →
    first.inFileAddr.toNat + first.size.toNat ≤ second.inFileAddr.toNat ∨
      second.inFileAddr.toNat + second.size.toNat ≤ first.inFileAddr.toNat

def loadedSize (sections : List Scnhdr) : Nat :=
  ((sections.filter Scnhdr.isLoaded).map fun s => s.s_size.toNat).sum

/-- The conditions on the sections that have nothing to do with `.bss` and `.sbss`. -/
structure Convertible (file : File) (sections : List Scnhdr) : Prop where
  known : ∀ s ∈ sections, s.s_size ≠ 0 → s.isLoaded ∨ s.isUninit
  single : (sections.filter Scnhdr.isData).length ≤ 1
  stored : ∀ s ∈ sections, s.isLoaded → s.s_scnptr.toNat + s.s_size.toNat ≤ file.size
  fits : noffSize + loadedSize sections ≤ 2147483647

/-- The segment is one of the sections of a kind, or there is none. -/
def Holds (file noff : File) (kind : Scnhdr → Bool) (sections : List Scnhdr) (segment : Segment) : Prop :=
  (∃ s ∈ sections, kind s ∧ Placed file noff segment s) ∨ ((∀ s ∈ sections, ¬ kind s) ∧ segment.size = 0)

/-- The segment begins with the first of the sections it is made of and is as long as
all of them. -/
def Merged (sections : List Scnhdr) (segment : Segment) : Prop :=
  segment.size = sizeSum (joint sections) ∧
    (sections ≠ [] → segment.virtualAddr = firstAddr (joint sections))

/-- What the variables hold when some of the sections are done. -/
structure Converted (file : File) (sections : List Scnhdr) (m : State) : Prop where
  convertible : Convertible file sections
  position : m.positionOut = noffSize + loadedSize sections
  counter : m.inNoffFile.toNat = m.positionOut
  code : Holds file m.noff Scnhdr.isText sections m.noffH.code
  initData : Holds file m.noff Scnhdr.isData sections m.noffH.initData
  uninitData : Merged (sections.filter Scnhdr.isUninit) m.noffH.uninitData
  codeStored : Stored m.noffH.code m.positionOut
  initDataStored : Stored m.noffH.initData m.positionOut
  apart : Apart m.noffH.code m.noffH.initData
  spread : ¬ Later Joined (sections.filter Scnhdr.isUninit)

/-- How the loop can come out of some of the sections. -/
def Outcome (file : File) (sections : List Scnhdr) : Except Stop State → Prop
  | .ok m => Converted file sections m
  | .error .exit1 => Convertible file sections → Later Joined (sections.filter Scnhdr.isUninit)
  | .error .undefined => False

section Step
variable {file : File} {sections rest : List Scnhdr} {s : Scnhdr} {m : State}

theorem loadedSize_append (sections rest : List Scnhdr) :
    loadedSize (sections ++ rest) = loadedSize sections + loadedSize rest := by
  simp [loadedSize]

theorem loadedSize_one (s : Scnhdr) : loadedSize [s] = if s.isLoaded then s.s_size.toNat else 0 := by
  cases loaded : s.isLoaded <;> simp [loadedSize, loaded]

theorem Convertible.before (convertible : Convertible file (sections ++ rest)) : Convertible file sections where
  known s member := convertible.known s (List.mem_append_left _ member)
  single := by
    have single := convertible.single
    rw [List.filter_append, List.length_append] at single
    omega
  stored s member := convertible.stored s (List.mem_append_left _ member)
  fits := by
    have fits := convertible.fits
    rw [loadedSize_append] at fits
    omega

/-- A program that has ended with the sections so far has ended whatever sections follow. -/
theorem Outcome.error {stop : Stop} (outcome : Outcome file sections (.error stop)) (rest : List Scnhdr) :
    Outcome file (sections ++ rest) (.error stop) := by
  cases stop with
  | exit1 =>
    intro convertible
    rw [List.filter_append]
    exact later_append (outcome convertible.before)
  | undefined => exact outcome

/-- The variables when the bytes of a section have been copied. -/
def State.copied (file : File) (s : Scnhdr) (m : State) : State :=
  { m with
    positionIn := s.s_scnptr.toNat + s.s_size.toNat
    positionOut := m.positionOut + s.s_size.toNat
    noff := {
      size := max m.noff.size (m.positionOut + s.s_size.toNat)
      bytes := m.noff.bytes.splice m.positionOut s.s_size.toNat fun k => file.bytes (s.s_scnptr.toNat + k) }
    inNoffFile := m.inNoffFile + s.s_size }

theorem copySection_eq (sane : s.Sane) : copySection file s m =
      if s.s_scnptr.toNat + s.s_size.toNat ≤ file.size ∧ m.positionOut + s.s_size.toNat ≤ 2147483647
      then .ok (m.copied file s) else .error .exit1 := by
  have position : lseek m.positionIn s.s_scnptr = s.s_scnptr.toNat := if_neg (by have := sane.2; omega)
  have nonneg : ¬ s.s_size.toInt < 0 := by have := sane.1; omega
  unfold copySection
  rw [position, Read, if_neg nonneg]
  by_cases stored : s.s_scnptr.toNat + s.s_size.toNat ≤ file.size
  · rw [if_pos stored]
    show ((Write { m with positionIn := s.s_scnptr.toNat + s.s_size.toNat } _ s.s_size) >>= _) = _
    rw [Write, if_neg nonneg]
    by_cases fits : m.positionOut + s.s_size.toNat ≤ 2147483647
    · rw [if_pos fits, if_pos ⟨stored, fits⟩]
      rfl
    · rw [if_neg fits, if_neg (fun both => fits both.2)]
      rfl
  · rw [if_neg stored, if_neg (fun both => stored both.1)]
    rfl

/-! One section -/

theorem filter_concat_of_not {kind : Scnhdr → Bool} (other : kind s = false) :
    (sections ++ [s]).filter kind = sections.filter kind := by
  rw [List.filter_append, List.filter_cons_of_neg (by simp [other]), List.filter_nil, List.append_nil]

theorem filter_concat {kind : Scnhdr → Bool} (same : kind s = true) :
    (sections ++ [s]).filter kind = sections.filter kind ++ [s] := by
  rw [List.filter_append, List.filter_cons_of_pos same, List.filter_nil]

theorem Holds.skip {noff : File} {kind : Scnhdr → Bool} {segment : Segment}
    (holds : Holds file noff kind sections segment) (other : kind s = false) :
    Holds file noff kind (sections ++ [s]) segment := by
  rcases holds with ⟨t, member, isKind, placed⟩ | ⟨absent, empty⟩
  · exact .inl ⟨t, List.mem_append_left _ member, isKind, placed⟩
  · refine .inr ⟨fun t member => ?_, empty⟩
    rcases List.mem_append.mp member with old | new
    · exact absent t old
    · rw [List.mem_singleton.mp new, other]
      exact Bool.false_ne_true

/-- Bytes that are written behind a segment leave it as it is. -/
theorem Placed.behind {noff : File} {segment : Segment} {position count : Nat} {source : Memory}
    (placed : Placed file noff segment s)
    (before : segment.inFileAddr.toNat + s.s_size.toNat ≤ position) :
    Placed file { size := max noff.size (position + count), bytes := noff.bytes.splice position count source }
      segment s where
  address := placed.address
  size := placed.size
  stored := le_trans placed.stored (le_max_left _ _)
  bytes k inside := (Memory.splice_outside (by omega)).trans (placed.bytes k inside)

theorem Holds.behind {noff : File} {kind : Scnhdr → Bool} {segment : Segment} {position count : Nat}
    {source : Memory} (holds : Holds file noff kind sections segment) (nonempty : ∀ t, kind t → t.s_size ≠ 0)
    (stored : Stored segment position) :
    Holds file { size := max noff.size (position + count), bytes := noff.bytes.splice position count source }
      kind sections segment := by
  rcases holds with ⟨t, member, isKind, placed⟩ | none_
  · have inside := stored (placed.size ▸ nonempty t isKind)
    rw [placed.size] at inside
    exact .inl ⟨t, member, isKind, placed.behind inside.2⟩
  · exact .inr none_

/-- The segment a section becomes. -/
def segmentAt (m : State) (s : Scnhdr) : Segment := ⟨s.s_paddr, m.inNoffFile, s.s_size⟩

theorem placed_segmentAt (counter : m.inNoffFile.toNat = m.positionOut) :
    Placed file (m.copied file s).noff (segmentAt m s) s where
  address := rfl
  size := rfl
  stored := by
    rw [segmentAt, counter]
    exact le_max_right _ _
  bytes k inside := by
    rw [State.copied, segmentAt]
    simp only
    rw [counter, Memory.splice_inside (by omega) (by omega), Nat.add_sub_cancel_left]

theorem isText_nonempty (s : Scnhdr) (text : s.isText) : s.s_size ≠ 0 := by
  simp only [Scnhdr.isText, Bool.and_eq_true, bne_iff_ne] at text
  exact text.1

theorem isData_nonempty (s : Scnhdr) (data : s.isData) : s.s_size ≠ 0 := by
  simp only [Scnhdr.isData, Bool.and_eq_true, bne_iff_ne] at data
  exact data.1

/-- The facts about the position and the counter when a section that is copied is done. -/
theorem Converted.advanced (converted : Converted file sections m) (loaded : s.isLoaded)
    (fits : m.positionOut + s.s_size.toNat ≤ 2147483647) :
    m.positionOut + s.s_size.toNat = noffSize + loadedSize (sections ++ [s]) ∧
      (m.inNoffFile + s.s_size).toNat = m.positionOut + s.s_size.toNat := by
  have sum : loadedSize (sections ++ [s]) = loadedSize sections + s.s_size.toNat := by
    rw [loadedSize_append, loadedSize_one, if_pos loaded]
  constructor
  · rw [sum, converted.position, Nat.add_assoc]
  · rw [BitVec.toNat_add, converted.counter, Nat.mod_eq_of_lt (by omega)]

theorem Stored.further {segment : Segment} {stop stop' : Nat} (stored : Stored segment stop)
    (further : stop ≤ stop') : Stored segment stop' :=
  fun nonempty => ⟨(stored nonempty).1, le_trans (stored nonempty).2 further⟩

theorem Converted.stored_segmentAt (converted : Converted file sections m) :
    Stored (segmentAt m s) (m.positionOut + s.s_size.toNat) := by
  intro nonempty
  rw [segmentAt, converted.counter]
  exact ⟨by rw [converted.position]; omega, le_rfl⟩

/-- A new segment lies behind every segment there is. -/
theorem Converted.segmentAt_behind {segment : Segment} (converted : Converted file sections m)
    (stored : Stored segment m.positionOut) (nonempty : segment.size ≠ 0) :
    segment.inFileAddr.toNat + segment.size.toNat ≤ (segmentAt m s).inFileAddr.toNat := by
  rw [segmentAt, converted.counter]
  exact (stored nonempty).2

theorem Convertible.concat (convertible : Convertible file sections)
    (known : s.s_size ≠ 0 → s.isLoaded ∨ s.isUninit) (single : s.isData → ∀ t ∈ sections, ¬ t.isData)
    (stored : s.isLoaded → s.s_scnptr.toNat + s.s_size.toNat ≤ file.size)
    (fits : noffSize + loadedSize (sections ++ [s]) ≤ 2147483647) : Convertible file (sections ++ [s]) where
  known t member nonempty := by
    rcases List.mem_append.mp member with old | new
    · exact convertible.known t old nonempty
    · obtain rfl := List.mem_singleton.mp new
      exact known nonempty
  single := by
    cases data : s.isData with
    | false =>
      rw [filter_concat_of_not data]
      exact convertible.single
    | true =>
      rw [filter_concat data, List.filter_eq_nil_iff.mpr (single data)]
      exact le_rfl
  stored t member loaded := by
    rcases List.mem_append.mp member with old | new
    · exact convertible.stored t old loaded
    · obtain rfl := List.mem_singleton.mp new
      exact stored loaded
  fits := fits

/-- A section that is copied, when the header already describes it. -/
theorem Converted.copySection_outcome (converted : Converted file sections m) (sane : s.Sane)
    (loaded : s.isLoaded) {noffH : NoffHeader}
    (done : s.s_scnptr.toNat + s.s_size.toNat ≤ file.size → m.positionOut + s.s_size.toNat ≤ 2147483647 →
      Converted file (sections ++ [s]) (State.copied file s { m with noffH })) :
    Outcome file (sections ++ [s]) (copySection file s { m with noffH }) := by
  rw [copySection_eq sane]
  by_cases enough :
      s.s_scnptr.toNat + s.s_size.toNat ≤ file.size ∧ m.positionOut + s.s_size.toNat ≤ 2147483647
  · rw [if_pos enough]
    exact done enough.1 enough.2
  · rw [if_neg enough]
    intro convertible
    have stored := convertible.stored s (List.mem_append_right _ (List.mem_singleton_self s)) loaded
    have fits := convertible.fits
    rw [loadedSize_append, loadedSize_one, if_pos loaded] at fits
    rw [converted.position] at enough
    omega

theorem Converted.text_outcome (converted : Converted file sections m) (sane : s.Sane) (text : s.isText)
    (notData : s.isData = false) (notUninit : s.isUninit = false) :
    Outcome file (sections ++ [s]) (copySection file s { m with noffH.code := segmentAt m s }) := by
  have loaded : s.isLoaded := by rw [Scnhdr.isLoaded, text, Bool.true_or]
  have same : (sections ++ [s]).filter Scnhdr.isUninit = sections.filter Scnhdr.isUninit :=
    filter_concat_of_not notUninit
  refine converted.copySection_outcome sane loaded fun stored fits => ?_
  obtain ⟨position, counter⟩ := converted.advanced loaded fits
  exact {
    convertible := converted.convertible.concat (fun _ => .inl loaded)
      (fun data => by rw [notData] at data; exact absurd data Bool.false_ne_true) (fun _ => stored)
      (by omega)
    position
    counter
    code := .inl ⟨s, List.mem_append_right _ (List.mem_singleton_self s), text,
      placed_segmentAt converted.counter⟩
    initData := (converted.initData.skip notData).behind isData_nonempty converted.initDataStored
    uninitData := same ▸ converted.uninitData
    codeStored := converted.stored_segmentAt
    initDataStored := converted.initDataStored.further (Nat.le_add_right _ _)
    apart := fun _ nonempty => .inr (converted.segmentAt_behind converted.initDataStored nonempty)
    spread := same ▸ converted.spread }

theorem Converted.data_outcome (converted : Converted file sections m) (sane : s.Sane) (data : s.isData)
    (notText : s.isText = false) (notUninit : s.isUninit = false) :
    Outcome file (sections ++ [s])
      (if m.noffH.initData.size ≠ 0 then .error .exit1
        else copySection file s { m with noffH.initData := segmentAt m s }) := by
  have loaded : s.isLoaded := by rw [Scnhdr.isLoaded, data, Bool.or_true]
  have same : (sections ++ [s]).filter Scnhdr.isUninit = sections.filter Scnhdr.isUninit :=
    filter_concat_of_not notUninit
  rcases converted.initData with ⟨t, member, isData, placed⟩ | ⟨absent, empty⟩
  · rw [if_pos (placed.size ▸ isData_nonempty t isData)]
    intro convertible
    have single := convertible.single
    have one : t ∈ sections.filter Scnhdr.isData := List.mem_filter.mpr ⟨member, isData⟩
    rw [filter_concat data, List.length_append, List.length_singleton] at single
    have := List.length_pos_of_mem one
    omega
  · rw [if_neg (not_not.mpr empty)]
    refine converted.copySection_outcome sane loaded fun stored fits => ?_
    obtain ⟨position, counter⟩ := converted.advanced loaded fits
    exact {
      convertible := converted.convertible.concat (fun _ => .inl loaded) (fun _ => absent)
        (fun _ => stored) (by omega)
      position
      counter
      code := (converted.code.skip notText).behind isText_nonempty converted.codeStored
      initData := .inl ⟨s, List.mem_append_right _ (List.mem_singleton_self s), data,
        placed_segmentAt converted.counter⟩
      uninitData := same ▸ converted.uninitData
      codeStored := converted.codeStored.further (Nat.le_add_right _ _)
      initDataStored := converted.stored_segmentAt
      apart := fun nonempty _ => .inl (converted.segmentAt_behind converted.codeStored nonempty)
      spread := same ▸ converted.spread }

/-- A section that is not copied: only the segment of the uninitialised data changes. -/
theorem Converted.kept (converted : Converted file sections m) {noffH : NoffHeader}
    (sameCode : noffH.code = m.noffH.code) (sameData : noffH.initData = m.noffH.initData)
    (notText : s.isText = false) (notData : s.isData = false) (known : s.s_size ≠ 0 → s.isUninit)
    (merged : Merged ((sections ++ [s]).filter Scnhdr.isUninit) noffH.uninitData)
    (spread : ¬ Later Joined ((sections ++ [s]).filter Scnhdr.isUninit)) :
    Converted file (sections ++ [s]) { m with noffH } := by
  have notLoaded : s.isLoaded = false := by rw [Scnhdr.isLoaded, notText, notData, Bool.or_false]
  have sum : loadedSize (sections ++ [s]) = loadedSize sections := by
    rw [loadedSize_append, loadedSize_one, notLoaded]
    rfl
  have absurd_loaded : ¬ s.isLoaded := by rw [notLoaded]; exact Bool.false_ne_true
  have absurd_data : ¬ s.isData := by rw [notData]; exact Bool.false_ne_true
  exact {
    convertible := converted.convertible.concat (fun nonempty => .inr (known nonempty))
      (fun data => absurd data absurd_data) (fun loaded => absurd loaded absurd_loaded)
      (sum ▸ converted.convertible.fits)
    position := sum ▸ converted.position
    counter := converted.counter
    code := sameCode ▸ converted.code.skip notText
    initData := sameData ▸ converted.initData.skip notData
    uninitData := merged
    codeStored := sameCode ▸ converted.codeStored
    initDataStored := sameData ▸ converted.initDataStored
    apart := sameCode ▸ sameData ▸ converted.apart
    spread }

theorem isUninit_pos (sane : s.Sane) (uninit : s.isUninit) : 0 < s.len := by
  have nonempty : s.s_size ≠ 0 := by
    simp only [Scnhdr.isUninit, Scnhdr.isBss, Scnhdr.isSbss, Bool.or_eq_true, Bool.and_eq_true,
      bne_iff_ne] at uninit
    rcases uninit with bss | sbss
    · exact bss.1
    · exact sbss.1
  have differs : s.s_size.toInt ≠ 0 := fun zero => nonempty (BitVec.toInt_inj.mp zero)
  have := sane.1
  show 0 < s.s_size.toInt
  omega

/-- A segment of no size takes the next section as its first one. -/
theorem Merged.first {inFileAddr : BitVec 32} (empty : sizeSum (joint sections) = 0) :
    Merged (sections ++ [s]) ⟨s.s_paddr, inFileAddr, s.s_size⟩ := by
  have one : joint (sections ++ [s]) = [s] := by rw [joint_concat, if_pos empty]
  refine ⟨?_, fun _ => ?_⟩
  · rw [one, sizeSum_one]
  · rw [one, firstAddr]

theorem Merged.concat {segment : Segment} (merged : Merged sections segment)
    (nonempty : sizeSum (joint sections) ≠ 0) :
    Merged (sections ++ [s]) { segment with size := segment.size + s.s_size } := by
  have more : joint (sections ++ [s]) = joint sections ++ [s] := by rw [joint_concat, if_neg nonempty]
  have some : sections ≠ [] := by
    rintro rfl
    exact nonempty rfl
  refine ⟨?_, fun _ => ?_⟩
  · rw [more, sizeSum_concat, merged.1]
  · rw [more, firstAddr_append nonempty]
    exact merged.2 some

theorem Converted.uninit_outcome (converted : Converted file sections m) (uninit : s.isUninit)
    (notText : s.isText = false) (notData : s.isData = false) :
    Outcome file (sections ++ [s])
      (if m.noffH.uninitData.size ≠ 0 then
        if s.s_paddr = m.noffH.uninitData.virtualAddr + m.noffH.uninitData.size then .error .exit1
        else .ok { m with noffH.uninitData.size := m.noffH.uninitData.size + s.s_size }
      else
        .ok { m with noffH.uninitData := ⟨s.s_paddr, m.noffH.uninitData.inFileAddr, s.s_size⟩ }) := by
  have merged := converted.uninitData
  have size := merged.1
  have split : (sections ++ [s]).filter Scnhdr.isUninit = sections.filter Scnhdr.isUninit ++ [s] :=
    filter_concat uninit
  by_cases empty : sizeSum (joint (sections.filter Scnhdr.isUninit)) = 0
  · rw [if_neg (not_not.mpr (size.trans empty))]
    refine converted.kept rfl rfl notText notData (fun _ => uninit) (split ▸ Merged.first empty) ?_
    rw [split, later_concat]
    rintro (later | ⟨-, nonempty, -⟩)
    · exact converted.spread later
    · exact nonempty empty
  · have some : sections.filter Scnhdr.isUninit ≠ [] := by
      intro none
      rw [none] at empty
      exact empty rfl
    have address := merged.2 some
    rw [if_pos (fun zero => empty (size.symm.trans zero))]
    by_cases joined : s.s_paddr = m.noffH.uninitData.virtualAddr + m.noffH.uninitData.size
    · rw [if_pos joined]
      intro _
      rw [split]
      refine later_concat.mpr (.inr ⟨some, empty, ?_⟩)
      rw [joined, address, size]
    · rw [if_neg joined]
      refine converted.kept rfl rfl notText notData (fun _ => uninit) (split ▸ merged.concat empty) ?_
      rw [split, later_concat]
      rintro (later | ⟨-, -, same⟩)
      · exact converted.spread later
      · rw [← address, ← size] at same
        exact joined same

/-- What one section does. -/
theorem convertSection_outcome (converted : Converted file sections m) (sane : s.Sane) :
    Outcome file (sections ++ [s]) (convertSection file m s) := by
  unfold convertSection
  by_cases empty : s.s_size = 0
  · rw [if_pos empty]
    have notText : s.isText = false := by simp [Scnhdr.isText, empty]
    have notData : s.isData = false := by simp [Scnhdr.isData, empty]
    have notUninit : s.isUninit = false := by simp [Scnhdr.isUninit, Scnhdr.isBss, Scnhdr.isSbss, empty]
    have same : (sections ++ [s]).filter Scnhdr.isUninit = sections.filter Scnhdr.isUninit :=
      filter_concat_of_not notUninit
    exact converted.kept rfl rfl notText notData (fun nonempty => absurd empty nonempty)
      (same ▸ converted.uninitData) (same ▸ converted.spread)
  rw [if_neg empty]
  have nonempty : (s.s_size != 0) = true := bne_iff_ne.mpr empty
  by_cases text : s.named textName
  · rw [if_pos text]
    obtain ⟨data, rdata, bss, sbss⟩ := Scnhdr.named_text text
    exact converted.text_outcome sane (by rw [Scnhdr.isText, nonempty, text, Bool.true_and])
      (by simp [Scnhdr.isData, data, rdata])
      (by simp [Scnhdr.isUninit, Scnhdr.isBss, Scnhdr.isSbss, bss, sbss])
  have notText : s.isText = false := by simp [Scnhdr.isText, text]
  rw [if_neg text]
  by_cases data : s.named dataName || s.named rdataName
  · rw [if_pos data]
    obtain ⟨-, bss, sbss⟩ := Scnhdr.named_data data
    exact converted.data_outcome sane (by rw [Scnhdr.isData, nonempty, data, Bool.true_and]) notText
      (by simp [Scnhdr.isUninit, Scnhdr.isBss, Scnhdr.isSbss, bss, sbss])
  have notData : s.isData = false := by
    rw [Scnhdr.isData, Bool.eq_false_iff.mpr data, Bool.and_false]
  rw [if_neg data]
  by_cases uninit : s.named bssName || s.named sbssName
  · rw [if_pos uninit]
    refine converted.uninit_outcome ?_ notText notData
    rw [Scnhdr.isUninit, Scnhdr.isBss, Scnhdr.isSbss, ← Bool.and_or_distrib_left, nonempty, uninit,
      Bool.true_and]
  · rw [if_neg uninit]
    intro convertible
    rcases convertible.known s (List.mem_append_right _ (List.mem_singleton_self s)) empty with loaded | isUninit
    · simp [Scnhdr.isLoaded, notText, notData] at loaded
    · rw [Scnhdr.isUninit, Scnhdr.isBss, Scnhdr.isSbss, ← Bool.and_or_distrib_left,
        Bool.eq_false_iff.mpr uninit, Bool.and_false] at isUninit
      exact absurd isUninit Bool.false_ne_true

/-- What the loop does with the sections that are left. -/
theorem foldlM_outcome (converted : Converted file sections m) (sane : ∀ s ∈ rest, s.Sane) :
    Outcome file (sections ++ rest) (rest.foldlM (convertSection file) m) := by
  induction rest generalizing sections m with
  | nil =>
    rw [List.append_nil]
    exact converted
  | cons s rest ih =>
    have outcome := convertSection_outcome converted (sane s (List.mem_cons_self ..))
    rw [List.foldlM_cons, ← List.singleton_append, ← List.append_assoc]
    cases step : convertSection file m s with
    | error stop =>
      rw [step] at outcome
      exact outcome.error rest
    | ok m =>
      rw [step] at outcome
      exact ih outcome fun t member => sane t (List.mem_cons_of_mem _ member)

end Step

end Nachos.Coff2noff
