import Nachos.Userprog.Coff2noffProofs
import Mathlib.Order.Interval.Set.Basic

/-! Which COFF files `coff2noff` treats as it should. What it makes of the sections
is right except for the uninitialised data: the test that ought to refuse sections
with a gap between them refuses those without one. -/
namespace Nachos.Coff2noff
open Effects Loading

/-- The headers are all there and have the magic numbers. -/
structure Headed (file : File) : Prop where
  headers : filehdrSize + aouthdrSize + scnhdrSize * file.numsections.toNat ≤ file.size
  machine : short file.bytes 0 = MIPSELMAGIC
  magic : short file.bytes filehdrSize = OMAGIC

/-- Whatever `.bss` and `.sbss` are like, nothing else in the file is refused. -/
structure Legal (file : File) : Prop extends Headed file where
  convertible : Convertible file file.sections

/-- The non-empty `.bss` and `.sbss` sections, in the order of their headers. -/
def File.uninit (file : File) : List Scnhdr := file.sections.filter Scnhdr.isUninit

/-- The file when the header has been written. -/
def State.finished (m : State) : File where
  size := max m.noff.size noffSize
  bytes := m.noff.bytes.splice 0 noffSize (headerBytes m.noffH)

section Main
variable {file : File} {garbage : NoffHeader} {position n : Nat} {m : State}

theorem toInt_ofNat_small (small : n < 2147483648) : (BitVec.ofNat 32 n).toInt = n := by
  have same : (BitVec.ofNat 32 n).toNat = n := by rw [BitVec.toNat_ofNat]; omega
  rw [BitVec.toInt_eq_toNat_of_lt (by omega), same]

theorem toNat_ofNat_small (small : n < 2147483648) : (BitVec.ofNat 32 n).toNat = n := by
  rw [BitVec.toNat_ofNat]
  omega

theorem Read_eq (small : n < 2147483648) :
    Read file position (BitVec.ofNat 32 n) =
      if position + n ≤ file.size then .ok (fun k => file.bytes (position + k), position + n)
      else .error .exit1 := by
  rw [Read, if_neg (by rw [toInt_ofNat_small small]; omega), toNat_ofNat_small small]

theorem short_shift (bytes : Memory) (start i : Nat) :
    short (fun k => bytes (start + k)) i = short bytes (start + i) := rfl

/-- The headers are those of the file. -/
theorem sections_eq (file : File) :
    ((List.range file.numsections.toNat).map fun i =>
      Scnhdr.ofBytes (fun k => file.bytes (filehdrSize + aouthdrSize + k)) (scnhdrSize * i)) =
        file.sections := by
  refine List.map_congr_left fun i _ => ?_
  simp only [Scnhdr.ofBytes, Memory.word, Nat.add_assoc]

theorem Write_header (m : State) :
    Write { m with positionOut := lseek m.positionOut 0 } (headerBytes m.noffH) (BitVec.ofNat 32 noffSize) =
      .ok { m with noff := m.finished, positionOut := noffSize } := by
  have start : lseek m.positionOut 0 = 0 := rfl
  have fits : 0 + noffSize ≤ 2147483647 := by decide
  rw [start, Write, if_neg (by decide), toNat_ofNat_small (by decide), if_pos fits]
  simp only [Nat.zero_add, State.finished]

theorem converted_begin (file : File) (garbage : NoffHeader) (position : Nat) :
    Converted file [] (begin_ garbage position) where
  convertible := {
    known := by simp
    single := by simp
    stored := by simp
    fits := by decide }
  position := by simp only [begin_, loadedSize]; decide
  counter := by simp only [begin_]; decide
  code := .inr ⟨by simp, rfl⟩
  initData := .inr ⟨by simp, rfl⟩
  uninitData := ⟨rfl, fun nonempty => absurd rfl nonempty⟩
  codeStored nonempty := absurd rfl nonempty
  initDataStored nonempty := absurd rfl nonempty
  apart nonempty := absurd rfl nonempty
  spread := not_later_nil

open Classical in
/-- The program is its loop between the headers of the two files. -/
theorem main_eq (file : File) (garbage : NoffHeader) :
    main file garbage =
      if Headed file then
        (file.sections.foldlM (convertSection file)
          (begin_ garbage (filehdrSize + aouthdrSize + scnhdrSize * file.numsections.toNat))).map State.finished
      else .error .exit1 := by
  have few := file.numsections.isLt
  unfold main
  rw [Read_eq (by decide)]
  by_cases first : 0 + filehdrSize ≤ file.size
  case neg =>
    rw [if_neg first, if_neg]
    · rfl
    · intro headed
      have headers : 20 + 56 + 40 * file.numsections.toNat ≤ file.size := headed.headers
      have : ¬ 0 + 20 ≤ file.size := first
      omega
  rw [if_pos first]
  show (if short (fun k => file.bytes (0 + k)) 0 ≠ MIPSELMAGIC then _ else _) = _
  rw [short_shift, Nat.zero_add]
  by_cases machine : short file.bytes 0 = MIPSELMAGIC
  case neg =>
    rw [if_pos machine, if_neg fun headed => machine headed.machine]
  rw [if_neg (not_not.mpr machine), Read_eq (by decide)]
  by_cases second : 0 + filehdrSize + aouthdrSize ≤ file.size
  case neg =>
    rw [if_neg second, if_neg]
    · rfl
    · intro headed
      have headers : 20 + 56 + 40 * file.numsections.toNat ≤ file.size := headed.headers
      have : ¬ 0 + 20 + 56 ≤ file.size := second
      omega
  rw [if_pos second]
  show (if short (fun k => file.bytes (0 + filehdrSize + k)) 0 ≠ OMAGIC then _ else _) = _
  rw [short_shift, Nat.zero_add, Nat.add_zero]
  by_cases magic : short file.bytes filehdrSize = OMAGIC
  case neg =>
    rw [if_pos magic, if_neg fun headed => magic headed.magic]
  rw [if_neg (not_not.mpr magic)]
  have count : (short (fun k => file.bytes (0 + k)) 2) = file.numsections := by
    rw [short_shift, Nat.zero_add, File.numsections]
  rw [count, Read_eq (by simp only [scnhdrSize]; omega), Nat.mul_comm file.numsections.toNat]
  by_cases headers : filehdrSize + aouthdrSize + scnhdrSize * file.numsections.toNat ≤ file.size
  case neg =>
    rw [if_neg headers, if_neg fun headed => headers headed.headers]
    rfl
  rw [if_pos headers, if_pos ⟨headers, machine, magic⟩]
  show (((List.range file.numsections.toNat).map fun i =>
    Scnhdr.ofBytes (fun k => file.bytes (filehdrSize + aouthdrSize + k)) (scnhdrSize * i)).foldlM
      (convertSection file) _ >>= fun m => _) = _
  rw [sections_eq]
  cases file.sections.foldlM (convertSection file)
      (begin_ garbage (filehdrSize + aouthdrSize + scnhdrSize * file.numsections.toNat)) with
  | error stop => rfl
  | ok m =>
    show (Write { m with positionOut := lseek m.positionOut 0 } (headerBytes m.noffH)
      (BitVec.ofNat 32 noffSize) >>= fun m => _) = _
    rw [Write_header]
    rfl

/-- What becomes of a file: it is converted, or it is not legal, or its `.bss` and
`.sbss` sections do not get through. -/
theorem main_cases (file : CoffFile) (garbage : NoffHeader) :
    (∃ m, main file.toFile garbage = .ok m.finished ∧ Legal file.toFile ∧
      Converted file.toFile file.sections m) ∨
    (main file.toFile garbage = .error .exit1 ∧ (Legal file.toFile → Later Joined file.uninit)) := by
  rw [main_eq]
  by_cases headed : Headed file.toFile
  · have outcome := foldlM_outcome (converted_begin file.toFile garbage
      (filehdrSize + aouthdrSize + scnhdrSize * file.numsections.toNat)) file.sane
    rw [List.nil_append] at outcome
    rw [if_pos headed]
    cases run : file.sections.foldlM (convertSection file.toFile) (begin_ garbage
        (filehdrSize + aouthdrSize + scnhdrSize * file.numsections.toNat)) with
    | ok m =>
      rw [run] at outcome
      exact .inl ⟨m, rfl, ⟨headed, outcome.convertible⟩, outcome⟩
    | error stop =>
      rw [run] at outcome
      cases stop with
      | exit1 => exact .inr ⟨rfl, fun legal => outcome legal.convertible⟩
      | undefined => exact outcome.elim
  · rw [if_neg headed]
    exact .inr ⟨rfl, fun legal => absurd legal.toHeaded headed⟩

end Main

/-! ## What a NOFF file should hold -/

/-- The addresses of some sections, taken together. -/
def covered (sections : List Scnhdr) : Set Int := {a | ∃ s ∈ sections, a ∈ Set.Ico s.start s.stop}

def addresses (segment : Segment) : Set Int :=
  Set.Ico segment.virtualAddr.toInt (segment.virtualAddr.toInt + segment.size.toInt)

def File.header (noff : File) : NoffHeader := .ofBytes noff.bytes

/-- The NOFF file holds what the COFF file describes. -/
structure Faithful (file noff : File) : Prop where
  code : ∀ s ∈ file.sections, s.isText → Placed file noff noff.header.code s
  initData : ∀ s ∈ file.sections, s.isData → Placed file noff noff.header.initData s
  uninitData : addresses noff.header.uninitData = covered file.uninit
  codeStored : Stored noff.header.code noff.size
  initDataStored : Stored noff.header.initData noff.size
  apart : Apart noff.header.code noff.header.initData

/-- The file has one non-empty `.bss` and one non-empty `.sbss` section. -/
structure Pair (file : File) (b s : Scnhdr) : Prop where
  bss : b.isBss
  sbss : s.isSbss
  only : file.uninit = [b, s] ∨ file.uninit = [s, b]

/-- One section begins where the other one ends. -/
def Adjacent (b s : Scnhdr) : Prop := s.start = b.stop ∨ b.start = s.stop

/-- What the program is for. -/
structure Meets (file : CoffFile) (garbage : NoffHeader) : Prop where
  faithful : ∀ noff, main file.toFile garbage = .ok noff → Faithful file.toFile noff
  accepts : ∀ b s, Pair file.toFile b s → Legal file.toFile → s.start = b.stop →
    ∃ noff, main file.toFile garbage = .ok noff
  rejects : ∀ b s, Pair file.toFile b s → Legal file.toFile → ¬ Adjacent b s →
    main file.toFile garbage = .error .exit1

/-- The `.text` sections of the file are one and the same. -/
def TextsAgree (file : File) : Prop :=
  ∀ s ∈ file.sections, ∀ t ∈ file.sections, s.isText → t.isText →
    s.s_paddr = t.s_paddr ∧ s.s_size = t.s_size ∧
      ∀ k < s.s_size.toNat, file.bytes (s.s_scnptr.toNat + k) = file.bytes (t.s_scnptr.toNat + k)

/-- The sections fill the addresses from the beginning of the first one on, as far as
their sizes come to. -/
def Tiled (sections : List Scnhdr) : Prop :=
  covered sections = Set.Ico (firstAddr (joint sections)).toInt
    ((firstAddr (joint sections)).toInt + (sizeSum (joint sections)).toInt)

/-- The program does not come to the wrong test, or comes through it unharmed. The test
holds of two sections that are not adjacent where a sum wraps. -/
def Spared (file : File) : Prop :=
  Legal file →
    (∀ b s, Pair file b s → b.start = s.stop ∨ ¬ Adjacent b s ∧ Later Joined file.uninit) ∧
    (Later Joined file.uninit ∨ (Tiled file.uninit ∧ TextsAgree file))

section Meaning
variable {file noff : File} {sections : List Scnhdr} {segment : Segment} {b s : Scnhdr} {m : State}

theorem header_finished (m : State) : m.finished.header = m.noffH := by
  have same : ∀ j, j < 40 → m.finished.bytes j = headerBytes m.noffH j := fun j inside =>
    Memory.splice_inside (Nat.zero_le j) (by simpa [noffSize] using inside)
  rw [File.header, ofBytes_congr same, ofBytes_headerBytes]

/-- The header is written over no section. -/
theorem Placed.finished (placed : Placed file m.noff segment s)
    (behind : noffSize ≤ segment.inFileAddr.toNat) : Placed file m.finished segment s where
  address := placed.address
  size := placed.size
  stored := le_trans placed.stored (le_max_left _ _)
  bytes k inside := (Memory.splice_outside (by omega)).trans (placed.bytes k inside)

theorem Merged.addresses_eq (merged : Merged sections segment) :
    addresses segment = Set.Ico (firstAddr (joint sections)).toInt
      ((firstAddr (joint sections)).toInt + (sizeSum (joint sections)).toInt) := by
  by_cases nonempty : sections = []
  · have empty := merged.1
    rw [nonempty] at empty ⊢
    have none : (sizeSum (joint [])).toInt = 0 := rfl
    rw [addresses, empty, none, add_zero, add_zero, Set.Ico_self, Set.Ico_self]
  · rw [addresses, merged.1, merged.2 nonempty]

theorem Holds.finished {kind : Scnhdr → Bool} (holds : Holds file m.noff kind sections segment)
    (nonempty : ∀ s, kind s → s.s_size ≠ 0) {stop : Nat} (stored : Stored segment stop) :
    Holds file m.finished kind sections segment := by
  rcases holds with ⟨s, member, isKind, placed⟩ | absent
  · exact .inl ⟨s, member, isKind, placed.finished (stored (placed.size ▸ nonempty s isKind)).1⟩
  · exact .inr absent

/-- The segment is in the file when its section is. -/
theorem Holds.stored {kind : Scnhdr → Bool} (holds : Holds file noff kind sections segment) {stop : Nat}
    (stored : Stored segment stop) : Stored segment noff.size := by
  rcases holds with ⟨s, member, isKind, placed⟩ | ⟨-, empty⟩
  · exact fun nonempty => ⟨(stored nonempty).1, placed.size ▸ placed.stored⟩
  · exact fun nonempty => absurd empty nonempty

/-- A segment that is one of several sections is each of them if they agree. -/
theorem Placed.of_same {t : Scnhdr} (placed : Placed file noff segment t) (address : s.s_paddr = t.s_paddr)
    (size : s.s_size = t.s_size)
    (bytes : ∀ k < s.s_size.toNat, file.bytes (s.s_scnptr.toNat + k) = file.bytes (t.s_scnptr.toNat + k)) :
    Placed file noff segment s where
  address := placed.address.trans address.symm
  size := placed.size.trans size.symm
  stored := size ▸ placed.stored
  bytes k inside := (placed.bytes k (size ▸ inside)).trans (bytes k inside).symm

theorem Convertible.one_data {t : Scnhdr} (convertible : Convertible file sections)
    (member : s ∈ sections) (data : s.isData) (member' : t ∈ sections) (data' : t.isData) : s = t := by
  have first := List.mem_filter.mpr ⟨member, data⟩
  have second := List.mem_filter.mpr ⟨member', data'⟩
  have single := convertible.single
  cases found : sections.filter Scnhdr.isData with
  | nil =>
    rw [found] at first
    exact absurd first List.not_mem_nil
  | cons x rest =>
    rw [found] at first second single
    have none_left : rest = [] := List.length_eq_zero_iff.mp (by simpa using single)
    rw [none_left, List.mem_singleton] at first second
    exact first.trans second.symm

/-- The file that is written is right but for the uninitialised data and for `.text`
sections that differ. -/
theorem Converted.faithful_iff (converted : Converted file file.sections m) :
    Faithful file m.finished ↔ Tiled file.uninit ∧ TextsAgree file := by
  have code := converted.code.finished isText_nonempty converted.codeStored
  have initData := converted.initData.finished isData_nonempty converted.initDataStored
  have uninitData : addresses m.finished.header.uninitData = _ :=
    (header_finished m) ▸ converted.uninitData.addresses_eq
  constructor
  · intro faithful
    refine ⟨faithful.uninitData.symm.trans uninitData, fun s member t member' text text' => ?_⟩
    have first := faithful.code s member text
    have second := faithful.code t member' text'
    have size : s.s_size = t.s_size := first.size.symm.trans second.size
    exact ⟨first.address.symm.trans second.address, size,
      fun k inside => (first.bytes k inside).symm.trans (second.bytes k (size ▸ inside))⟩
  · rintro ⟨tiled, agree⟩
    refine ⟨?_, ?_, uninitData.trans tiled.symm, ?_, ?_, ?_⟩
    · intro s member text
      rw [header_finished]
      rcases code with ⟨t, member', text', placed⟩ | ⟨absent, -⟩
      · obtain ⟨address, size, bytes⟩ := agree s member t member' text text'
        exact placed.of_same address size bytes
      · exact absurd text (absent s member)
    · intro s member data
      rw [header_finished]
      rcases initData with ⟨t, member', data', placed⟩ | ⟨absent, -⟩
      · exact (converted.convertible.one_data member data member' data') ▸ placed
      · exact absurd data (absent s member)
    · rw [header_finished]
      exact code.stored converted.codeStored
    · rw [header_finished]
      exact initData.stored converted.initDataStored
    · rw [header_finished]
      exact converted.apart

theorem joint_two (nonempty : s.s_size ≠ 0) : joint [s, b] = [s, b] := by
  have one : joint [s] = [s] := rfl
  rw [← List.singleton_append, joint_concat, one, sizeSum_one, if_neg nonempty]

/-- Sections that end where the first one begins are not covered from there. -/
theorem not_tiled (nonempty : s.s_size ≠ 0) (positive : 0 < b.len) (behind : s.start = b.stop) :
    ¬ Tiled [s, b] := by
  intro tiled
  have inside : b.start ∈ covered [s, b] :=
    ⟨b, by simp, le_rfl, by rw [Scnhdr.stop]; omega⟩
  rw [tiled, joint_two nonempty] at inside
  have low : s.start ≤ b.start := inside.1
  rw [behind, Scnhdr.stop] at low
  omega

end Meaning

section Claim
variable {file : CoffFile} {garbage : NoffHeader} {b s : Scnhdr}

theorem Pair.nonempty (pair : Pair file.toFile b s) : b.s_size ≠ 0 ∧ s.s_size ≠ 0 := by
  have bss := pair.bss
  have sbss := pair.sbss
  simp only [Scnhdr.isBss, Scnhdr.isSbss, Bool.and_eq_true, bne_iff_ne] at bss sbss
  exact ⟨bss.1, sbss.1⟩

theorem Pair.positive (pair : Pair file.toFile b s) : 0 < b.len ∧ 0 < s.len := by
  have both : b ∈ file.uninit ∧ s ∈ file.uninit := by
    rcases pair.only with same | same <;> rw [same] <;> simp
  have uninit := fun {t : Scnhdr} (member : t ∈ file.uninit) => List.mem_filter.mp member
  exact ⟨isUninit_pos (file.sane b (uninit both.1).1) (uninit both.1).2,
    isUninit_pos (file.sane s (uninit both.2).1) (uninit both.2).2⟩

/-- Of two sections the second one is refused if it follows the first one. -/
theorem joined_of_follows {first second : Scnhdr} (nonempty : first.s_size ≠ 0)
    (follows : second.start = first.stop) : Later Joined [first, second] := by
  have one : joint [first] = [first] := rfl
  rw [later_two, Joined, one, sizeSum_one, firstAddr]
  refine ⟨nonempty, BitVec.eq_of_toInt_eq ?_⟩
  have sum : second.s_paddr.toInt = first.s_paddr.toInt + first.s_size.toInt := follows
  rw [BitVec.toInt_add, ← sum, BitVec.toInt_bmod_cancel]

/-- A legal file that is accepted has been converted. -/
theorem converted_of_ok {noff : File} (ok : main file.toFile garbage = .ok noff) :
    ∃ m : State, noff = m.finished ∧ Legal file.toFile ∧ Converted file.toFile file.sections m := by
  rcases main_cases file garbage with ⟨m, run, legal, converted⟩ | ⟨run, -⟩
  · rw [run] at ok
    cases ok
    exact ⟨m, rfl, legal, converted⟩
  · rw [run] at ok
    cases ok

/-- A legal file is refused exactly if a section begins where those before it would end. -/
theorem exit1_iff (legal : Legal file.toFile) :
    main file.toFile garbage = .error .exit1 ↔ Later Joined file.uninit := by
  rcases main_cases file garbage with ⟨m, run, -, converted⟩ | ⟨run, joins⟩
  · rw [run]
    exact iff_of_false (by simp) converted.spread
  · exact iff_of_true run (joins legal)

theorem ok_of_legal (legal : Legal file.toFile) (spread : ¬ Later Joined file.uninit) :
    ∃ noff, main file.toFile garbage = .ok noff := by
  rcases main_cases file garbage with ⟨m, run, -⟩ | ⟨-, joins⟩
  · exact ⟨_, run⟩
  · exact absurd (joins legal) spread

/-- If the program does what it is for, its `.sbss` does not follow its `.bss`. -/
theorem Meets.not_follows (meets : Meets file garbage) (legal : Legal file.toFile)
    (pair : Pair file.toFile b s) : s.start ≠ b.stop := by
  intro follows
  obtain ⟨noff, ok⟩ := meets.accepts b s pair legal follows
  obtain ⟨m, rfl, -, converted⟩ := converted_of_ok ok
  have spread : ¬ Later Joined file.uninit := converted.spread
  have tiled := (converted.faithful_iff.mp (meets.faithful _ ok)).1
  rcases pair.only with order | order
  · rw [order] at spread
    exact spread (joined_of_follows pair.nonempty.1 follows)
  · rw [order] at tiled
    exact not_tiled pair.nonempty.2 pair.positive.1 follows tiled

/-- `coff2noff` does what it is for exactly on the files that the wrong test spares:
it asks whether the sections are contiguous and refuses them if they are. -/
theorem meets_iff (file : CoffFile) (garbage : NoffHeader) : Meets file garbage ↔ Spared file.toFile := by
  constructor
  · intro meets legal
    constructor
    · intro b s pair
      by_cases reversed : b.start = s.stop
      · exact .inl reversed
      · have apart : ¬ Adjacent b s := not_or.mpr ⟨meets.not_follows legal pair, reversed⟩
        exact .inr ⟨apart, (exit1_iff legal).mp (meets.rejects b s pair legal apart)⟩
    · by_cases joins : Later Joined file.uninit
      · exact .inl joins
      · obtain ⟨noff, ok⟩ : ∃ noff, main file.toFile garbage = .ok noff := ok_of_legal legal joins
        obtain ⟨m, rfl, -, converted⟩ := converted_of_ok ok
        exact .inr (converted.faithful_iff.mp (meets.faithful _ ok))
  · intro spared
    refine ⟨fun noff ok => ?_, fun b s pair legal follows => ?_, fun b s pair legal apart => ?_⟩
    · obtain ⟨m, rfl, legal, converted⟩ := converted_of_ok ok
      rcases (spared legal).2 with joins | right_
      · exact absurd joins converted.spread
      · exact converted.faithful_iff.mpr right_
    · rcases (spared legal).1 b s pair with reversed | ⟨apart, -⟩
      · have positive := pair.positive
        simp only [Scnhdr.stop] at follows reversed
        omega
      · exact absurd (.inl follows) apart
    · rcases (spared legal).1 b s pair with reversed | ⟨-, joins⟩
      · exact absurd (.inr reversed) apart
      · exact (exit1_iff legal).mpr joins

end Claim

/-- A section header: the name, the address and the size. -/
def headerOf (name : Name) (paddr size : UInt8) : List UInt8 :=
  name ++ List.replicate (8 - name.length) 0 ++ [paddr, 0, 0, 0] ++ List.replicate 4 0 ++ [size, 0, 0, 0] ++
    List.replicate 20 0

/-- A COFF file of a `.bss` section at address 16 and a `.sbss` section at address 32,
both of 16 bytes. -/
def contiguousFile : File where
  size := 156
  bytes i := ([0x62, 0x01, 2, 0] ++ List.replicate 16 0 ++ [0x07, 0x01] ++ List.replicate 54 0 ++
    headerOf bssName 16 16 ++ headerOf sbssName 32 16).getD i 0

def contiguousBss : Scnhdr := .ofBytes contiguousFile.bytes 76

def contiguousSbss : Scnhdr := .ofBytes contiguousFile.bytes 116

theorem contiguous_sections : contiguousFile.sections = [contiguousBss, contiguousSbss] := by rfl

def contiguous : CoffFile where
  toFile := contiguousFile
  sane := by
    rw [contiguous_sections]
    simp only [List.mem_cons, List.not_mem_nil, or_false, forall_eq_or_imp, forall_eq, Scnhdr.Sane]
    decide

theorem contiguous_legal : Legal contiguous.toFile where
  headers := by decide
  machine := by decide
  magic := by decide
  convertible := {
    known := by
      show ∀ s ∈ contiguousFile.sections, _
      rw [contiguous_sections]
      simp only [List.mem_cons, List.not_mem_nil, or_false, forall_eq_or_imp, forall_eq]
      decide
    single := by decide
    stored := by
      show ∀ s ∈ contiguousFile.sections, _
      rw [contiguous_sections]
      simp only [List.mem_cons, List.not_mem_nil, or_false, forall_eq_or_imp, forall_eq]
      decide
    fits := by decide }

theorem contiguous_pair : Pair contiguous.toFile contiguousBss contiguousSbss where
  bss := by decide
  sbss := by decide
  only := .inl (by rfl)

/-- The `.sbss` section begins where the `.bss` section ends, and the file is refused. -/
theorem contiguous_refused : ¬ Meets contiguous ⟨0, ⟨0, 0, 0⟩, ⟨0, 0, 0⟩, ⟨0, 0, 0⟩⟩ := by
  intro meets
  obtain ⟨noff, ok⟩ := meets.accepts _ _ contiguous_pair contiguous_legal (by decide)
  have refused : main contiguous.toFile ⟨0, ⟨0, 0, 0⟩, ⟨0, 0, 0⟩, ⟨0, 0, 0⟩⟩ = .error .exit1 := by rfl
  rw [refused] at ok
  cases ok

end Nachos.Coff2noff
