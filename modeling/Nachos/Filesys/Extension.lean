import Nachos.Filesys.ReadBack

/-! `FileHeader::Extend`. New sectors always go into the next slots, so growth
past the eighth sector puts data where the indirect block belongs, and growth
past the ninth overwrites the fields behind the slots. Within eight sectors, or
within the sectors a file already has, the grown header is read back right. -/
namespace Nachos
open Effects FileHeader

/-- The header describes a file of `length` bytes in these sectors, recorded in
the order in which `Allocate` takes them. -/
structure Describes (disk : Disk) (hdr : FileHeader) (length : Nat) (sectors : List Int) : Prop where
  bytes : hdr.numBytes = length
  count : hdr.numSectors = sectorsFor length
  places : recorded disk hdr (sectorsFor length) = sectors

/-- What growing a file from `old` to `new` sectors owes its caller: the old
blocks stay where they are, the new ones are in sectors of their own that were
clear, no other field of the header changes, and `Deallocate` clears what the
file had and what it got. -/
structure Extended (disk : Disk) (vis : Counters) (hdr hdr' : FileHeader) (freeMap after : BitMap)
    (old new : Nat) : Prop where
  blocks : ∃ places : List Int, places.length = new ∧
    (∀ k s, places[k]? = some s → Ensures (hdr'.ByteToSector ((k * SectorSize : Nat) : Int))
      (fun sector disk' vis' => sector = s ∧ disk' = disk ∧ vis' = vis) (fun _ => False) disk vis) ∧
    (∀ k, k < old → places[k]? = some (dataSector disk hdr k)) ∧
    (places.drop old).Nodup ∧ ∀ s ∈ places.drop old, ¬ freeMap.Marked s ∧ after.Marked s
  fields : ∀ i, 44 ≤ i → hdr'.mem i = hdr.mem i
  freed : Ensures (hdr'.Deallocate after) (fun restored _ _ => ∀ s, restored.Marked s ↔
      after.Marked s ∧ ¬ (s ∈ recorded disk hdr old ∨ ¬ freeMap.Marked s))
    (fun _ => False) disk vis

/-- Growing a file of this length and these sectors by `size` bytes goes right
whatever the rest of its header and of the disk hold. -/
def GrowsRight (freeMap : BitMap) (length : Nat) (sectors : List Int) (size : Nat) : Prop :=
  ∀ (disk : Disk) (vis : Counters) (hdr : FileHeader), Describes disk hdr length sectors →
    ∃ hdr' after, hdr.Extend freeMap size = .ok (true, hdr', after) ∧
      Extended disk vis hdr hdr' freeMap after (sectorsFor length) (sectorsFor (length + size))

section Lemmas

variable {disk disk' : Disk} {vis : Counters} {hdr hdr' : FileHeader} {freeMap after : BitMap}
  {length size : Nat} {sectors : List Int}

theorem recorded_congr {n : Nat} (slots : ∀ i, i < 9 → hdr'.dataSectors i = hdr.dataSectors i)
    (block : 9 ≤ n → disk' (hdr.dataSectors 8) = disk (hdr.dataSectors 8)) :
    recorded disk' hdr' n = recorded disk hdr n := by
  by_cases large : 9 ≤ n
  · rw [recorded_indirect large, recorded_indirect large, slots 8 (by omega), block large,
      slots_congr fun i bound => slots (0 + i) (by omega)]
  · rw [recorded_direct (by omega), recorded_direct (by omega),
      slots_congr fun i bound => slots (0 + i) (by omega)]

/-- The rest of the header says nothing about the file's sectors. -/
theorem Describes.congr (described : Describes disk hdr length sectors)
    (same : ∀ i, i < 44 → hdr'.mem i = hdr.mem i)
    (block : 9 ≤ sectorsFor length → disk' (hdr.dataSectors 8) = disk (hdr.dataSectors 8)) :
    Describes disk' hdr' length sectors := by
  have field : ∀ offset, offset + 4 ≤ 44 → hdr'.field offset = hdr.field offset := by
    intro offset inside
    exact congrArg BitVec.toInt (Memory.word_congr fun k bound => same (offset + k) (by omega))
  refine ⟨(field 0 (by omega)).trans described.bytes, (field 4 (by omega)).trans described.count, ?_⟩
  rw [recorded_congr (fun i bound => field (8 + 4 * i) (by omega)) block]
  exact described.places

/-- Slots from 30 on lie outside the header. -/
theorem takeSectors_room {first count : Nat} {result : FileHeader × BitMap}
    (computed : hdr.takeSectors freeMap first count = .ok result) (some : 0 < count) :
    first + count ≤ 30 := by
  obtain ⟨count, rfl⟩ : ∃ rest, count = rest + 1 := ⟨count - 1, by omega⟩
  rw [takeSectors_succ] at computed
  by_contra outside
  cases earlier : hdr.takeSectors freeMap first count with
  | error reason =>
    rw [earlier] at computed
    cases computed
  | ok middle =>
    rw [earlier] at computed
    simp only [bind, Except.bind] at computed
    cases found : middle.2.Find with
    | error reason =>
      rw [found] at computed
      cases computed
    | ok pair =>
      rw [found] at computed
      simp only [if_neg (show ¬ first + count < 30 by omega)] at computed
      cases computed

/-- A file that grows within the header does not reach slot 30. -/
theorem extend_room (described : Describes disk hdr length sectors)
    (more : sectorsFor length < sectorsFor (length + size))
    (computed : hdr.Extend freeMap size = .ok (true, hdr', after)) :
    sectorsFor (length + size) ≤ 30 := by
  have total : hdr.numBytes + (size : Int) = ((length + size : Nat) : Int) := by
    rw [described.bytes, Int.natCast_add]
  unfold Extend at computed
  simp only [total, described.count, SectorSize, Nat.cast_ofNat, divRoundUp_natCast] at computed
  split at computed
  · cases computed
  rw [if_neg (by omega)] at computed
  simp only [BitMap.numClear_ok, bind, Except.bind] at computed
  split at computed
  · simp [pure, Except.pure] at computed
  · rw [if_neg (by omega)] at computed
    split at computed
    · cases computed
    · rename_i result taken
      have room := takeSectors_room taken (by omega)
      omega

/-- A grown header that records the old sectors, then fresh ones as its new
blocks, is read back right. -/
theorem extended_of_recorded {old new : Nat} {fresh : List Int} (bits : freeMap.numBits = 1024)
    (count : hdr'.numSectors = new) (fits : new ≤ 40)
    (marked : ∀ s ∈ recorded disk hdr old, freeMap.Marked s)
    (distinct : (recorded disk hdr old).Nodup) (taken : freeMap.Takes fresh after)
    (grown : recorded disk hdr' new = recorded disk hdr old ++ fresh)
    (data : dataSectorsOf disk hdr' new = dataSectorsOf disk hdr old ++ fresh)
    (small : ∀ k, 8 ≤ k → k < new → dataSector disk hdr' k < 128)
    (fields : ∀ i, 44 ≤ i → hdr'.mem i = hdr.mem i) :
    Extended disk vis hdr hdr' freeMap after old new := by
  have marked' : ∀ s ∈ recorded disk hdr' new, after.Marked s := by
    intro s member
    rw [grown] at member
    rw [taken.exactly]
    exact (List.mem_append.mp member).imp_left (marked s)
  have distinct' : (recorded disk hdr' new).Nodup := by
    rw [grown]
    refine List.nodup_append.mpr ⟨distinct, taken.distinct, ?_⟩
    rintro s here t there rfl
    exact (taken.fresh s there).2.2 (marked s here)
  have valid : ∀ s ∈ recorded disk hdr' new, ValidSector s := by
    intro s member
    obtain ⟨low, high, -⟩ := marked' s member
    rw [taken.size, bits] at high
    exact ⟨low, high⟩
  have length : (dataSectorsOf disk hdr old).length = old := by simp [dataSectorsOf]
  have later : (dataSectorsOf disk hdr' new).drop old = fresh := by
    rw [data]
    exact List.drop_left' length
  refine ⟨⟨dataSectorsOf disk hdr' new, by simp [dataSectorsOf], ?_, ?_, ?_, ?_⟩, fields, ?_⟩
  · intro k s found
    obtain ⟨bound, rfl⟩ := getElem?_dataSectorsOf.mp found
    refine ensures_ByteToSector k rfl (by omega) (fun large => ?_) ?_
    · exact valid _ (mem_recorded.mpr (.inr ⟨by omega, rfl⟩))
    · exact ⟨blockSector_of_recorded valid small bound, rfl, rfl⟩
  · intro k bound
    rw [data, List.getElem?_append_left (by omega)]
    exact getElem?_dataSectorsOf.mpr ⟨bound, rfl⟩
  · rw [later]
    exact taken.distinct
  · rw [later]
    intro s member
    exact ⟨(taken.fresh s member).2.2, (taken.exactly s).mpr (.inr member)⟩
  · refine ensures_Deallocate_recorded (taken.size.trans bits) count fits marked' distinct' small ?_
    intro restored released s
    rw [released.exactly, grown, List.mem_append]
    refine and_congr_right fun set => not_congr (or_congr_right ?_)
    constructor
    · exact fun member => (taken.fresh s member).2.2
    · exact fun clear => ((taken.exactly s).mp set).resolve_left clear

/-- The entries of the indirect block come after the nine slots. -/
theorem mem_drop_recorded {n : Nat} {s : Int} :
    s ∈ (recorded disk hdr n).drop 9 ↔ ∃ k, 8 ≤ k ∧ k < n ∧ dataSector disk hdr k = s := by
  by_cases large : 9 ≤ n
  · rw [recorded_indirect large, List.drop_left' (length_slots hdr 0 9)]
    constructor
    · intro member
      obtain ⟨i, within, rfl⟩ := List.mem_map.mp member
      have bound := List.mem_range.mp within
      refine ⟨8 + i, by omega, by omega, ?_⟩
      rw [dataSector, if_neg (by omega), Nat.add_sub_cancel_left]
    · rintro ⟨k, indirect, bound, rfl⟩
      rw [dataSector, if_neg (by omega)]
      exact List.mem_map.mpr ⟨k - 8, List.mem_range.mpr (by omega), rfl⟩
  · rw [List.drop_eq_nil_of_le (by rw [length_recorded, need]; split <;> omega)]
    constructor
    · simp
    · rintro ⟨k, indirect, bound, -⟩
      omega

/-- What `Extend` does to a described file when there is room in the header. -/
theorem Describes.extend (described : Describes disk hdr length sectors)
    (bits : freeMap.numBits = 1024) (fits : sectorsFor (length + size) ≤ 40)
    (room : sectorsFor (length + size) ≤ 30 ∨ sectorsFor (length + size) ≤ sectorsFor length)
    (enough : need (sectorsFor (length + size)) - need (sectorsFor length) ≤ freeMap.freeCount) :
    ∃ hdr' after, hdr.Extend freeMap size = .ok (true, hdr', after) ∧
      hdr'.numSectors = sectorsFor (length + size) ∧
      freeMap.Takes (hdr'.slots (sectorsFor length)
        (sectorsFor (length + size) - sectorsFor length)) after ∧
      ∀ j, 8 ≤ j → j < 8 + 4 * sectorsFor length ∨ 8 + 4 * sectorsFor (length + size) ≤ j →
        hdr'.mem j = hdr.mem j := by
  have supply : sectorsFor (length + size) - sectorsFor length ≤ freeMap.freeCount := by
    unfold need at enough
    split at enough <;> split at enough <;> omega
  have total : hdr.numBytes + (size : Int) = ((length + size : Nat) : Int) := by
    rw [described.bytes, Int.natCast_add]
  obtain ⟨hdr', after, computed, -, count, taken, frame, -⟩ := extend_ok hdr bits described.count
    total (by unfold sectorsFor at fits; omega) room supply
  exact ⟨hdr', after, computed, count, taken, frame⟩

/-- Growth that stays within eight sectors, or takes none. -/
theorem grows_right (bits : freeMap.numBits = 1024) (fits : sectorsFor (length + size) ≤ 40)
    (distinct : sectors.Nodup) (marked : ∀ s ∈ sectors, freeMap.Marked s)
    (enough : need (sectorsFor (length + size)) - need (sectorsFor length) ≤ freeMap.freeCount)
    (within : sectorsFor (length + size) ≤ 8 ∨ sectorsFor (length + size) = sectorsFor length ∧
      ∀ s ∈ sectors.drop 9, s < 128) : GrowsRight freeMap length sectors size := by
  intro disk vis hdr described
  have less : sectorsFor length ≤ sectorsFor (length + size) := by
    unfold sectorsFor
    omega
  obtain ⟨hdr', after, computed, count, taken, frame⟩ :=
    described.extend bits fits (by omega) enough
  refine ⟨hdr', after, computed, ?_⟩
  obtain rfl := described.places
  by_cases direct : sectorsFor (length + size) ≤ 8
  · have kept : hdr'.slots 0 (sectorsFor length) = hdr.slots 0 (sectorsFor length) :=
      slots_congr fun i bound => congrArg BitVec.toInt
        (Memory.word_congr fun k inner => frame _ (by omega) (by omega))
    have grown : hdr'.slots 0 (sectorsFor (length + size)) = hdr.slots 0 (sectorsFor length) ++
        hdr'.slots (sectorsFor length) (sectorsFor (length + size) - sectorsFor length) := by
      have split := slots_append hdr' 0 (sectorsFor length)
        (sectorsFor (length + size) - sectorsFor length)
      rw [Nat.zero_add, Nat.add_sub_cancel' less] at split
      rw [← kept]
      exact split
    refine extended_of_recorded bits count fits marked distinct taken ?_ ?_ (by omega)
      fun i past => frame i (by omega) (by omega)
    · rw [recorded_direct (by omega), recorded_direct (by omega)]
      exact grown
    · rw [dataSectorsOf_direct (by omega), dataSectorsOf_direct (by omega)]
      exact grown
  · obtain ⟨same, small⟩ := within.resolve_left direct
    have untouched : ∀ i, 8 ≤ i → hdr'.mem i = hdr.mem i := fun i past => frame i past (by omega)
    have slots : ∀ i, hdr'.dataSectors i = hdr.dataSectors i := fun i =>
      congrArg BitVec.toInt (Memory.word_congr fun k _ => untouched _ (by omega))
    have place : ∀ k, dataSector disk hdr' k = dataSector disk hdr k := by
      intro k
      rw [dataSector, dataSector, slots, slots]
    rw [same, Nat.sub_self] at taken
    rw [same] at count fits ⊢
    refine extended_of_recorded bits count fits marked distinct taken ?_ ?_ ?_
      fun i past => untouched i (by omega)
    · rw [recorded_congr (fun i _ => slots i) fun _ => rfl]
      exact (List.append_nil _).symm
    · rw [dataSectorsOf, dataSectorsOf, funext place]
      exact (List.append_nil _).symm
    · intro k indirect bound
      rw [place]
      exact small _ (mem_drop_recorded.mpr ⟨k, indirect, bound, rfl⟩)

/-! ### Growth that goes wrong -/

/-- The block at each place `ByteToSector` answers with. -/
theorem Extended.answers {old new : Nat} (extended : Extended disk vis hdr hdr' freeMap after old new)
    (fits : new ≤ 40) (indirect : 9 ≤ new → ValidSector (hdr'.dataSectors 8)) {k : Nat}
    (bound : k < new) :
    (k < old → blockSector disk hdr' k = dataSector disk hdr k) ∧
      (old ≤ k → after.Marked (blockSector disk hdr' k)) := by
  obtain ⟨places, length, answers, kept, -, fresh⟩ := extended.blocks
  have found : places[k]? = some places[k] := List.getElem?_eq_getElem (by omega)
  have reads : Ensures (hdr'.ByteToSector ((k * SectorSize : Nat) : Int))
      (fun sector _ _ => sector = blockSector disk hdr' k) (fun _ => True) disk vis :=
    ensures_ByteToSector k rfl (by omega) (fun large => indirect (by omega)) rfl
  obtain ⟨sector, _, _, ⟨answered, -, -⟩, located⟩ := ensures_both (answers k _ found) reads
  have place : blockSector disk hdr' k = places[k] := located.symm.trans answered
  rw [place]
  constructor
  · intro before
    have same := (kept k before).symm.trans found
    exact (Option.some.inj same).symm
  · intro new
    refine (fresh _ (List.mem_iff_getElem?.mpr ⟨k - old, ?_⟩)).2
    rw [List.getElem?_drop, Nat.add_sub_cancel' new]
    exact found

/-- An entry of the indirect block from 128 on is not read as it was stored. -/
theorem not_grows_right_of_high (described : Describes disk hdr length sectors)
    (bits : freeMap.numBits = 1024) (fits : sectorsFor (length + size) ≤ 40)
    (marked : ∀ s ∈ sectors, freeMap.Marked s)
    (same : sectorsFor (length + size) = sectorsFor length) {s : Int} (entry : s ∈ sectors.drop 9)
    (high : 128 ≤ s) : ¬ GrowsRight freeMap length sectors size := by
  intro right
  obtain ⟨hdr', after, computed, count, -, frame⟩ :=
    described.extend bits fits (by omega) (by rw [same]; omega)
  obtain ⟨hdr'', after', computed', extended⟩ := right disk 0 hdr described
  obtain ⟨-, rfl, rfl⟩ : true = true ∧ hdr' = hdr'' ∧ after = after' := by
    simpa using computed.symm.trans computed'
  obtain rfl := described.places
  obtain ⟨k, indirect, bound, rfl⟩ := mem_drop_recorded.mp entry
  have block : hdr'.dataSectors 8 = hdr.dataSectors 8 :=
    congrArg BitVec.toInt (Memory.word_congr fun i _ => frame _ (by omega) (by omega))
  have valid : ValidSector (hdr'.dataSectors 8) := by
    obtain ⟨low, upper, -⟩ := marked _ (mem_recorded.mpr (.inr ⟨by omega, rfl⟩))
    rw [bits] at upper
    rw [block]
    exact ⟨low, upper⟩
  have read := (extended.answers fits (fun _ => valid) (by omega)).1 bound
  have small := signedChar_lt ((disk (hdr'.dataSectors 8)).mem (4 * (k - 8)))
  rw [blockSector, if_neg (by omega)] at read
  omega

/-- The ninth sector is taken for data and read as an indirect block: whatever
it holds decides where the ninth block is. -/
theorem not_grows_right_to_nine (described : Describes disk hdr length sectors)
    (bits : freeMap.numBits = 1024) (before : sectorsFor length ≤ 8)
    (nine : sectorsFor (length + size) = 9)
    (enough : need (sectorsFor (length + size)) - need (sectorsFor length) ≤ freeMap.freeCount) :
    ¬ GrowsRight freeMap length sectors size := by
  intro right
  obtain ⟨hdr', after, computed, count, taken, -⟩ :=
    described.extend bits (by omega) (by omega) enough
  obtain ⟨low, upper, -⟩ := taken.fresh (hdr'.dataSectors 8) (mem_slots.mpr
    ⟨8 - sectorsFor length, by omega, by rw [Nat.add_sub_cancel' before]⟩)
  rw [bits] at upper
  -- what the sector holds when it is taken
  let stale : Disk := Function.update disk (hdr'.dataSectors 8) (.of fun _ => 255)
  obtain ⟨hdr'', after', computed', extended⟩ :=
    right stale 0 hdr (described.congr (fun _ _ => rfl) fun large => by omega)
  obtain ⟨-, rfl, rfl⟩ : true = true ∧ hdr' = hdr'' ∧ after = after' := by
    simpa using computed.symm.trans computed'
  have found := (extended.answers (k := 8) (by omega) (fun _ => ⟨low, upper⟩) (by omega)).2 before
  have held : blockSector stale hdr' 8 = -1 := by
    rw [blockSector, if_neg (by omega)]
    simp only [stale, Function.update_self]
    rfl
  rw [held] at found
  exact absurd found.1 (by decide)

/-- From the tenth sector on, growth overwrites what follows the slots. -/
theorem not_grows_right_past_slots (described : Describes disk hdr length sectors)
    (bits : freeMap.numBits = 1024) (fits : sectorsFor (length + size) ≤ 40)
    (more : sectorsFor length < sectorsFor (length + size)) (past : 10 ≤ sectorsFor (length + size))
    (enough : need (sectorsFor (length + size)) - need (sectorsFor length) ≤ freeMap.freeCount) :
    ¬ GrowsRight freeMap length sectors size := by
  intro right
  let full : FileHeader := hdr.splice 44 84 fun _ => 255
  have described' : Describes disk full length sectors :=
    described.congr (fun i less => mem_splice (by omega) (by omega)) fun _ => rfl
  obtain ⟨hdr'', after', computed', extended⟩ := right disk 0 full described'
  have room : sectorsFor (length + size) ≤ 30 := extend_room described' more computed'
  obtain ⟨hdr', after, computed, -, taken, -⟩ := described'.extend bits fits (.inl room) enough
  obtain ⟨-, rfl, rfl⟩ : true = true ∧ hdr' = hdr'' ∧ after = after' := by
    simpa using computed.symm.trans computed'
  -- the first slot past the ninth that was filled
  let m := max (sectorsFor length) 9
  obtain ⟨low, -, -⟩ := taken.fresh (hdr'.dataSectors m) (mem_slots.mpr
    ⟨m - sectorsFor length, by omega, by rw [Nat.add_sub_cancel' (by omega)]⟩)
  have kept : hdr'.dataSectors m = full.dataSectors m :=
    congrArg BitVec.toInt (Memory.word_congr fun k _ => extended.fields _ (by omega))
  have ones : full.mem.word (8 + 4 * m) = Memory.word (fun _ => 255) 0 := by
    refine Memory.word_congr fun k inner => ?_
    have inside : 8 + 4 * m + k < 128 := by omega
    have stored : full.mem (8 + 4 * m + k) =
        hdr.mem.splice 44 84 (fun _ => 255) (8 + 4 * m + k) :=
      @Block.mem_of SectorSize (hdr.mem.splice 44 84 fun _ => 255) _ inside
    rw [stored, Memory.splice_inside (by omega) (by omega)]
  have negative : full.dataSectors m = -1 := by
    rw [dataSectors, field, ones]
    rfl
  omega

/-- Growth is right exactly within eight sectors, or within the sectors the file
already has while the entries of its indirect block are read as stored. -/
theorem extend_grows_right_iff (described : Describes disk hdr length sectors)
    (bits : freeMap.numBits = NumSectors) (fits : length + size ≤ 40 * SectorSize)
    (distinct : sectors.Nodup) (marked : ∀ s ∈ sectors, freeMap.Marked s)
    (enough : need (sectorsFor (length + size)) - need (sectorsFor length) ≤ freeMap.freeCount) :
    GrowsRight freeMap length sectors size ↔
      sectorsFor (length + size) ≤ 8 ∨ sectorsFor (length + size) = sectorsFor length ∧
        ∀ s ∈ sectors.drop 9, s < 128 := by
  have within : sectorsFor (length + size) ≤ 40 := by
    unfold sectorsFor
    simp only [SectorSize] at fits
    omega
  have less : sectorsFor length ≤ sectorsFor (length + size) := by
    unfold sectorsFor
    omega
  constructor
  · intro right
    by_contra neither
    push Not at neither
    obtain ⟨large, wrong⟩ := neither
    by_cases same : sectorsFor (length + size) = sectorsFor length
    · obtain ⟨s, entry, high⟩ := wrong same
      exact not_grows_right_of_high described bits within marked same entry high right
    · by_cases nine : sectorsFor (length + size) = 9
      · exact not_grows_right_to_nine described bits (by omega) nine enough right
      · exact not_grows_right_past_slots described bits within (by omega) (by omega) enough right
  · exact grows_right bits within distinct marked enough

end Lemmas

/-- The header of an empty file. -/
theorem blankHeader_describes (disk : Disk) : Describes disk blankHeader 0 [] where
  bytes := rfl
  count := rfl
  places := rfl

theorem extend_grows_right_empty : Describes blankDisk blankHeader 0 [] ∧
    GrowsRight clearMap 0 [] 1000 := by
  refine ⟨blankHeader_describes blankDisk, (extend_grows_right_iff (blankHeader_describes blankDisk)
    rfl (by decide) List.nodup_nil (by simp) ?_).mpr (.inl (by decide))⟩
  rw [clearMap_free]
  decide

/-- An empty file that is written 1025 bytes: the ninth sector it gets is taken
for its indirect block. -/
theorem extend_grows_wrong : Describes blankDisk blankHeader 0 [] ∧
    need (sectorsFor (0 + 1025)) - need (sectorsFor 0) ≤ highClear.freeCount ∧
    ¬ GrowsRight highClear 0 [] 1025 := by
  have enough : need (sectorsFor (0 + 1025)) - need (sectorsFor 0) ≤ highClear.freeCount :=
    highClear_free
  exact ⟨blankHeader_describes blankDisk, enough,
    not_grows_right_to_nine (blankHeader_describes blankDisk) rfl (by decide) (by decide) enough⟩

end Nachos
