import Mathlib.Order.Interval.Finset.Nat
import Mathlib.Data.Finset.Card
import Mathlib.Tactic.Push
import Nachos.Filesys.BitMap

/-! `BitMap` as a set of marked numbers. Allocation is described by `Takes` (a
list of distinct clear bits becomes marked) and release by `Releases`; both
compose, so the loops of the file system are sums of single steps. -/
namespace Nachos.BitMap
open Effects

/-- Bit `s` exists and is set. -/
def Marked (bitmap : BitMap) (s : Int) : Prop :=
  0 ≤ s ∧ s < bitmap.numBits ∧ bitmap.bit s.toNat = true

instance (bitmap : BitMap) (s : Int) : Decidable (bitmap.Marked s) :=
  inferInstanceAs (Decidable (_ ∧ _ ∧ _))

/-- The number of clear bits. -/
def freeCount (bitmap : BitMap) : Nat :=
  ((Finset.range bitmap.numBits).filter fun i => bitmap.bit i = false).card

/-- `sectors` are distinct clear bits, and marking them turns one map into the
other. -/
structure Takes (before : BitMap) (sectors : List Int) (after : BitMap) : Prop where
  size : after.numBits = before.numBits
  fresh : ∀ s ∈ sectors, 0 ≤ s ∧ s < before.numBits ∧ ¬ before.Marked s
  distinct : sectors.Nodup
  exactly : ∀ s, after.Marked s ↔ before.Marked s ∨ s ∈ sectors

/-- Clearing `sectors` turns one map into the other. -/
structure Releases (before : BitMap) (sectors : List Int) (after : BitMap) : Prop where
  size : after.numBits = before.numBits
  exactly : ∀ s, after.Marked s ↔ before.Marked s ∧ s ∉ sectors

section Bits

private theorem split_eq_iff (i j : Nat) : (j / 32 = i / 32 ∧ j % 32 = i % 32) ↔ j = i := by
  omega

private theorem one_shift_getLsbD {k m : Nat} (km : k < 32) (bound : m < 32) :
    (1#32 <<< k).getLsbD m = decide (m = k) := by
  rw [BitVec.getLsbD_shiftLeft]
  by_cases same : m = k
  · subst same
    simp [bound]
  · by_cases less : m < k
    · simp [less, same]
    · simp [bound, same]
      omega

theorem bit_markWord (bitmap : BitMap) (i j : Nat) :
    (bitmap.markWord i).bit j = (bitmap.bit j || decide (j = i)) := by
  have within : j % 32 < 32 := Nat.mod_lt _ (by omega)
  have shift : i % 32 < 32 := Nat.mod_lt _ (by omega)
  simp only [bit, markWord, BitsInWord]
  by_cases word : j / 32 = i / 32
  · rw [word, Function.update_self, BitVec.getLsbD_or, one_shift_getLsbD shift within]
    congr 1
    have same := split_eq_iff i j
    simp only [word, true_and] at same
    simp only [same]
  · rw [Function.update_of_ne word]
    have different : j ≠ i := fun same => word (by rw [same])
    simp [different]

theorem bit_clearWord (bitmap : BitMap) (i j : Nat) :
    (bitmap.clearWord i).bit j = (bitmap.bit j && decide (j ≠ i)) := by
  have within : j % 32 < 32 := Nat.mod_lt _ (by omega)
  have shift : i % 32 < 32 := Nat.mod_lt _ (by omega)
  simp only [bit, clearWord, BitsInWord]
  by_cases word : j / 32 = i / 32
  · rw [word, Function.update_self, BitVec.getLsbD_and, BitVec.getLsbD_not,
      one_shift_getLsbD shift within]
    have same := split_eq_iff i j
    simp only [word, true_and] at same
    simp [same, within]
  · rw [Function.update_of_ne word]
    have different : j ≠ i := fun same => word (by rw [same])
    simp [different]

private theorem and_one_shift (value : BitVec 32) {k : Nat} (bound : k < 32) :
    (value &&& 1#32 <<< k != 0) = value.getLsbD k := by
  cases set : value.getLsbD k with
  | false =>
    have zero : value &&& 1#32 <<< k = 0 := by
      apply BitVec.eq_of_getLsbD_eq
      intro m within
      rw [BitVec.getLsbD_and, one_shift_getLsbD bound within]
      by_cases same : m = k
      · simp [same, set]
      · simp [same]
    simp [zero]
  | true =>
    have nonzero : value &&& 1#32 <<< k ≠ 0 := by
      intro zero
      have bitK := congrArg (fun v => BitVec.getLsbD v k) zero
      simp [set, one_shift_getLsbD bound bound] at bitK
    simpa using nonzero

end Bits

variable {bitmap before after middle : BitMap}

theorem index_ok {s : Int} (lower : 0 ≤ s) (upper : s < bitmap.numBits) :
    bitmap.index s = .ok s.toNat := if_pos ⟨lower, upper⟩

theorem test_ok {s : Int} (lower : 0 ≤ s) (upper : s < bitmap.numBits) :
    bitmap.Test s = .ok (decide (bitmap.Marked s)) := by
  simp only [Test, index_ok lower upper, bind, Except.bind, pure, Except.pure]
  simp only [BitsInWord]
  rw [and_one_shift _ (Nat.mod_lt _ (by decide))]
  congr 1
  rw [Bool.eq_iff_iff]
  simp [Marked, lower, upper, bit]

theorem mark_ok {s : Int} (lower : 0 ≤ s) (upper : s < bitmap.numBits) :
    bitmap.Mark s = .ok (bitmap.markWord s.toNat) := by
  simp only [Mark, index_ok lower upper, bind, Except.bind, pure, Except.pure]

theorem clear_ok {s : Int} (lower : 0 ≤ s) (upper : s < bitmap.numBits) :
    bitmap.Clear s = .ok (bitmap.clearWord s.toNat) := by
  simp only [Clear, index_ok lower upper, bind, Except.bind, pure, Except.pure]

/-- `Mark` of an existing bit adds that bit and no other. -/
theorem marked_markWord {s t : Int} (lower : 0 ≤ s) (upper : s < bitmap.numBits) :
    (bitmap.markWord s.toNat).Marked t ↔ bitmap.Marked t ∨ t = s := by
  simp only [Marked, bit_markWord, Bool.or_eq_true, decide_eq_true_eq]
  have size : (bitmap.markWord s.toNat).numBits = bitmap.numBits := rfl
  rw [size]
  constructor
  · rintro ⟨low, high, set | same⟩
    · exact .inl ⟨low, high, set⟩
    · exact .inr (by omega)
  · rintro (⟨low, high, set⟩ | rfl)
    · exact ⟨low, high, .inl set⟩
    · exact ⟨lower, upper, .inr rfl⟩

/-- `Clear` of an existing bit removes that bit and no other. -/
theorem marked_clearWord {s t : Int} (lower : 0 ≤ s) :
    (bitmap.clearWord s.toNat).Marked t ↔ bitmap.Marked t ∧ t ≠ s := by
  simp only [Marked, bit_clearWord, Bool.and_eq_true, decide_eq_true_eq]
  have size : (bitmap.clearWord s.toNat).numBits = bitmap.numBits := rfl
  rw [size]
  constructor
  · rintro ⟨low, high, set, different⟩
    exact ⟨⟨low, high, set⟩, fun same => different (by rw [same])⟩
  · rintro ⟨⟨low, high, set⟩, different⟩
    exact ⟨low, high, set, by omega⟩

theorem takes_nil (bitmap : BitMap) : Takes bitmap [] bitmap where
  size := rfl
  fresh := by simp
  distinct := List.nodup_nil
  exactly := by simp

theorem takes_one {s : Int} (lower : 0 ≤ s) (upper : s < bitmap.numBits)
    (clear : ¬ bitmap.Marked s) : Takes bitmap [s] (bitmap.markWord s.toNat) where
  size := rfl
  fresh := by simpa using ⟨lower, upper, clear⟩
  distinct := List.nodup_singleton s
  exactly := fun t => by simp [marked_markWord lower upper]

theorem Takes.append {first second : List Int} (one : Takes before first middle)
    (two : Takes middle second after) : Takes before (first ++ second) after where
  size := two.size.trans one.size
  fresh := by
    intro s member
    rcases List.mem_append.mp member with here | there
    · exact one.fresh s here
    · obtain ⟨low, high, clear⟩ := two.fresh s there
      refine ⟨low, by rw [← one.size]; exact high, fun set => clear ((one.exactly s).mpr (.inl set))⟩
  distinct := by
    refine List.nodup_append.mpr ⟨one.distinct, two.distinct, ?_⟩
    rintro s here t there rfl
    exact (two.fresh s there).2.2 ((one.exactly s).mpr (.inr here))
  exactly := fun s => by
    rw [two.exactly, one.exactly, List.mem_append, or_assoc]

theorem releases_nil (bitmap : BitMap) : Releases bitmap [] bitmap where
  size := rfl
  exactly := by simp

theorem releases_one {s : Int} (lower : 0 ≤ s) :
    Releases bitmap [s] (bitmap.clearWord s.toNat) where
  size := rfl
  exactly := fun t => by simp [marked_clearWord lower]

theorem Releases.append {first second : List Int} (one : Releases before first middle)
    (two : Releases middle second after) : Releases before (first ++ second) after where
  size := two.size.trans one.size
  exactly := fun s => by
    rw [two.exactly, one.exactly, List.mem_append, not_or, and_assoc]

/-- Two maps of one size with the same marked bits have as many clear ones. -/
theorem freeCount_congr (size : after.numBits = before.numBits)
    (same : ∀ s, after.Marked s ↔ before.Marked s) : after.freeCount = before.freeCount := by
  unfold freeCount
  rw [size]
  congr 1
  apply Finset.filter_congr
  intro i member
  have bound := Finset.mem_range.mp member
  have here := same (i : Int)
  simp only [Marked, size, Int.toNat_natCast] at here
  have low : (0 : Int) ≤ i := by omega
  have high : (i : Int) < before.numBits := by omega
  simp only [low, high, true_and] at here
  cases left : after.bit i <;> cases right : before.bit i <;> simp_all

private theorem freeCount_one {s : Int} (taken : Takes before [s] after) :
    after.freeCount + 1 = before.freeCount := by
  obtain ⟨low, high, clear⟩ := taken.fresh s (by simp)
  have bound : s.toNat < before.numBits := by omega
  have same : ∀ i, i < before.numBits →
      (after.bit i = false ↔ before.bit i = false ∧ i ≠ s.toNat) := by
    intro i within
    have here := taken.exactly (i : Int)
    simp only [Marked, taken.size, Int.toNat_natCast, List.mem_singleton] at here
    have lowI : (0 : Int) ≤ i := by omega
    have highI : (i : Int) < before.numBits := by omega
    have whole : (i : Int) = s ↔ i = s.toNat := by omega
    simp only [lowI, highI, true_and, whole] at here
    cases left : after.bit i <;> cases right : before.bit i <;> simp_all
  have erased : ((Finset.range before.numBits).filter fun i => after.bit i = false) =
      ((Finset.range before.numBits).filter fun i => before.bit i = false).erase s.toNat := by
    ext i
    simp only [Finset.mem_filter, Finset.mem_range, Finset.mem_erase]
    constructor
    · rintro ⟨within, unset⟩
      obtain ⟨old, different⟩ := (same i within).mp unset
      exact ⟨different, within, old⟩
    · rintro ⟨different, within, old⟩
      exact ⟨within, (same i within).mpr ⟨old, different⟩⟩
  have member : s.toNat ∈ (Finset.range before.numBits).filter fun i => before.bit i = false := by
    simp only [Finset.mem_filter, Finset.mem_range]
    refine ⟨bound, ?_⟩
    cases value : before.bit s.toNat with
    | false => rfl
    | true => exact absurd ⟨low, high, value⟩ clear
  unfold freeCount
  rw [taken.size, erased, Finset.card_erase_of_mem member]
  have positive := Finset.card_pos.mpr ⟨_, member⟩
  omega

/-- The loop of `NumClear` counts the clear bits. -/
theorem numClear_ok (bitmap : BitMap) : bitmap.NumClear = .ok (bitmap.freeCount : Int) := by
  have prefixes : ∀ n, n ≤ bitmap.numBits →
      (List.range n).foldlM (fun count (i : Nat) => do
        return if !(← bitmap.Test i) then count + 1 else count) (0 : Int) =
      Except.ok (ε := Fault)
        ((((Finset.range n).filter fun i => bitmap.bit i = false).card : Nat) : Int) := by
    intro n bound
    induction n with
    | zero => rfl
    | succ n ih =>
      have low : (0 : Int) ≤ n := by omega
      have high : (n : Int) < bitmap.numBits := by omega
      rw [List.range_succ, List.foldlM_append, ih (by omega), Finset.range_add_one,
        Finset.filter_insert]
      simp only [bind, Except.bind, List.foldlM_cons, List.foldlM_nil, test_ok low high, pure,
        Except.pure, Marked, low, high, true_and, Int.toNat_natCast]
      cases bitmap.bit n <;> simp
  exact prefixes bitmap.numBits le_rfl

/-- `Find` takes the least clear bit, or reports -1 on a full map. -/
theorem find_cases (bitmap : BitMap) :
    (∃ s after, bitmap.Find = .ok (s, after) ∧ Takes bitmap [s] after ∧
      ∀ t, 0 ≤ t → t < s → bitmap.Marked t) ∨
    (bitmap.Find = .ok (-1, bitmap) ∧
      ∀ t : Int, 0 ≤ t → t < bitmap.numBits → bitmap.Marked t) := by
  have scan : ∀ remaining i, i + remaining = bitmap.numBits →
      (∀ t : Int, 0 ≤ t → t < i → bitmap.Marked t) →
      (∃ s after, bitmap.findFrom remaining i = .ok (s, after) ∧ Takes bitmap [s] after ∧
        ∀ t, 0 ≤ t → t < s → bitmap.Marked t) ∨
      (bitmap.findFrom remaining i = .ok (-1, bitmap) ∧
        ∀ t : Int, 0 ≤ t → t < bitmap.numBits → bitmap.Marked t) := by
    intro remaining
    induction remaining with
    | zero =>
      intro i total below
      refine .inr ⟨rfl, fun t low high => below t low (by omega)⟩
    | succ remaining ih =>
      intro i total below
      have low : (0 : Int) ≤ i := by omega
      have high : (i : Int) < bitmap.numBits := by omega
      by_cases set : bitmap.Marked i
      · have step : bitmap.findFrom (remaining + 1) i = bitmap.findFrom remaining (i + 1) := by
          simp [findFrom, test_ok low high, set, bind, Except.bind]
        rw [step]
        apply ih (i + 1) (by omega)
        intro t lowT highT
        by_cases last : t = i
        · subst last
          exact set
        · exact below t lowT (by omega)
      · refine .inl ⟨i, bitmap.markWord i, ?_, ?_, below⟩
        · simp only [findFrom, test_ok low high, mark_ok low high, set, bind, Except.bind, pure,
            Except.pure, decide_false, Bool.not_false, if_true, Int.toNat_natCast]
        · exact takes_one low high set
  exact scan bitmap.numBits 0 (by omega) (by omega)

/-- A taken bit leaves one clear bit fewer. -/
theorem freeCount_takes {sectors : List Int} (taken : Takes before sectors after) :
    after.freeCount + sectors.length = before.freeCount := by
  induction sectors generalizing before with
  | nil => exact freeCount_congr taken.size (by simpa using taken.exactly)
  | cons s rest ih =>
    obtain ⟨low, high, clear⟩ := taken.fresh s (by simp)
    have distinct := List.nodup_cons.mp taken.distinct
    have one := takes_one low high clear
    have tail : Takes (before.markWord s.toNat) rest after := by
      refine ⟨taken.size, ?_, distinct.2, ?_⟩
      · intro t member
        obtain ⟨lowT, highT, clearT⟩ := taken.fresh t (by simp [member])
        refine ⟨lowT, highT, ?_⟩
        rw [marked_markWord low high]
        rintro (old | rfl)
        · exact clearT old
        · exact distinct.1 member
      · intro t
        rw [taken.exactly, marked_markWord low high, List.mem_cons, or_assoc]
    have counted := ih tail
    have first := freeCount_one one
    simp only [List.length_cons]
    omega

/-- While a bit is clear, `Find` takes the least one. -/
theorem find_of_free (free : 0 < bitmap.freeCount) :
    ∃ s after, bitmap.Find = .ok (s, after) ∧ Takes bitmap [s] after ∧
      ∀ t, 0 ≤ t → t < s → bitmap.Marked t := by
  rcases find_cases bitmap with found | ⟨-, full⟩
  · exact found
  · exfalso
    have none : bitmap.freeCount = 0 := by
      unfold freeCount
      apply Finset.card_eq_zero.mpr
      apply Finset.filter_eq_empty_iff.mpr
      intro i member
      have within := Finset.mem_range.mp member
      have set := full (i : Int) (by omega) (by omega)
      simpa using set.2.2
    omega

/-- A full map has nothing for `Find`. -/
theorem find_full (full : bitmap.freeCount = 0) : bitmap.Find = .ok (-1, bitmap) := by
  rcases find_cases bitmap with ⟨s, after, -, taken, -⟩ | ⟨none, -⟩
  · have counted := freeCount_takes taken
    simp only [List.length_singleton] at counted
    omega
  · exact none

/-- Taking one sector after another with `Find`: they come in ascending order,
and nothing clear is left below any of them. -/
structure TakesLeast (before : BitMap) (sectors : List Int) (after : BitMap) : Prop
    extends Takes before sectors after where
  ascending : sectors.Pairwise (· < ·)
  below : ∀ s ∈ sectors, ∀ t, 0 ≤ t → t < s → after.Marked t

theorem takesLeast_nil (bitmap : BitMap) : TakesLeast bitmap [] bitmap where
  toTakes := takes_nil bitmap
  ascending := .nil
  below := by simp

theorem TakesLeast.append {first second : List Int} (one : TakesLeast before first middle)
    (two : TakesLeast middle second after) : TakesLeast before (first ++ second) after where
  toTakes := one.toTakes.append two.toTakes
  ascending := by
    refine List.pairwise_append.mpr ⟨one.ascending, two.ascending, ?_⟩
    intro s here u there
    obtain ⟨low, -, clear⟩ := two.fresh u there
    by_contra above
    by_cases same : u = s
    · exact clear ((one.exactly u).mpr (.inr (same ▸ here)))
    · exact clear (one.below s here u low (by omega))
  below := by
    intro s member t low less
    rcases List.mem_append.mp member with here | there
    · exact (two.exactly t).mpr (.inl (one.below s here t low less))
    · exact two.below s there t low less

/-- One `Find` on a map with room. -/
theorem find_least (free : 0 < bitmap.freeCount) :
    ∃ s after, bitmap.Find = .ok (s, after) ∧ TakesLeast bitmap [s] after := by
  obtain ⟨s, after, found, taken, least⟩ := find_of_free free
  refine ⟨s, after, found, taken, List.pairwise_singleton _ _, ?_⟩
  intro s' member t low less
  rw [List.mem_singleton.mp member] at less
  exact (taken.exactly t).mpr (.inl (least t low less))

/-- The marking loop of `myFind` over a clear run. -/
theorem markRun_ok {i size : Nat} (bound : i + size ≤ bitmap.numBits)
    (clear : ∀ j, j < size → ¬ bitmap.Marked (i + j : Nat)) :
    ∃ after, bitmap.markRun i size = .ok after ∧
      Takes bitmap ((List.range size).map fun j => ((i + j : Nat) : Int)) after := by
  induction size with
  | zero => exact ⟨bitmap, rfl, takes_nil bitmap⟩
  | succ size ih =>
    obtain ⟨middle, marked, taken⟩ := ih (by omega) (fun j less => clear j (by omega))
    have low : (0 : Int) ≤ ((i + size : Nat) : Int) := by omega
    have high : ((i + size : Nat) : Int) < middle.numBits := by rw [taken.size]; omega
    have fresh : ¬ middle.Marked ((i + size : Nat) : Int) := by
      rw [taken.exactly]
      rintro (old | new)
      · exact clear size (by omega) old
      · obtain ⟨j, member, same⟩ := List.mem_map.mp new
        have less := List.mem_range.mp member
        omega
    refine ⟨middle.markWord (i + size), ?_, ?_⟩
    · unfold markRun at marked ⊢
      rw [List.range_succ, List.foldlM_append, marked]
      simp only [bind, Except.bind, List.foldlM_cons, List.foldlM_nil, mark_ok low high, pure,
        Except.pure, Int.toNat_natCast]
    · rw [List.range_succ, List.map_append]
      exact taken.append (takes_one low high fresh)

/-- The test loop of `myFind` either runs off the map, which fails an `ASSERT`,
or says whether the whole run is clear. -/
theorem allClear_cases (bitmap : BitMap) (i size : Nat) :
    (bitmap.numBits < i + size ∧ bitmap.allClear i size = .error .assertion) ∨
    (i + size ≤ bitmap.numBits ∨ size = 0) ∧ bitmap.allClear i size =
      .ok (decide (∀ j, j < size → ¬ bitmap.Marked (i + j : Nat))) := by
  induction size with
  | zero => exact .inr ⟨.inr rfl, by simp [allClear, pure, Except.pure]⟩
  | succ size ih =>
    have split : bitmap.allClear i (size + 1) = (bitmap.allClear i size >>= fun flag => do
        return if ← bitmap.Test (i + size : Nat) then false else flag) := by
      simp [allClear, List.range_succ, List.foldlM_append]
    rcases ih with ⟨short, failed⟩ | ⟨fits, passed⟩
    · refine .inl ⟨by omega, ?_⟩
      rw [split, failed]
      rfl
    · by_cases within : i + size < bitmap.numBits
      · refine .inr ⟨.inl (by omega), ?_⟩
        have low : (0 : Int) ≤ ((i + size : Nat) : Int) := by omega
        have high : ((i + size : Nat) : Int) < bitmap.numBits := by omega
        rw [split, passed]
        simp only [bind, Except.bind, test_ok low high, pure, Except.pure]
        congr 1
        rw [Bool.eq_iff_iff]
        by_cases last : bitmap.Marked ((i + size : Nat) : Int)
        · simp only [last, decide_true, if_true, decide_eq_true_eq]
          constructor
          · intro impossible
            cases impossible
          · intro all
            exact absurd last (all size (by omega))
        · simp only [last, decide_false, Bool.false_eq_true, if_false, decide_eq_true_eq]
          constructor
          · intro all j less
            by_cases same : j = size
            · subst same
              exact last
            · exact all j (by omega)
          · intro all j less
            exact all j (by omega)
      · refine .inl ⟨by omega, ?_⟩
        rw [split, passed]
        simp only [bind, Except.bind, Test, index]
        rw [if_neg (by omega)]

/-- A run of `size` clear bits starts at `b`, and none starts earlier. -/
structure FirstRun (bitmap : BitMap) (size b : Nat) : Prop where
  fits : b + size ≤ bitmap.numBits
  clear : ∀ j, j < size → ¬ bitmap.Marked (b + j : Nat)
  least : ∀ b', b' < b → ∃ j, j < size ∧ bitmap.Marked (b' + j : Nat)

theorem FirstRun.unique {size b b' : Nat} (first : FirstRun bitmap size b)
    (second : FirstRun bitmap size b') : b = b' := by
  rcases Nat.lt_trichotomy b b' with less | same | more
  · obtain ⟨j, bound, set⟩ := second.least b less
    exact absurd set (first.clear j bound)
  · exact same
  · obtain ⟨j, bound, set⟩ := first.least b' more
    exact absurd set (second.clear j bound)

/-- If there is a clear run at all, there is a first one. -/
theorem exists_firstRun {size b : Nat} (fits : b + size ≤ bitmap.numBits)
    (clear : ∀ j, j < size → ¬ bitmap.Marked (b + j : Nat)) : ∃ b', FirstRun bitmap size b' := by
  induction b using Nat.strong_induction_on with
  | _ b ih =>
    by_cases earlier : ∃ b', b' < b ∧ ∀ j, j < size → ¬ bitmap.Marked (b' + j : Nat)
    · obtain ⟨b', less, clear'⟩ := earlier
      exact ih b' less (by omega) clear'
    · push Not at earlier
      exact ⟨b, fits, clear, earlier⟩

theorem FirstRun.le_freeCount {size b : Nat} (run : FirstRun bitmap size b) :
    size ≤ bitmap.freeCount := by
  have inside : Finset.Ico b (b + size) ⊆
      (Finset.range bitmap.numBits).filter fun i => bitmap.bit i = false := by
    intro i member
    obtain ⟨low, high⟩ := Finset.mem_Ico.mp member
    have fits := run.fits
    have clear := run.clear (i - b) (by omega)
    rw [show b + (i - b) = i by omega] at clear
    refine Finset.mem_filter.mpr ⟨Finset.mem_range.mpr (by omega), ?_⟩
    by_contra set
    refine clear ⟨by omega, by omega, ?_⟩
    rw [Int.toNat_natCast]
    exact Bool.eq_true_of_not_eq_false set
  have card := Finset.card_le_card inside
  rw [Nat.card_Ico] at card
  unfold freeCount
  omega

/-- `myFind` marks the first clear run if there is one. Otherwise it fails an
`ASSERT` at the end of the map, or finds nothing when at most a single bit was
asked for. -/
theorem myFind_cases (bitmap : BitMap) (size : Nat) :
    (∃ (i : Nat) (after : BitMap), bitmap.myFind size = .ok ((i : Int), after) ∧
      FirstRun bitmap size i ∧
      Takes bitmap ((List.range size).map fun j => ((i + j : Nat) : Int)) after) ∨
    (bitmap.myFind size = .error .assertion ∧ 1 < size ∧ ∀ b, ¬ FirstRun bitmap size b) ∨
    (bitmap.myFind size = .ok (-1, bitmap) ∧ (size ≤ 1 ∨ bitmap.numBits = 0) ∧
      (0 < size → ∀ b, ¬ FirstRun bitmap size b)) := by
  have scan : ∀ remaining i, i + remaining = bitmap.numBits →
      (∀ b', b' < i → b' + size ≤ bitmap.numBits ∧ ∃ j, j < size ∧ bitmap.Marked (b' + j : Nat)) →
      (∃ (k : Nat) (after : BitMap), bitmap.myFindFrom size remaining i = .ok ((k : Int), after) ∧
        FirstRun bitmap size k ∧
        Takes bitmap ((List.range size).map fun j => ((k + j : Nat) : Int)) after) ∨
      (bitmap.myFindFrom size remaining i = .error .assertion ∧ 1 < size ∧
        ∀ b, ¬ FirstRun bitmap size b) ∨
      (bitmap.myFindFrom size remaining i = .ok (-1, bitmap) ∧
        (size ≤ 1 ∨ bitmap.numBits = 0) ∧ (0 < size → ∀ b, ¬ FirstRun bitmap size b)) := by
    intro remaining
    induction remaining with
    | zero =>
      intro i total blocked
      refine .inr (.inr ⟨rfl, ?_, fun positive b run => ?_⟩)
      · by_cases empty : bitmap.numBits = 0
        · exact .inr empty
        · -- the last start tested fitted, so at most one bit was asked for
          obtain ⟨fits, -⟩ := blocked (i - 1) (by omega)
          exact .inl (by omega)
      · have fits := run.fits
        obtain ⟨-, j, bound, set⟩ := blocked b (by omega)
        exact run.clear j bound set
    | succ remaining ih =>
      intro i total blocked
      rcases allClear_cases bitmap i size with ⟨short, failed⟩ | ⟨fits, tested⟩
      · refine .inr (.inl ⟨by simp only [myFindFrom, failed, bind, Except.bind], by omega,
          fun b run => ?_⟩)
        have fits := run.fits
        obtain ⟨-, j, bound, set⟩ := blocked b (by omega)
        exact run.clear j bound set
      · by_cases clear : ∀ j, j < size → ¬ bitmap.Marked (i + j : Nat)
        · obtain ⟨after, marked, taken⟩ := markRun_ok (by omega) clear
          refine .inl ⟨i, after, ?_, ⟨by omega, clear, fun b' less => (blocked b' less).2⟩, taken⟩
          simp only [myFindFrom, tested, marked, decide_eq_true clear, bind, Except.bind, pure,
            Except.pure, if_true]
        · have step : bitmap.myFindFrom size (remaining + 1) i =
              bitmap.myFindFrom size remaining (i + 1) := by
            simp only [myFindFrom, tested, clear, bind, Except.bind, decide_false,
              Bool.false_eq_true, if_false]
          rw [step]
          apply ih (i + 1) (by omega)
          intro b' less
          by_cases here : b' = i
          · subst here
            push Not at clear
            obtain ⟨j, bound, set⟩ := clear
            exact ⟨by omega, j, bound, set⟩
          · exact blocked b' (by omega)
  exact scan bitmap.numBits 0 (by omega) (by omega)

/-- The constructor leaves every bit clear, whatever its storage held. -/
theorem new_ok (storage : Nat → BitVec 32) (nitems : Nat) :
    ∃ bitmap, BitMap.new storage nitems = .ok bitmap ∧ bitmap.numBits = nitems ∧
      ∀ s, ¬ bitmap.Marked s := by
  have prefixes : ∀ n, n ≤ nitems →
      ∃ bitmap, (List.range n).foldlM (fun bitmap (i : Nat) => BitMap.Clear bitmap i)
        { numBits := nitems, map := storage } = .ok bitmap ∧ bitmap.numBits = nitems ∧
        ∀ s : Int, s < n → ¬ bitmap.Marked s := by
    intro n bound
    induction n with
    | zero => exact ⟨_, rfl, rfl, fun s below set => by have := set.1; omega⟩
    | succ n ih =>
      obtain ⟨bitmap, computed, size, clear⟩ := ih (by omega)
      have low : (0 : Int) ≤ n := by omega
      refine ⟨bitmap.clearWord n, ?_, size, ?_⟩
      · rw [List.range_succ, List.foldlM_append, computed]
        simp only [bind, Except.bind, List.foldlM_cons, List.foldlM_nil,
          clear_ok low (by rw [size]; omega), pure, Except.pure, Int.toNat_natCast]
      · intro s below set
        obtain ⟨old, different⟩ := (marked_clearWord low).mp set
        exact clear s (by omega) old
  obtain ⟨bitmap, computed, size, clear⟩ := prefixes nitems le_rfl
  exact ⟨bitmap, computed, size, fun s set => clear s (by rw [← size]; exact set.2.1) set⟩

end Nachos.BitMap
