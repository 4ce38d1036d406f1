import Nachos.Filesys.Allocation

/-! `BitMap` with its storage as the code has it: an array of `numWords` words
with whatever `new` found in it, where an index outside is undefined. Seen from
outside it is a finite set of numbers. -/
namespace Nachos
open Effects

/-- The fields of `BitMap`. -/
structure WordMap where
  numBits : Int
  numWords : Int
  map : Array (BitVec 32)

namespace WordMap

/-! ## The operations -/

/-- `map[index]`. -/
def load (w : WordMap) (index : Int) : Except Fault (BitVec 32) :=
  if 0 ≤ index then
    match w.map[index.toNat]? with
    | some word => .ok word
    | none => .error .undefined
  else .error .undefined

/-- `map[index] = word`. -/
def store (w : WordMap) (index : Int) (word : BitVec 32) : Except Fault WordMap :=
  if 0 ≤ index ∧ index < w.map.size then
    .ok { w with map := w.map.setIfInBounds index.toNat word }
  else .error .undefined

/-- `ASSERT(which >= 0 && which < numBits)`. -/
def check (w : WordMap) (which : Int) : Except Fault Unit :=
  if 0 ≤ which ∧ which < w.numBits then .ok () else .error .assertion

/-- `1 << (which % BitsInWord)`. -/
def mask (which : Int) : BitVec 32 := 1#32 <<< (which.tmod BitsInWord).toNat

def Mark (w : WordMap) (which : Int) : Except Fault WordMap := do
  w.check which
  let word ← w.load (which.tdiv BitsInWord)
  w.store (which.tdiv BitsInWord) (word ||| mask which)

def Clear (w : WordMap) (which : Int) : Except Fault WordMap := do
  w.check which
  let word ← w.load (which.tdiv BitsInWord)
  w.store (which.tdiv BitsInWord) (word &&& ~~~mask which)

def Test (w : WordMap) (which : Int) : Except Fault Bool := do
  w.check which
  let word ← w.load (which.tdiv BitsInWord)
  return word &&& mask which != 0

/-- The constructor; `storage` is what the fresh words hold. -/
def new (storage : Nat → BitVec 32) (nitems : Nat) : Except Fault WordMap :=
  let numWords := divRoundUp nitems BitsInWord
  (List.range nitems).foldlM (fun w (i : Nat) => w.Clear i)
    { numBits := nitems
      numWords := numWords
      map := Array.ofFn fun k : Fin numWords.toNat => storage k }

/-- The loop of `Find`, with `remaining` bits left to look at from bit `i`. -/
def findFrom (w : WordMap) : (remaining i : Nat) → Except Fault (Int × WordMap)
  | 0, _ => .ok (-1, w)
  | remaining + 1, i => do
    if !(← w.Test i) then
      let w ← w.Mark i
      return ((i : Int), w)
    else w.findFrom remaining (i + 1)

def Find (w : WordMap) : Except Fault (Int × WordMap) := w.findFrom w.numBits.toNat 0

def NumClear (w : WordMap) : Except Fault Int :=
  (List.range w.numBits.toNat).foldlM
    (fun count (i : Nat) => do return if !(← w.Test i) then count + 1 else count) 0

/-! ## The same words without an end -/

def toBitMap (w : WordMap) : BitMap where
  numBits := w.numBits.toNat
  map k := w.map.getD k 0

/-- There are as many words as the bits need. -/
structure Fitted (w : WordMap) : Prop where
  numBits : 0 ≤ w.numBits
  numWords : w.numWords = divRoundUp w.numBits BitsInWord
  size : (w.map.size : Int) = w.numWords

variable {n : Nat} {f : Nat → Bool} {w w' : WordMap} {i : Nat}

theorem divRoundUp_words (n : Nat) : divRoundUp n BitsInWord = (((n + 31) / 32 : Nat) : Int) := by
  show (n : Int).tdiv 32 + (if (n : Int).tmod 32 > 0 then 1 else 0) = _
  rw [Int.tdiv_eq_ediv_of_nonneg (by omega), Int.tmod_eq_emod_of_nonneg (by omega)]
  split
  · omega
  · omega

theorem tdiv_eq (i : Nat) : (i : Int).tdiv BitsInWord = ((i / 32 : Nat) : Int) :=
  (Int.ofNat_tdiv i 32).symm

theorem mask_eq (i : Nat) : mask i = 1#32 <<< (i % 32) := by
  unfold mask
  rw [show (i : Int).tmod BitsInWord = ((i % 32 : Nat) : Int) from (Int.ofNat_tmod i 32).symm]
  rfl

theorem check_inside (bound : (i : Int) < w.numBits) : w.check i = .ok () := if_pos ⟨by omega, bound⟩

theorem index_inside (bound : (i : Int) < w.numBits) : w.toBitMap.index i = .ok i := by
  have inside : i < w.toBitMap.numBits := by
    show i < w.numBits.toNat
    omega
  rw [BitMap.index_ok (by omega) (by exact_mod_cast inside), Int.toNat_natCast]

namespace Fitted

/-- The word of a bit is one of the array. -/
theorem word_lt (fitted : Fitted w) (bound : (i : Int) < w.numBits) : i / 32 < w.map.size := by
  have words := fitted.size.trans fitted.numWords
  rw [← Int.toNat_of_nonneg fitted.numBits, divRoundUp_words] at words
  omega

theorem load (fitted : Fitted w) (bound : (i : Int) < w.numBits) :
    w.load ((i : Int).tdiv BitsInWord) = .ok (w.toBitMap.map (i / 32)) := by
  have inside := fitted.word_lt bound
  rw [tdiv_eq, WordMap.load, if_pos (by omega), Int.toNat_natCast, Array.getElem?_eq_getElem inside]
  simp [toBitMap, inside]

/-- A store to the word of a bit. -/
theorem store (fitted : Fitted w) (bound : (i : Int) < w.numBits) (word : BitVec 32) :
    ∃ w', w.store ((i : Int).tdiv BitsInWord) word = .ok w' ∧ Fitted w' ∧ w'.map.size = w.map.size ∧
      w'.toBitMap = { w.toBitMap with map := Function.update w.toBitMap.map (i / 32) word } := by
  have inside := fitted.word_lt bound
  refine ⟨{ w with map := w.map.setIfInBounds (i / 32) word }, ?_,
    ⟨fitted.numBits, fitted.numWords, by simpa using fitted.size⟩, by simp, ?_⟩
  · rw [tdiv_eq, WordMap.store, if_pos ⟨by omega, by omega⟩, Int.toNat_natCast]
  · unfold toBitMap
    congr 1
    funext k
    by_cases same : k = i / 32
    · subst same
      simp [Array.getD_eq_getD_getElem?, inside]
    · rw [Function.update_of_ne same]
      simp [Array.getD_eq_getD_getElem?, Ne.symm same]

theorem mark (fitted : Fitted w) (bound : (i : Int) < w.numBits) :
    ∃ w', w.Mark i = .ok w' ∧ Fitted w' ∧ w'.map.size = w.map.size ∧
      w'.toBitMap = w.toBitMap.markWord i := by
  obtain ⟨w', stored, fitted', size, words⟩ := fitted.store bound (w.toBitMap.map (i / 32) ||| mask i)
  refine ⟨w', ?_, fitted', size, words.trans ?_⟩
  · simp only [WordMap.Mark, check_inside bound, fitted.load bound, bind, Except.bind, stored]
  · rw [mask_eq]
    rfl

theorem clear (fitted : Fitted w) (bound : (i : Int) < w.numBits) :
    ∃ w', w.Clear i = .ok w' ∧ Fitted w' ∧ w'.map.size = w.map.size ∧
      w'.toBitMap = w.toBitMap.clearWord i := by
  obtain ⟨w', stored, fitted', size, words⟩ := fitted.store bound (w.toBitMap.map (i / 32) &&& ~~~mask i)
  refine ⟨w', ?_, fitted', size, words.trans ?_⟩
  · simp only [WordMap.Clear, check_inside bound, fitted.load bound, bind, Except.bind, stored]
  · rw [mask_eq]
    rfl

/-- An index outside fails the same `ASSERT`. -/
theorem outside (fitted : Fitted w) {which : Int} (out : ¬ (0 ≤ which ∧ which < w.numBits)) :
    w.check which = .error .assertion ∧ w.toBitMap.index which = .error .assertion := by
  have same : ((w.numBits.toNat : Nat) : Int) = w.numBits := Int.toNat_of_nonneg fitted.numBits
  exact ⟨if_neg out, if_neg (by show ¬ (0 ≤ which ∧ which < (w.numBits.toNat : Nat)); rwa [same])⟩

theorem Mark_eq (fitted : Fitted w) (which : Int) : (w.Mark which).map toBitMap = w.toBitMap.Mark which := by
  by_cases inside : 0 ≤ which ∧ which < w.numBits
  · obtain ⟨i, rfl⟩ := Int.eq_ofNat_of_zero_le inside.1
    obtain ⟨w', marked, -, -, words⟩ := fitted.mark inside.2
    rw [marked, BitMap.Mark, index_inside inside.2]
    exact congrArg Except.ok words
  · obtain ⟨failed, failed'⟩ := fitted.outside inside
    rw [WordMap.Mark, failed, BitMap.Mark, failed']
    rfl

theorem Clear_eq (fitted : Fitted w) (which : Int) :
    (w.Clear which).map toBitMap = w.toBitMap.Clear which := by
  by_cases inside : 0 ≤ which ∧ which < w.numBits
  · obtain ⟨i, rfl⟩ := Int.eq_ofNat_of_zero_le inside.1
    obtain ⟨w', cleared, -, -, words⟩ := fitted.clear inside.2
    rw [cleared, BitMap.Clear, index_inside inside.2]
    exact congrArg Except.ok words
  · obtain ⟨failed, failed'⟩ := fitted.outside inside
    rw [WordMap.Clear, failed, BitMap.Clear, failed']
    rfl

theorem of_Clear (fitted : Fitted w) {which : Int} (cleared : w.Clear which = .ok w') : Fitted w' := by
  by_cases inside : 0 ≤ which ∧ which < w.numBits
  · obtain ⟨i, rfl⟩ := Int.eq_ofNat_of_zero_le inside.1
    obtain ⟨w'', cleared', fitted', -, -⟩ := fitted.clear inside.2
    obtain rfl := Except.ok.inj (cleared'.symm.trans cleared)
    exact fitted'
  · rw [WordMap.Clear, (fitted.outside inside).1] at cleared
    cases cleared

theorem clears_eq (fitted : Fitted w) (items : List Nat) :
    (items.foldlM (fun w (i : Nat) => WordMap.Clear w i) w).map toBitMap =
      items.foldlM (fun bitmap (i : Nat) => BitMap.Clear bitmap i) w.toBitMap := by
  induction items generalizing w with
  | nil => rfl
  | cons i items ih =>
    have cleared := fitted.Clear_eq i
    rw [List.foldlM_cons, List.foldlM_cons, ← cleared]
    cases result : w.Clear i with
    | error reason => rfl
    | ok w' => exact ih (fitted.of_Clear result)

theorem Test_eq (fitted : Fitted w) (which : Int) : w.Test which = w.toBitMap.Test which := by
  by_cases inside : 0 ≤ which ∧ which < w.numBits
  · obtain ⟨i, rfl⟩ := Int.eq_ofNat_of_zero_le inside.1
    rw [BitMap.Test, index_inside inside.2]
    simp only [WordMap.Test, check_inside inside.2, fitted.load inside.2, bind, Except.bind, mask_eq]
    rfl
  · obtain ⟨failed, failed'⟩ := fitted.outside inside
    rw [WordMap.Test, failed, BitMap.Test, failed']
    rfl

theorem findFrom_eq (fitted : Fitted w) (remaining i : Nat) :
    (w.findFrom remaining i).map (fun (found, w') => (found, w'.toBitMap)) =
      w.toBitMap.findFrom remaining i := by
  induction remaining generalizing i with
  | zero => rfl
  | succ remaining ih =>
    unfold WordMap.findFrom BitMap.findFrom
    rw [fitted.Test_eq]
    cases w.toBitMap.Test i with
    | error reason => rfl
    | ok value =>
      cases value with
      | true => exact ih (i + 1)
      | false =>
        have marked := fitted.Mark_eq i
        cases result : w.Mark i with
        | error reason =>
          rw [result] at marked
          simp only [bind, Except.bind, Bool.not_false, if_true, ← marked]
          rfl
        | ok w' =>
          rw [result] at marked
          simp only [bind, Except.bind, Bool.not_false, if_true, ← marked]
          rfl

/-- The array does what the words without an end do, and no index leaves it: what is
proved of the operations of `BitMap` holds of the array. -/
theorem refines (fitted : Fitted w) :
    (∀ which, (w.Mark which).map toBitMap = w.toBitMap.Mark which) ∧
    (∀ which, (w.Clear which).map toBitMap = w.toBitMap.Clear which) ∧
    (∀ which, w.Test which = w.toBitMap.Test which) ∧
    w.Find.map (fun (found, w') => (found, w'.toBitMap)) = w.toBitMap.Find ∧
    w.NumClear = w.toBitMap.NumClear := by
  refine ⟨fitted.Mark_eq, fitted.Clear_eq, fitted.Test_eq, fitted.findFrom_eq _ _, ?_⟩
  simp only [WordMap.NumClear, BitMap.NumClear, fitted.Test_eq]
  rfl

end Fitted

/-- The array that `new` gets, before its bits are cleared. -/
theorem fitted_fresh (storage : Nat → BitVec 32) (n : Nat) : Fitted
    { numBits := n
      numWords := divRoundUp n BitsInWord
      map := Array.ofFn fun k : Fin (divRoundUp n BitsInWord).toNat => storage k } where
  numBits := by simp
  numWords := rfl
  size := by rw [Array.size_ofFn, divRoundUp_words, Int.toNat_natCast]

theorem toBitMap_fresh (storage : Nat → BitVec 32) (n : Nat) : toBitMap
    { numBits := n
      numWords := divRoundUp n BitsInWord
      map := Array.ofFn fun k : Fin (divRoundUp n BitsInWord).toNat => storage k } =
    { numBits := n, map := fun k => if k < (n + 31) / 32 then storage k else 0 } := by
  have size : (divRoundUp n BitsInWord).toNat = (n + 31) / 32 := by
    rw [divRoundUp_words, Int.toNat_natCast]
  unfold toBitMap
  congr 1
  funext k
  dsimp only
  rw [Array.getD_eq_getD_getElem?]
  by_cases inside : k < (n + 31) / 32
  · rw [if_pos inside, Array.getElem?_eq_getElem (by rwa [Array.size_ofFn, size]), Option.getD_some,
      Array.getElem_ofFn]
  · rw [if_neg inside, Array.getElem?_eq_none (by rw [Array.size_ofFn, size]; omega), Option.getD_none]

/-- The constructor is that of `BitMap` on the words the array has. -/
theorem new_eq (storage : Nat → BitVec 32) (n : Nat) :
    (new storage n).map toBitMap = BitMap.new (fun k => if k < (n + 31) / 32 then storage k else 0) n := by
  rw [BitMap.new, ← toBitMap_fresh]
  exact (fitted_fresh storage n).clears_eq (List.range n)

/-! ## Bits -/

/-- There are `n` bits in as many words as they need, and bit `j` of the words is `f j`. -/
structure Holds (n : Nat) (f : Nat → Bool) (w : WordMap) : Prop where
  numBits : w.numBits = n
  numWords : w.numWords = divRoundUp n BitsInWord
  size : (w.map.size : Int) = w.numWords
  bits : ∀ j, j / BitsInWord < w.map.size → w.toBitMap.bit j = f j

theorem Holds.fitted (holds : Holds n f w) : Fitted w where
  numBits := by
    rw [holds.numBits]
    omega
  numWords := by rw [holds.numWords, holds.numBits]
  size := holds.size

theorem Holds.inside (holds : Holds n f w) (bound : i < n) : (i : Int) < w.numBits := by
  rw [holds.numBits]
  omega

/-- The bits after an operation that keeps the words in place. -/
theorem Holds.after {f' : Nat → Bool} (holds : Holds n f w) (fitted : Fitted w')
    (numBits : w'.toBitMap.numBits = w.toBitMap.numBits) (size : w'.map.size = w.map.size)
    (bits : ∀ j, j / BitsInWord < w.map.size → w'.toBitMap.bit j = f' j) : Holds n f' w' where
  numBits := by
    have same : w'.numBits.toNat = w.numBits.toNat := numBits
    have first := fitted.numBits
    have second := holds.numBits
    omega
  numWords := by rw [← fitted.size, size, holds.size, holds.numWords]
  size := fitted.size
  bits j inside := bits j (size ▸ inside)

theorem Holds.Mark (holds : Holds n f w) (bound : i < n) :
    ∃ w', w.Mark i = .ok w' ∧ Holds n (fun j => f j || decide (j = i)) w' := by
  obtain ⟨w', marked, fitted, size, words⟩ := holds.fitted.mark (holds.inside bound)
  refine ⟨w', marked, holds.after fitted (by rw [words]; rfl) size fun j inside => ?_⟩
  rw [words, BitMap.bit_markWord, holds.bits j inside]

theorem Holds.Clear (holds : Holds n f w) (bound : i < n) :
    ∃ w', w.Clear i = .ok w' ∧ Holds n (fun j => f j && decide (j ≠ i)) w' := by
  obtain ⟨w', cleared, fitted, size, words⟩ := holds.fitted.clear (holds.inside bound)
  refine ⟨w', cleared, holds.after fitted (by rw [words]; rfl) size fun j inside => ?_⟩
  rw [words, BitMap.bit_clearWord, holds.bits j inside]

theorem Holds.Test (holds : Holds n f w) (bound : i < n) : w.Test i = .ok (f i) := by
  have size : w.toBitMap.numBits = n := by rw [toBitMap, holds.numBits, Int.toNat_natCast]
  have tested : w.toBitMap.Test i = .ok (decide (w.toBitMap.Marked i)) :=
    BitMap.test_ok (by omega) (by omega)
  have marked : decide (w.toBitMap.Marked i) = f i := by
    rw [← holds.bits i (holds.fitted.word_lt (holds.inside bound)), Bool.eq_iff_iff, decide_eq_true_eq,
      BitMap.Marked, Int.toNat_natCast, size]
    exact ⟨fun set => set.2.2, fun set => ⟨by omega, by omega, set⟩⟩
  rw [holds.fitted.Test_eq, tested, marked]

theorem Holds.congr (holds : Holds n f w) {f' : Nat → Bool} (same : ∀ j, f j = f' j) : Holds n f' w :=
  (funext same : f = f') ▸ holds

/-- The constructor clears the bits of the map, and leaves the rest of the last
word as `new` found it. -/
theorem exists_new (storage : Nat → BitVec 32) (n : Nat) : ∃ w, new storage n = .ok w ∧
    Holds n (fun j => decide (n ≤ j) && (storage (j / 32)).getLsbD (j % 32)) w := by
  have prefixes : ∀ k, k ≤ n → ∃ w, (List.range k).foldlM (fun w (i : Nat) => WordMap.Clear w i)
      { numBits := n
        numWords := divRoundUp n BitsInWord
        map := Array.ofFn fun k : Fin (divRoundUp n BitsInWord).toNat => storage k } = .ok w ∧
      Holds n (fun j => decide (k ≤ j) && (storage (j / 32)).getLsbD (j % 32)) w := by
    intro k bound
    induction k with
    | zero =>
      refine ⟨_, rfl, rfl, rfl, (fitted_fresh storage n).size, fun j inside => ?_⟩
      rw [Array.size_ofFn, divRoundUp_words, Int.toNat_natCast] at inside
      rw [toBitMap_fresh, BitMap.bit]
      dsimp only
      rw [if_pos inside]
      simp
    | succ k ih =>
      obtain ⟨w, computed, holds⟩ := ih (by omega)
      obtain ⟨w', cleared, holds'⟩ := holds.Clear (i := k) (by omega)
      refine ⟨w', ?_, holds'.congr fun j => ?_⟩
      · rw [List.range_succ, List.foldlM_append, computed]
        simp only [bind, Except.bind, List.foldlM_cons, List.foldlM_nil, cleared, pure, Except.pure]
      · by_cases past : k + 1 ≤ j
        · simp [past, show k ≤ j by omega, show j ≠ k by omega]
        · by_cases here : j = k
          · simp [here]
          · simp [past, show ¬ k ≤ j by omega]
  exact prefixes n le_rfl

/-- The loop of `Find` marks the first clear bit, if there is one. -/
theorem Holds.findFrom (holds : Holds n f w) : ∀ remaining i, i + remaining = n →
    (∀ j, j < i → f j = true) →
    (∃ (k : Nat) (w' : WordMap), w.findFrom remaining i = .ok ((k : Int), w') ∧ k < n ∧ f k = false ∧
      (∀ j, j < k → f j = true) ∧ Holds n (fun j => f j || decide (j = k)) w') ∨
    (w.findFrom remaining i = .ok (-1, w) ∧ ∀ j, j < n → f j = true) := by
  intro remaining
  induction remaining with
  | zero =>
    intro i total below
    exact .inr ⟨rfl, fun j bound => below j (by omega)⟩
  | succ remaining ih =>
    intro i total below
    have tested := holds.Test (i := i) (by omega)
    cases value : f i with
    | true =>
      have step : w.findFrom (remaining + 1) i = w.findFrom remaining (i + 1) := by
        simp only [WordMap.findFrom, tested, value, bind, Except.bind, Bool.not_true,
          Bool.false_eq_true, if_false]
      rw [step]
      refine ih (i + 1) (by omega) fun j bound => ?_
      by_cases last : j = i
      · rw [last, value]
      · exact below j (by omega)
    | false =>
      obtain ⟨w', marked, holds'⟩ := holds.Mark (i := i) (by omega)
      refine .inl ⟨i, w', ?_, by omega, value, below, holds'⟩
      simp only [WordMap.findFrom, tested, value, marked, bind, Except.bind, pure, Except.pure,
        Bool.not_false, if_true]

theorem Holds.NumClear (holds : Holds n f w) :
    w.NumClear = .ok (((Finset.range n).filter fun i => f i = false).card : Int) := by
  have prefixes : ∀ k, k ≤ n →
      (List.range k).foldlM (fun count (i : Nat) => do
        return if !(← w.Test i) then count + 1 else count) (0 : Int) =
      Except.ok (ε := Fault) (((Finset.range k).filter fun i => f i = false).card : Int) := by
    intro k bound
    induction k with
    | zero => rfl
    | succ k ih =>
      rw [List.range_succ, List.foldlM_append, ih (by omega), Finset.range_add_one,
        Finset.filter_insert]
      simp only [bind, Except.bind, List.foldlM_cons, List.foldlM_nil, holds.Test (i := k) (by omega),
        pure, Except.pure]
      cases f k <;> simp
  rw [WordMap.NumClear, holds.numBits, Int.toNat_natCast]
  exact prefixes n le_rfl

/-! ## As a set -/

/-- The calls on a map of `n` bits, with an index in range. -/
inductive Call (n : Nat) where
  | Mark (which : Fin n)
  | Clear (which : Fin n)
  | Test (which : Fin n)
  | Find
  | NumClear

inductive Answer where
  | nothing
  | bool (value : Bool)
  | int (value : Int)
deriving DecidableEq

def perform (w : WordMap) : Call n → Except Fault (Answer × WordMap)
  | .Mark which => do return (.nothing, ← w.Mark (which : Nat))
  | .Clear which => do return (.nothing, ← w.Clear (which : Nat))
  | .Test which => do return (.bool (← w.Test (which : Nat)), w)
  | .Find => do
    let (found, w) ← w.Find
    return (.int found, w)
  | .NumClear => do return (.int (← w.NumClear), w)

/-- Calls one after another. -/
def performAll (w : WordMap) : List (Call n) → Except Fault (List Answer × WordMap)
  | [] => .ok ([], w)
  | call :: calls => do
    let (answer, w) ← w.perform call
    let (answers, w) ← w.performAll calls
    return (answer :: answers, w)

/-- What a call answers and does on a set of numbers below `n`. -/
def Call.onSet (members : Finset Nat) : Call n → Answer × Finset Nat
  | .Mark which => (.nothing, insert (which : Nat) members)
  | .Clear which => (.nothing, members.erase which)
  | .Test which => (.bool (decide ((which : Nat) ∈ members)), members)
  | .Find =>
    if free : (Finset.range n \ members).Nonempty then
      (.int ((Finset.range n \ members).min' free), insert ((Finset.range n \ members).min' free) members)
    else (.int (-1), members)
  | .NumClear => (.int (n - members.card : Int), members)

def onSetAll (members : Finset Nat) : List (Call n) → List Answer × Finset Nat
  | [] => ([], members)
  | call :: calls =>
    let (answer, members) := call.onSet members
    let (answers, members) := onSetAll members calls
    (answer :: answers, members)

/-- The words hold the set, and behind it what `new` found. -/
structure Represents (storage : Nat → BitVec 32) (n : Nat) (members : Finset Nat) (w : WordMap) : Prop where
  below : ∀ i ∈ members, i < n
  holds : Holds n (fun j => decide (j ∈ members) || decide (n ≤ j) && (storage (j / 32)).getLsbD (j % 32)) w

variable {storage : Nat → BitVec 32} {members : Finset Nat}

theorem bit_of_lt (bound : i < n) :
    (decide (i ∈ members) || decide (n ≤ i) && (storage (i / 32)).getLsbD (i % 32)) =
      decide (i ∈ members) := by
  simp [show ¬ n ≤ i by omega]

namespace Represents

theorem insert (rep : Represents storage n members w) (bound : i < n) {w' : WordMap}
    (holds : Holds n (fun j => (decide (j ∈ members) || decide (n ≤ j) &&
      (storage (j / 32)).getLsbD (j % 32)) || decide (j = i)) w') :
    Represents storage n (Insert.insert i members) w' where
  below j inside := by
    obtain rfl | inside := Finset.mem_insert.mp inside
    · exact bound
    · exact rep.below j inside
  holds := holds.congr fun j => by
    by_cases same : j = i
    · simp [same]
    · simp [same]

theorem card_clear (rep : Represents storage n members w) :
    (((Finset.range n).filter fun j => (decide (j ∈ members) || decide (n ≤ j) &&
      (storage (j / 32)).getLsbD (j % 32)) = false).card : Int) = n - members.card := by
  have same : ((Finset.range n).filter fun j => (decide (j ∈ members) || decide (n ≤ j) &&
      (storage (j / 32)).getLsbD (j % 32)) = false) = Finset.range n \ members := by
    ext j
    rw [Finset.mem_filter, Finset.mem_sdiff]
    refine and_congr_right fun inside => ?_
    rw [bit_of_lt (Finset.mem_range.mp inside), decide_eq_false_iff_not]
  have inside : members ⊆ Finset.range n := fun j member => Finset.mem_range.mpr (rep.below j member)
  have fewer := Finset.card_le_card inside
  rw [same, Finset.card_sdiff_of_subset inside]
  rw [Finset.card_range] at fewer ⊢
  omega

theorem perform (rep : Represents storage n members w) (call : Call n) :
    ∃ w', w.perform call = .ok ((call.onSet members).1, w') ∧
      Represents storage n (call.onSet members).2 w' := by
  cases call with
  | Mark which =>
    obtain ⟨w', marked, holds⟩ := rep.holds.Mark which.isLt
    refine ⟨w', ?_, rep.insert which.isLt holds⟩
    simp only [WordMap.perform, marked, bind, Except.bind, pure, Except.pure, Call.onSet]
  | Clear which =>
    obtain ⟨w', cleared, holds⟩ := rep.holds.Clear which.isLt
    refine ⟨w', ?_, fun j inside => rep.below j (Finset.mem_of_mem_erase inside), holds.congr fun j => ?_⟩
    · simp only [WordMap.perform, cleared, bind, Except.bind, pure, Except.pure, Call.onSet]
    · by_cases same : j = which
      · simp [same, Call.onSet]
      · simp [same, Call.onSet]
  | Test which =>
    have tested := rep.holds.Test which.isLt
    rw [bit_of_lt which.isLt] at tested
    refine ⟨w, ?_, rep⟩
    simp only [WordMap.perform, tested, bind, Except.bind, pure, Except.pure, Call.onSet]
  | Find =>
    have numBits : w.numBits.toNat = n := by rw [rep.holds.numBits, Int.toNat_natCast]
    obtain ⟨k, w', found, bound, clear, least, holds⟩ | ⟨full, all⟩ :=
      rep.holds.findFrom n 0 (by omega) (by omega)
    · rw [bit_of_lt bound, decide_eq_false_iff_not] at clear
      have inside : k ∈ Finset.range n \ members :=
        Finset.mem_sdiff.mpr ⟨Finset.mem_range.mpr bound, clear⟩
      have least' : (Finset.range n \ members).min' ⟨k, inside⟩ = k := by
        refine le_antisymm (Finset.min'_le _ _ inside) (Finset.le_min' _ _ _ fun j clear => ?_)
        obtain ⟨low, outside⟩ := Finset.mem_sdiff.mp clear
        by_contra less
        have set := least j (by omega)
        rw [bit_of_lt (Finset.mem_range.mp low), decide_eq_true_eq] at set
        exact outside set
      have taken : (Call.Find : Call n).onSet members = (.int k, Insert.insert k members) := by
        rw [Call.onSet, dif_pos ⟨k, inside⟩, least']
      rw [taken]
      refine ⟨w', ?_, rep.insert bound holds⟩
      simp only [WordMap.perform, WordMap.Find, numBits, found, bind, Except.bind, pure, Except.pure]
    · have none : ¬ (Finset.range n \ members).Nonempty := by
        rintro ⟨j, clear⟩
        obtain ⟨low, outside⟩ := Finset.mem_sdiff.mp clear
        have set := all j (Finset.mem_range.mp low)
        rw [bit_of_lt (Finset.mem_range.mp low), decide_eq_true_eq] at set
        exact outside set
      have refused : (Call.Find : Call n).onSet members = (.int (-1), members) := by
        rw [Call.onSet, dif_neg none]
      rw [refused]
      refine ⟨w, ?_, rep⟩
      simp only [WordMap.perform, WordMap.Find, numBits, full, bind, Except.bind, pure, Except.pure]
  | NumClear =>
    have counted := rep.holds.NumClear
    rw [rep.card_clear] at counted
    refine ⟨w, ?_, rep⟩
    simp only [WordMap.perform, counted, bind, Except.bind, pure, Except.pure, Call.onSet]

theorem performAll (rep : Represents storage n members w) (calls : List (Call n)) :
    ∃ w', w.performAll calls = .ok ((onSetAll members calls).1, w') ∧
      Represents storage n (onSetAll members calls).2 w' := by
  induction calls generalizing members w with
  | nil => exact ⟨w, rfl, rep⟩
  | cons call calls ih =>
    obtain ⟨middle, done, rep'⟩ := rep.perform call
    obtain ⟨w', rest, rep''⟩ := ih rep'
    refine ⟨w', ?_, rep''⟩
    simp only [WordMap.performAll, done, rest, bind, Except.bind, pure, Except.pure, onSetAll]

end Represents

/-- From the constructor on, whatever the fresh words hold, the calls answer as
those on a set of numbers below `nitems` do, and the words hold that set. -/
theorem performs_as_set (storage : Nat → BitVec 32) (nitems : Nat) (calls : List (Call nitems)) :
    ∃ fresh w, new storage nitems = .ok fresh ∧ Represents storage nitems ∅ fresh ∧
      fresh.performAll calls = .ok ((onSetAll ∅ calls).1, w) ∧
      Represents storage nitems (onSetAll ∅ calls).2 w := by
  obtain ⟨fresh, made, holds⟩ := exists_new storage nitems
  have rep : Represents storage nitems ∅ fresh :=
    ⟨by simp, holds.congr fun j => by simp⟩
  obtain ⟨w, done, rep'⟩ := rep.performAll calls
  exact ⟨fresh, w, made, rep, done, rep'⟩

end WordMap

/-! ## Runs of clear bits -/

namespace BitMap
open FileHeader

variable {bitmap : BitMap} {size : Int}

/-- `myFind` stays inside the map and does what it is for: it marks the first
run of clear bits that is long enough, and changes nothing if there is none. -/
def FindsRun (bitmap : BitMap) (size : Int) : Prop :=
  ∃ result after, bitmap.myFind size = .ok (result, after) ∧
    (HasRun bitmap size.toNat → ∃ b : Nat, bitmap.FirstRun size.toNat b ∧ result = b ∧
      bitmap.Takes ((List.range size.toNat).map fun j => ((b + j : Nat) : Int)) after) ∧
    (¬ HasRun bitmap size.toNat → result = -1 ∧ after = bitmap)

/-- Without a run the inner loop reaches the end of the map, unless a single bit
is asked for. -/
theorem not_findsRun (several : 1 < size) (noRun : ¬ HasRun bitmap size.toNat) (nonempty : 0 < bitmap.numBits) :
    ¬ FindsRun bitmap size := by
  rintro ⟨result, after, found, -, -⟩
  have same : bitmap.myFind size = bitmap.myFind size.toNat := by
    rw [Int.toNat_of_nonneg (by omega)]
  rw [same] at found
  rcases myFind_cases bitmap size.toNat with ⟨b, _, -, first, -⟩ | ⟨failed, -⟩ | ⟨-, single | empty, -⟩
  · exact noRun (hasRun_iff.mpr ⟨b, first⟩)
  · cases found.symm.trans failed
  · omega
  · omega

/-- `myFind` is right when there is a run or a single bit is asked for. Else it
never gets to report that there is none: it stops the kernel. -/
theorem findsRun_iff (nonempty : 0 < bitmap.numBits) (positive : 1 ≤ size) :
    FindsRun bitmap size ↔ size = 1 ∨ HasRun bitmap size.toNat := by
  have same : bitmap.myFind size = bitmap.myFind size.toNat := by
    rw [Int.toNat_of_nonneg (by omega)]
  constructor
  · intro finds
    by_contra neither
    obtain ⟨several, noRun⟩ := not_or.mp neither
    exact not_findsRun (by omega) noRun nonempty finds
  · intro either
    rcases myFind_cases bitmap size.toNat with
      ⟨b, after, found, first, taken⟩ | ⟨failed, several, noRun⟩ | ⟨missing, single, noRun⟩
    · refine ⟨b, after, same.trans found, fun _ => ⟨b, first, rfl, taken⟩, fun noRun => ?_⟩
      exact absurd (hasRun_iff.mpr ⟨b, first⟩) noRun
    · obtain single | run := either
      · omega
      · obtain ⟨b, first⟩ := hasRun_iff.mp run
        exact absurd first (noRun b)
    · refine ⟨-1, bitmap, same.trans missing, fun run => ?_, fun _ => ⟨rfl, rfl⟩⟩
      obtain ⟨b, first⟩ := hasRun_iff.mp run
      exact absurd first (noRun (by omega) b)

/-- Bits 0, 2 and 5 of every word are set. -/
def scattered : BitMap where
  numBits := 40
  map _ := 0x25#32

/-- Three bits in a row are first clear behind them. -/
theorem scattered_firstRun : scattered.FirstRun 3 6 where
  fits := by decide
  clear := by decide
  least := by decide

theorem findsRun_scattered : scattered.FirstRun 3 6 ∧ FindsRun scattered 3 :=
  ⟨scattered_firstRun, (findsRun_iff (by decide) (by decide)).mpr (.inr (hasRun_iff.mpr ⟨6, scattered_firstRun⟩))⟩

/-- Every other sector is free, and two in a row are asked for. -/
theorem evenSectors_not_found : ¬ FindsRun evenSectors 2 :=
  not_findsRun (by decide) evenSectors_scattered (by decide)

end BitMap
end Nachos
