import Mathlib.Data.List.Basic
import Nachos.Machine.SynchDisk

/-! `BitMap` (`userprog/bitmap.cc`): an array of bits stored in 32-bit words,
used here as the map of free disk sectors. Every operation checks its index
with `ASSERT`, so an index outside the map stops the kernel. -/
namespace Nachos
open Effects

/-- `divRoundDown` and `divRoundUp` of `utility.h`; C division truncates. -/
def divRoundDown (n s : Int) : Int := n.tdiv s

def divRoundUp (n s : Int) : Int := n.tdiv s + if n.tmod s > 0 then 1 else 0

@[simp] def BitsInByte : Nat := 8

@[simp] def BitsInWord : Nat := 32

structure BitMap where
  numBits : Nat
  map : Nat → BitVec 32

namespace BitMap

/-- Bit `i` of the stored words. -/
def bit (bitmap : BitMap) (i : Nat) : Bool :=
  (bitmap.map (i / BitsInWord)).getLsbD (i % BitsInWord)

/-- `map[which / BitsInWord] |= 1 << (which % BitsInWord)`. -/
def markWord (bitmap : BitMap) (which : Nat) : BitMap :=
  { bitmap with
    map := Function.update bitmap.map (which / BitsInWord)
      (bitmap.map (which / BitsInWord) ||| 1#32 <<< (which % BitsInWord)) }

/-- `map[which / BitsInWord] &= ~(1 << (which % BitsInWord))`. -/
def clearWord (bitmap : BitMap) (which : Nat) : BitMap :=
  { bitmap with
    map := Function.update bitmap.map (which / BitsInWord)
      (bitmap.map (which / BitsInWord) &&& ~~~(1#32 <<< (which % BitsInWord))) }

/-- `ASSERT(which >= 0 && which < numBits)`. -/
def index (bitmap : BitMap) (which : Int) : Except Fault Nat :=
  if 0 ≤ which ∧ which < bitmap.numBits then .ok which.toNat else .error .assertion

def Mark (bitmap : BitMap) (which : Int) : Except Fault BitMap := do
  let which ← bitmap.index which
  return bitmap.markWord which

def Clear (bitmap : BitMap) (which : Int) : Except Fault BitMap := do
  let which ← bitmap.index which
  return bitmap.clearWord which

def Test (bitmap : BitMap) (which : Int) : Except Fault Bool := do
  let which ← bitmap.index which
  return bitmap.map (which / BitsInWord) &&& 1#32 <<< (which % BitsInWord) != 0

/-- The constructor clears bits `0 .. nitems - 1` of fresh storage. -/
def new (storage : Nat → BitVec 32) (nitems : Nat) : Except Fault BitMap :=
  (List.range nitems).foldlM (fun bitmap (i : Nat) => bitmap.Clear i)
    { numBits := nitems, map := storage }

/-- The loop of `Find`, with `remaining` bits left to look at from bit `i`. -/
def findFrom (bitmap : BitMap) : (remaining i : Nat) → Except Fault (Int × BitMap)
  | 0, _ => .ok (-1, bitmap)
  | remaining + 1, i => do
    if !(← bitmap.Test i) then
      let bitmap ← bitmap.Mark i
      return ((i : Int), bitmap)
    else bitmap.findFrom remaining (i + 1)

def Find (bitmap : BitMap) : Except Fault (Int × BitMap) := bitmap.findFrom bitmap.numBits 0

def NumClear (bitmap : BitMap) : Except Fault Int :=
  (List.range bitmap.numBits).foldlM
    (fun count (i : Nat) => do return if !(← bitmap.Test i) then count + 1 else count) 0

/-- The inner test loop of `myFind`: it looks at all `size` bits from `i`,
also after one was found marked. -/
def allClear (bitmap : BitMap) (i size : Nat) : Except Fault Bool :=
  (List.range size).foldlM
    (fun flag j => do return if ← bitmap.Test (i + j : Nat) then false else flag) true

def markRun (bitmap : BitMap) (i size : Nat) : Except Fault BitMap :=
  (List.range size).foldlM (fun bitmap j => bitmap.Mark (i + j : Nat)) bitmap

def myFindFrom (bitmap : BitMap) (size : Nat) : (remaining i : Nat) → Except Fault (Int × BitMap)
  | 0, _ => .ok (-1, bitmap)
  | remaining + 1, i => do
    if ← bitmap.allClear i size then
      let bitmap ← bitmap.markRun i size
      return ((i : Int), bitmap)
    else bitmap.myFindFrom size remaining (i + 1)

/-- `myFind`: the first run of `size` clear bits, marked on the way out. -/
def myFind (bitmap : BitMap) (size : Int) : Except Fault (Int × BitMap) :=
  bitmap.myFindFrom size.toNat bitmap.numBits 0

/-- The words as `(char *)map`. -/
def bytes (bitmap : BitMap) : Memory := fun i => Memory.wordByte (bitmap.map (i / 4)) (i % 4)

/-- The words after `count` bytes of `(char *)map` were overwritten. -/
def ofBytes (bitmap : BitMap) (bytes : Memory) : BitMap :=
  { bitmap with map := fun i => bytes.word (4 * i) }

end BitMap
end Nachos
