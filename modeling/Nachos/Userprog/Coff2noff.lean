import Nachos.Userprog.Loading

/-! The program `bin/coff2noff.c` that makes a NOFF file of a COFF file
(`bin/coff.h`, `bin/noff.h`). The host is little-endian and its `long` has 32
bits. Sums of `int`s wrap, as the compiled ones do; what `read` and `write` do with
a negative count is undefined. -/
namespace Nachos.Coff2noff
open Effects Loading

/-- Why there is no result: `exit(1)`, or a step whose effect is not defined. -/
inductive Stop where
  | exit1
  | undefined
deriving DecidableEq

/-! ## The files -/

def MIPSELMAGIC : BitVec 16 := 0x0162

/-- `0407`. -/
def OMAGIC : BitVec 16 := 0x0107

/-- `sizeof(struct filehdr)`, `sizeof(struct aouthdr)` and `sizeof(struct scnhdr)`. -/
def filehdrSize : Nat := 20

def aouthdrSize : Nat := 56

def scnhdrSize : Nat := 40

/-- A `short` in the bytes of a file. -/
def short (bytes : Memory) (i : Nat) : BitVec 16 := (bytes (i + 1)).toBitVec ++ (bytes i).toBitVec

/-- The fields of `struct scnhdr` that are looked at. -/
structure Scnhdr where
  s_name : Block 8
  s_paddr : BitVec 32
  s_size : BitVec 32
  s_scnptr : BitVec 32

def Scnhdr.ofBytes (bytes : Memory) (start : Nat) : Scnhdr where
  s_name := .of fun k => bytes (start + k)
  s_paddr := bytes.word (start + 8)
  s_size := bytes.word (start + 16)
  s_scnptr := bytes.word (start + 20)

/-- `".text"`, `".data"`, `".rdata"`, `".bss"` and `".sbss"`. -/
def textName : Name := [46, 116, 101, 120, 116]

def dataName : Name := [46, 100, 97, 116, 97]

def rdataName : Name := [46, 114, 100, 97, 116, 97]

def bssName : Name := [46, 98, 115, 115]

def sbssName : Name := [46, 115, 98, 115, 115]

/-- `!strcmp(s_name, name)`: the names asked for end within the eight characters. -/
def Scnhdr.named (s : Scnhdr) (name : Name) : Bool :=
  (List.range (name.length + 1)).all fun k => s.s_name.mem k == name.chars k

structure File where
  size : Nat
  bytes : Memory

/-- `f_nscns`. -/
def File.numsections (file : File) : BitVec 16 := short file.bytes 2

/-- The section headers. -/
def File.sections (file : File) : List Scnhdr :=
  (List.range file.numsections.toNat).map fun i =>
    .ofBytes file.bytes (filehdrSize + aouthdrSize + scnhdrSize * i)

/-! ## The program -/

/-- The positions in the two files, what was written, and the variables of `main`. -/
structure State where
  positionIn : Nat
  positionOut : Nat
  noff : File
  noffH : NoffHeader
  inNoffFile : BitVec 32

/-- `lseek(fd, offset, 0)`, which does nothing when the offset is negative. -/
def lseek (position : Nat) (offset : BitVec 32) : Nat :=
  if offset.toInt < 0 then position else offset.toNat

/-- The bytes `Read` puts in its buffer, and the position behind them. -/
def Read (file : File) (position : Nat) (nBytes : BitVec 32) : Except Stop (Memory × Nat) :=
  if nBytes.toInt < 0 then .error .undefined
  else if position + nBytes.toNat ≤ file.size then
    .ok (fun k => file.bytes (position + k), position + nBytes.toNat)
  else .error .exit1

/-- `Write`: a file ends at the greatest offset there is. -/
def Write (m : State) (buf : Memory) (nBytes : BitVec 32) : Except Stop State :=
  if nBytes.toInt < 0 then .error .undefined
  else if m.positionOut + nBytes.toNat ≤ 2147483647 then
    .ok { m with
      noff := {
        size := max m.noff.size (m.positionOut + nBytes.toNat)
        bytes := m.noff.bytes.splice m.positionOut nBytes.toNat buf }
      positionOut := m.positionOut + nBytes.toNat }
  else .error .exit1

/-- The lines that copy the bytes of a section. -/
def copySection (file : File) (s : Scnhdr) (m : State) : Except Stop State := do
  let (buffer, positionIn) ← Read file (lseek m.positionIn s.s_scnptr) s.s_size
  let m ← Write { m with positionIn } buffer s.s_size
  return { m with inNoffFile := m.inNoffFile + s.s_size }

/-- The body of the conversion loop. -/
def convertSection (file : File) (m : State) (s : Scnhdr) : Except Stop State :=
  if s.s_size = 0 then .ok m
  else if s.named textName then
    copySection file s { m with noffH.code := ⟨s.s_paddr, m.inNoffFile, s.s_size⟩ }
  else if s.named dataName || s.named rdataName then
    if m.noffH.initData.size ≠ 0 then .error .exit1
    else copySection file s { m with noffH.initData := ⟨s.s_paddr, m.inNoffFile, s.s_size⟩ }
  else if s.named bssName || s.named sbssName then
    if m.noffH.uninitData.size ≠ 0 then
      if s.s_paddr = m.noffH.uninitData.virtualAddr + m.noffH.uninitData.size then .error .exit1
      else .ok { m with noffH.uninitData.size := m.noffH.uninitData.size + s.s_size }
    else
      .ok { m with noffH.uninitData := ⟨s.s_paddr, m.noffH.uninitData.inFileAddr, s.s_size⟩ }
  else .error .exit1

/-- `(char *)&segment` put into bytes. -/
def storeSegment (bytes : Memory) (start : Nat) (segment : Segment) : Memory :=
  ((bytes.setWord start segment.virtualAddr).setWord (start + 4) segment.inFileAddr).setWord
    (start + 8) segment.size

/-- `(char *)&noffH`. -/
def headerBytes (noffH : NoffHeader) : Memory :=
  let bytes : Memory := fun _ => 0
  let bytes := storeSegment (bytes.setWord 0 noffH.noffMagic) 4 noffH.code
  storeSegment (storeSegment bytes 16 noffH.initData) 28 noffH.uninitData

/-- What the variables are when the loop begins. -/
def begin_ (garbage : NoffHeader) (position : Nat) : State where
  positionIn := position
  positionOut := lseek 0 (BitVec.ofNat 32 noffSize)
  noff := { size := 0, bytes := fun _ => 0 }
  noffH := { garbage with noffMagic := NOFFMAGIC, code.size := 0, initData.size := 0, uninitData.size := 0 }
  inNoffFile := BitVec.ofNat 32 noffSize

/-- `main` on two files that can be opened; `garbage` is what `noffH` holds at first. -/
def main (file : File) (garbage : NoffHeader) : Except Stop File := do
  let (fileh, position) ← Read file 0 (BitVec.ofNat 32 filehdrSize)
  if short fileh 0 ≠ MIPSELMAGIC then .error .exit1
  else
    let (systemh, position) ← Read file position (BitVec.ofNat 32 aouthdrSize)
    if short systemh 0 ≠ OMAGIC then .error .exit1
    else
      let numsections := (short fileh 2).toNat
      let (headers, position) ← Read file position (BitVec.ofNat 32 (numsections * scnhdrSize))
      let sections := (List.range numsections).map fun i => Scnhdr.ofBytes headers (scnhdrSize * i)
      let m ← sections.foldlM (convertSection file) (begin_ garbage position)
      let m ← Write { m with positionOut := lseek m.positionOut 0 } (headerBytes m.noffH)
        (BitVec.ofNat 32 noffSize)
      return m.noff

end Nachos.Coff2noff
