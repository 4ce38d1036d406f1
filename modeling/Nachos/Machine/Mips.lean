import Nachos.Effects.Program
import Nachos.Machine.Translate

/-! The MIPS simulator (`machine/mipssim.h`, `machine/mipssim.cc`), and
`RaiseException` (`machine/machine.cc`) up to its call of the exception handler.

An instruction is a program that reaches the registers and the memory by requests. An
index outside `registers`, a failed `ASSERT` and a division that the host cannot do stop
it, as an exception does. -/
namespace Nachos.Mips
open Effects Machine

abbrev Word := BitVec 32

abbrev NumGPRegs : Nat := 32
abbrev HiReg : Nat := 32
abbrev LoReg : Nat := 33
abbrev PCReg : Nat := 34
abbrev NextPCReg : Nat := 35
abbrev PrevPCReg : Nat := 36
abbrev LoadReg : Nat := 37
abbrev LoadValueReg : Nat := 38
abbrev BadVAddrReg : Nat := 39
abbrev NumTotalRegs : Nat := 40
abbrev R31 : Nat := 31

/-! ## Decoding -/

/-- The values of `opCode`. `RFE` is in no table, and `SPECIAL` and `BCOND` are decoded
further. -/
inductive OpCode where
  | ADD | ADDI | ADDIU | ADDU | AND | ANDI | BEQ | BGEZ | BGEZAL | BGTZ | BLEZ | BLTZ | BLTZAL | BNE
  | DIV | DIVU | J | JAL | JALR | JR | LB | LBU | LH | LHU | LUI | LW | LWL | LWR
  | MFHI | MFLO | MTHI | MTLO | MULT | MULTU | NOR | OR | ORI | RFE | SB | SH
  | SLL | SLLV | SLT | SLTI | SLTIU | SLTU | SRA | SRAV | SRL | SRLV | SUB | SUBU | SW | SWL | SWR
  | XOR | XORI | SYSCALL | UNIMP | RES
  | SPECIAL | BCOND
deriving DecidableEq, Repr

inductive Format where
  | IFMT | JFMT | RFMT
deriving DecidableEq, Repr

structure OpInfo where
  opCode : OpCode
  format : Format
deriving DecidableEq, Repr

open OpCode Format in
def opTable : List OpInfo :=
  [⟨SPECIAL, RFMT⟩, ⟨BCOND, IFMT⟩, ⟨J, JFMT⟩, ⟨JAL, JFMT⟩,
   ⟨BEQ, IFMT⟩, ⟨BNE, IFMT⟩, ⟨BLEZ, IFMT⟩, ⟨BGTZ, IFMT⟩,
   ⟨ADDI, IFMT⟩, ⟨ADDIU, IFMT⟩, ⟨SLTI, IFMT⟩, ⟨SLTIU, IFMT⟩,
   ⟨ANDI, IFMT⟩, ⟨ORI, IFMT⟩, ⟨XORI, IFMT⟩, ⟨LUI, IFMT⟩,
   ⟨UNIMP, IFMT⟩, ⟨UNIMP, IFMT⟩, ⟨UNIMP, IFMT⟩, ⟨UNIMP, IFMT⟩,
   ⟨RES, IFMT⟩, ⟨RES, IFMT⟩, ⟨RES, IFMT⟩, ⟨RES, IFMT⟩,
   ⟨RES, IFMT⟩, ⟨RES, IFMT⟩, ⟨RES, IFMT⟩, ⟨RES, IFMT⟩,
   ⟨RES, IFMT⟩, ⟨RES, IFMT⟩, ⟨RES, IFMT⟩, ⟨RES, IFMT⟩,
   ⟨LB, IFMT⟩, ⟨LH, IFMT⟩, ⟨LWL, IFMT⟩, ⟨LW, IFMT⟩,
   ⟨LBU, IFMT⟩, ⟨LHU, IFMT⟩, ⟨LWR, IFMT⟩, ⟨RES, IFMT⟩,
   ⟨SB, IFMT⟩, ⟨SH, IFMT⟩, ⟨SWL, IFMT⟩, ⟨SW, IFMT⟩,
   ⟨RES, IFMT⟩, ⟨RES, IFMT⟩, ⟨SWR, IFMT⟩, ⟨RES, IFMT⟩,
   ⟨UNIMP, IFMT⟩, ⟨UNIMP, IFMT⟩, ⟨UNIMP, IFMT⟩, ⟨UNIMP, IFMT⟩,
   ⟨RES, IFMT⟩, ⟨RES, IFMT⟩, ⟨RES, IFMT⟩, ⟨RES, IFMT⟩,
   ⟨UNIMP, IFMT⟩, ⟨UNIMP, IFMT⟩, ⟨UNIMP, IFMT⟩, ⟨UNIMP, IFMT⟩,
   ⟨RES, IFMT⟩, ⟨RES, IFMT⟩, ⟨RES, IFMT⟩, ⟨RES, IFMT⟩]

open OpCode in
def specialTable : List OpCode :=
  [SLL, RES, SRL, SRA, SLLV, RES, SRLV, SRAV,
   JR, JALR, RES, RES, SYSCALL, UNIMP, RES, RES,
   MFHI, MTHI, MFLO, MTLO, RES, RES, RES, RES,
   MULT, MULTU, DIV, DIVU, RES, RES, RES, RES,
   ADD, ADDU, SUB, SUBU, AND, OR, XOR, NOR,
   RES, RES, SLT, SLTU, RES, RES, RES, RES,
   RES, RES, RES, RES, RES, RES, RES, RES,
   RES, RES, RES, RES, RES, RES, RES, RES]

/-- An entry of a table of 64, by the low six bits of `field`. -/
def sixBits {α : Type} (table : List α) (long : table.length = 64) (field : Word) : α :=
  table.get ⟨(field &&& 0x3f).toNat, by
    rw [long, BitVec.toNat_and]
    exact Nat.lt_of_le_of_lt Nat.and_le_right (by decide)⟩

/-- The register numbers are the five bits a `char` of the source holds. -/
structure Instruction where
  value : Word
  opCode : OpCode
  rs : Word
  rt : Word
  rd : Word
  extra : Word
deriving DecidableEq, Repr

/-- `Instruction::Decode`. -/
def Decode (value : Word) : Instruction :=
  let info := sixBits opTable rfl (value >>> 26)
  let extra :=
    match info.format with
    | .IFMT =>
      let extra := value &&& 0xffff
      if extra &&& 0x8000 ≠ 0 then extra ||| 0xffff0000 else extra
    | .RFMT => (value >>> 6) &&& 0x1f
    | .JFMT => value &&& 0x3ffffff
  let opCode :=
    match info.opCode with
    | .SPECIAL => sixBits specialTable rfl value
    | .BCOND =>
      let i := value &&& 0x1f0000
      if i = 0 then .BLTZ
      else if i = 0x10000 then .BGEZ
      else if i = 0x100000 then .BLTZAL
      else if i = 0x110000 then .BGEZAL
      else .UNIMP
    | opCode => opCode
  { value := value, opCode := opCode, extra := extra
    rs := (value >>> 21) &&& 0x1f, rt := (value >>> 16) &&& 0x1f, rd := (value >>> 11) &&& 0x1f }

/-! ## Requests -/

inductive Request where
  | get (i : Nat)
  | set (i : Nat) (value : Word)
  | read (addr : Word) (size : Nat)
  | write (addr : Word) (size : Nat) (value : Word)

/-- A memory access may be refused by `Translate`. -/
@[reducible] def Reply : Request → Type
  | .get _ => Word
  | .set _ _ => Unit
  | .read _ _ => Except ExceptionType Word
  | .write _ _ _ => Except ExceptionType Unit

abbrev signature : Signature := ⟨Request, Reply⟩

/-- What ends an instruction early: the exception handler is called, an `ASSERT` fails,
the host traps, or an index is not one of a register. -/
inductive Stop where
  | exception (which : ExceptionType)
  | assertion
  | division
  | index
deriving DecidableEq, Repr

abbrev Exec := Program signature Stop

def getReg (i : Nat) : Exec Word := Program.ask (E := signature) (.get i)

def setReg (i : Nat) (value : Word) : Exec Unit := Program.ask (E := signature) (.set i value)

def ASSERT (condition : Bool) : Exec Unit := if condition then pure () else .stop .assertion

/-- `Machine::DelayedLoad`. -/
def DelayedLoad (nextReg nextValue : Word) : Exec Unit := do
  let target ← getReg LoadReg
  let value ← getReg LoadValueReg
  setReg target.toNat value
  setReg LoadReg nextReg
  setReg LoadValueReg nextValue
  setReg 0 0

/-- `Machine::RaiseException`; the instruction ends with it. -/
def RaiseException {A : Type} (which : ExceptionType) (badVAddr : Word) : Exec A := do
  setReg BadVAddrReg badVAddr
  DelayedLoad 0 0
  .stop (.exception which)

def ReadMem (addr : Word) (size : Nat) : Exec Word := do
  match ← Program.ask (E := signature) (.read addr size) with
  | .ok value => return value
  | .error exception => RaiseException exception addr

def WriteMem (addr : Word) (size : Nat) (value : Word) : Exec Unit := do
  match ← Program.ask (E := signature) (.write addr size value) with
  | .ok () => return ()
  | .error exception => RaiseException exception addr

/-! ## Multiplication -/

/-- The loop of `Mult` with so many rounds left, and the number so far. -/
def multLoop : Nat → (a bHi bLo hi lo : Word) → Word × Word
  | 0, _, _, _, hi, lo => (hi, lo)
  | rounds + 1, a, bHi, bLo, hi, lo =>
    let lo' := if a &&& 1 ≠ 0 then lo + bLo else lo
    let hi' := if a &&& 1 ≠ 0 then (if lo' < bLo then hi + 1 else hi) + bHi else hi
    if a &&& 1 ≠ 0 ∧ a &&& 0xfffffffe = 0 then (hi', lo')
    else
      let bHi' := if bLo &&& 0x80000000 ≠ 0 then (bHi <<< 1) ||| 1 else bHi <<< 1
      multLoop rounds (a.sshiftRight 1) bHi' (bLo <<< 1) hi' lo'

/-- `Mult`: the high and the low word of the product. -/
def Mult (a b : Word) (signedArith : Bool) : Word × Word :=
  if a = 0 ∨ b = 0 then (0, 0)
  else
    let negative := signedArith && (a.slt 0 != b.slt 0)
    let a := if signedArith && a.slt 0 then -a else a
    let b := if signedArith && b.slt 0 then -b else b
    let (hi, lo) := multLoop 32 a 0 b 0 0
    if negative then
      let lo := ~~~lo + 1
      (if lo = 0 then ~~~hi + 1 else ~~~hi, lo)
    else (hi, lo)

/-! ## Instructions -/

/-- What an instruction has still to commit: the next program counter and the load it
delays. -/
structure Commit where
  pcAfter : Word
  nextLoadReg : Word
  nextLoadValue : Word

/-- No load is delayed. -/
def Commit.to (pcAfter : Word) : Commit := ⟨pcAfter, 0, 0⟩

def negative (value : Word) : Bool := value &&& 0x80000000 ≠ 0

def IndexToAddr (x : Word) : Word := x <<< 2

/-- `registers[dest] = f(registers[source])`. -/
def unary (dest source : Nat) (f : Word → Word) : Exec Unit := do
  setReg dest (f (← getReg source))

/-- `registers[dest] = f(registers[first], registers[second])`. -/
def binary (dest first second : Nat) (f : Word → Word → Word) : Exec Unit := do
  let a ← getReg first
  let b ← getReg second
  setReg dest (f a b)

/-- `registers[HiReg]` and `registers[LoReg]` from two registers. -/
def setHiLo (first second : Nat) (f : Word → Word → Word × Word) : Exec Unit := do
  let a ← getReg first
  let b ← getReg second
  setReg HiReg (f a b).1
  setReg LoReg (f a b).2

/-- `DIV`. -/
def divide (rs rt : Nat) : Exec Unit := do
  let b ← getReg rt
  if b = 0 then
    setReg LoReg 0
    setReg HiReg 0
  else
    let a ← getReg rs
    -- the quotient is not an `int`
    if a = 0x80000000 ∧ b = -1 then .stop .division
    else
      setReg LoReg (a.sdiv b)
      setReg HiReg (a.srem b)

/-- `pcAfter` of a branch on the value of a register. -/
def branch (instr : Instruction) (pcAfter : Word) (taken : Word → Bool) : Exec Commit := do
  if taken (← getReg instr.rs.toNat) then return .to ((← getReg NextPCReg) + IndexToAddr instr.extra)
  else return .to pcAfter

/-- `pcAfter` of a branch on the values of two registers. -/
def compare (instr : Instruction) (pcAfter : Word) (taken : Word → Word → Bool) : Exec Commit := do
  let rs ← getReg instr.rs.toNat
  let rt ← getReg instr.rt.toNat
  if taken rs rt then return .to ((← getReg NextPCReg) + IndexToAddr instr.extra)
  else return .to pcAfter

/-- `registers[dest] = registers[NextPCReg] + 4`. -/
def link (dest : Nat) : Exec Unit := unary dest NextPCReg (· + 4)

/-- The address of a memory access. -/
def address (instr : Instruction) : Exec Word := return (← getReg instr.rs.toNat) + instr.extra

/-- What `LWL` and `LWR` merge into: the load before them, if it has the same target. -/
def merged (rt : Word) : Exec Word := do
  if (← getReg LoadReg) = rt then getReg LoadValueReg else getReg rt.toNat

/-- The `switch` of `LWL`. -/
def loadLeft (tmp nextLoadValue value : Word) : Word :=
  match (tmp &&& 3).toNat with
  | 0 => value
  | 1 => (nextLoadValue &&& 0xff) ||| (value <<< 8)
  | 2 => (nextLoadValue &&& 0xffff) ||| (value <<< 16)
  | _ => (nextLoadValue &&& 0xffffff) ||| (value <<< 24)

/-- The `switch` of `LWR`. -/
def loadRight (tmp nextLoadValue value : Word) : Word :=
  match (tmp &&& 3).toNat with
  | 0 => (nextLoadValue &&& 0xffffff00) ||| (value.sshiftRight 24 &&& 0xff)
  | 1 => (nextLoadValue &&& 0xffff0000) ||| (value.sshiftRight 16 &&& 0xffff)
  | 2 => (nextLoadValue &&& 0xff000000) ||| (value.sshiftRight 8 &&& 0xffffff)
  | _ => value

/-- The `switch` of `SWL`. -/
def storeLeft (tmp value register : Word) : Word :=
  match (tmp &&& 3).toNat with
  | 0 => register
  | 1 => (value &&& 0xff000000) ||| (register.sshiftRight 8 &&& 0xffffff)
  | 2 => (value &&& 0xffff0000) ||| (register.sshiftRight 16 &&& 0xffff)
  | _ => (value &&& 0xffffff00) ||| (register.sshiftRight 24 &&& 0xff)

/-- The `switch` of `SWR`. -/
def storeRight (tmp value register : Word) : Word :=
  match (tmp &&& 3).toNat with
  | 0 => (value &&& 0xffffff) ||| (register <<< 24)
  | 1 => (value &&& 0xffff) ||| (register <<< 16)
  | 2 => (value &&& 0xff) ||| (register <<< 8)
  | _ => register

/-- `LWL` and `LWR`. -/
def loadPartial (instr : Instruction) (pcAfter : Word) (merge : Word → Word → Word → Word) :
    Exec Commit := do
  let tmp ← address instr
  ASSERT (tmp &&& 3 = 0)
  let value ← ReadMem tmp 4
  let nextLoadValue ← merged instr.rt
  return ⟨pcAfter, instr.rt, merge tmp nextLoadValue value⟩

/-- `SWL` and `SWR`. -/
def storePartial (instr : Instruction) (merge : Word → Word → Word → Word) : Exec Unit := do
  let tmp ← address instr
  ASSERT (tmp &&& 3 = 0)
  let value ← ReadMem (tmp &&& ~~~3) 4
  let register ← getReg instr.rt.toNat
  WriteMem (tmp &&& ~~~3) 4 (merge tmp value register)

/-- `SB`, `SH` and `SW`. -/
def store (instr : Instruction) (size : Nat) : Exec Unit := do
  let tmp ← address instr
  let register ← getReg instr.rt.toNat
  WriteMem tmp size register

/-- A load of 1, 2 or 4 bytes. -/
def load (instr : Instruction) (pcAfter tmp : Word) (size : Nat) (extend : Word → Word) :
    Exec Commit := do
  let value ← ReadMem tmp size
  return ⟨pcAfter, instr.rt, extend value⟩

/-- The `switch` of `Machine::OneInstruction`. -/
def execute (instr : Instruction) (pcAfter : Word) : Exec Commit :=
  let rs := instr.rs.toNat
  let rt := instr.rt.toNat
  let rd := instr.rd.toNat
  let extra := instr.extra
  match instr.opCode with
  | .ADD => do
    let a ← getReg rs
    let b ← getReg rt
    let sum := a + b
    if ¬ negative (a ^^^ b) ∧ negative (a ^^^ sum) then RaiseException .OverflowException 0
    setReg rd sum
    return .to pcAfter
  | .ADDI => do
    let a ← getReg rs
    let sum := a + extra
    if ¬ negative (a ^^^ extra) ∧ negative (extra ^^^ sum) then RaiseException .OverflowException 0
    setReg rt sum
    return .to pcAfter
  | .ADDIU => do unary rt rs (· + extra); return .to pcAfter
  | .ADDU => do binary rd rs rt (· + ·); return .to pcAfter
  | .AND => do binary rd rs rt (· &&& ·); return .to pcAfter
  | .ANDI => do unary rt rs (· &&& (extra &&& 0xffff)); return .to pcAfter
  | .BEQ => compare instr pcAfter fun a b => a = b
  | .BGEZAL => do link R31; branch instr pcAfter fun a => !negative a
  | .BGEZ => branch instr pcAfter fun a => !negative a
  | .BGTZ => branch instr pcAfter fun a => (0 : Word).slt a
  | .BLEZ => branch instr pcAfter fun a => a.sle 0
  | .BLTZAL => do link R31; branch instr pcAfter negative
  | .BLTZ => branch instr pcAfter negative
  | .BNE => compare instr pcAfter fun a b => a ≠ b
  | .DIV => do divide rs rt; return .to pcAfter
  | .DIVU => do setHiLo rs rt fun a b => if b = 0 then (0, 0) else (a % b, a / b); return .to pcAfter
  | .JAL => do link R31; return .to ((pcAfter &&& 0xf0000000) ||| IndexToAddr extra)
  | .J => return .to ((pcAfter &&& 0xf0000000) ||| IndexToAddr extra)
  | .JALR => do link rd; return .to (← getReg rs)
  | .JR => return .to (← getReg rs)
  | .LB | .LBU => do
    let tmp ← address instr
    load instr pcAfter tmp 1 fun value =>
      if value &&& 0x80 ≠ 0 ∧ instr.opCode = .LB then value ||| 0xffffff00 else value &&& 0xff
  | .LH | .LHU => do
    let tmp ← address instr
    if tmp &&& 1 ≠ 0 then RaiseException .AddressErrorException tmp
    load instr pcAfter tmp 2 fun value =>
      if value &&& 0x8000 ≠ 0 ∧ instr.opCode = .LH then value ||| 0xffff0000 else value &&& 0xffff
  | .LUI => do setReg rt (extra <<< 16); return .to pcAfter
  | .LW => do
    let tmp ← address instr
    if tmp &&& 3 ≠ 0 then RaiseException .AddressErrorException tmp
    load instr pcAfter tmp 4 id
  | .LWL => loadPartial instr pcAfter loadLeft
  | .LWR => loadPartial instr pcAfter loadRight
  | .MFHI => do unary rd HiReg id; return .to pcAfter
  | .MFLO => do unary rd LoReg id; return .to pcAfter
  | .MTHI => do unary HiReg rs id; return .to pcAfter
  | .MTLO => do unary LoReg rs id; return .to pcAfter
  | .MULT => do setHiLo rs rt fun a b => Mult a b true; return .to pcAfter
  | .MULTU => do setHiLo rs rt fun a b => Mult a b false; return .to pcAfter
  | .NOR => do binary rd rs rt fun a b => ~~~(a ||| b); return .to pcAfter
  -- both operands are `rs`
  | .OR => do binary rd rs rs (· ||| ·); return .to pcAfter
  | .ORI => do unary rt rs (· ||| (extra &&& 0xffff)); return .to pcAfter
  | .SB => do store instr 1; return .to pcAfter
  | .SH => do store instr 2; return .to pcAfter
  | .SLL => do unary rd rt (· <<< extra.toNat); return .to pcAfter
  | .SLLV => do binary rd rs rt fun a b => b <<< (a &&& 0x1f).toNat; return .to pcAfter
  | .SLT => do binary rd rs rt fun a b => if a.slt b then 1 else 0; return .to pcAfter
  | .SLTI => do unary rt rs fun a => if a.slt extra then 1 else 0; return .to pcAfter
  | .SLTIU => do unary rt rs fun a => if a.ult extra then 1 else 0; return .to pcAfter
  | .SLTU => do binary rd rs rt fun a b => if a.ult b then 1 else 0; return .to pcAfter
  | .SRA => do unary rd rt (·.sshiftRight extra.toNat); return .to pcAfter
  | .SRAV => do binary rd rs rt fun a b => b.sshiftRight (a &&& 0x1f).toNat; return .to pcAfter
  -- `tmp` is an `int`, so these two shift in the sign as well
  | .SRL => do unary rd rt (·.sshiftRight extra.toNat); return .to pcAfter
  | .SRLV => do binary rd rs rt fun a b => b.sshiftRight (a &&& 0x1f).toNat; return .to pcAfter
  | .SUB => do
    let a ← getReg rs
    let b ← getReg rt
    let diff := a - b
    if negative (a ^^^ b) ∧ negative (a ^^^ diff) then RaiseException .OverflowException 0
    setReg rd diff
    return .to pcAfter
  | .SUBU => do binary rd rs rt (· - ·); return .to pcAfter
  | .SW => do store instr 4; return .to pcAfter
  | .SWL => do storePartial instr storeLeft; return .to pcAfter
  | .SWR => do storePartial instr storeRight; return .to pcAfter
  | .SYSCALL => RaiseException .SyscallException 0
  | .XOR => do binary rd rs rt (· ^^^ ·); return .to pcAfter
  | .XORI => do unary rt rs (· ^^^ (extra &&& 0xffff)); return .to pcAfter
  | .RES | .UNIMP => RaiseException .IllegalInstrException 0
  | .RFE | .SPECIAL | .BCOND => .stop .assertion

/-- The end of `Machine::OneInstruction`: the delayed load is done and the program counters
advance. -/
def finish (commit : Commit) : Exec Unit := do
  DelayedLoad commit.nextLoadReg commit.nextLoadValue
  setReg PrevPCReg (← getReg PCReg)
  setReg PCReg (← getReg NextPCReg)
  setReg NextPCReg commit.pcAfter

/-- `Machine::OneInstruction` once the instruction is fetched. -/
def perform (raw : Word) : Exec Unit := do
  let pcAfter := (← getReg NextPCReg) + 4
  finish (← execute (Decode raw) pcAfter)

/-- `Machine::OneInstruction`. -/
def OneInstruction : Exec Unit := do
  let raw ← ReadMem (← getReg PCReg) 4
  perform raw

/-! ## The machine -/

/-- `ReadMem` and `WriteMem` of a memory in some state. -/
structure MemorySystem (M : Type) where
  read : M → Word → Nat → Machine.Outcome Word × M
  write : M → Word → Nat → Word → Machine.Outcome Unit × M

/-- Storage for the registers; only the first `NumTotalRegs` are there. -/
abbrev Registers := Nat → Word

structure Cpu (M : Type) where
  registers : Registers
  memory : M

/-- An access that was translated or refused, or failed an `ASSERT`. -/
def answer {M A : Type} (s : Cpu M) : Machine.Outcome A × M → Effects.Outcome Stop (Cpu M) (Except ExceptionType A)
  | (.done value, memory) => .done (.ok value) { s with memory := memory }
  | (.raises exception, memory) => .done (.error exception) { s with memory := memory }
  | (.aborts, memory) => .stopped .assertion { s with memory := memory }

def handle {M : Type} (system : MemorySystem M) : Handler signature Stop (Cpu M)
  | .get i, s => if i < NumTotalRegs then .done (s.registers i) s else .stopped .index s
  | .set i value, s =>
    if i < NumTotalRegs then .done () { s with registers := Function.update s.registers i value }
    else .stopped .index s
  | .read addr size, s => answer s (system.read s.memory addr size)
  | .write addr size value, s => answer s (system.write s.memory addr size value)

/-! ## Running -/

section Running

variable {M A : Type} {system : MemorySystem M} {s : Cpu M} {i size : Nat} {value addr : Word}

theorem run_get {next : Word → Exec A} (inside : i < NumTotalRegs) :
    (Program.request (.get i) next : Exec A).run (handle system) s =
      (next (s.registers i)).run (handle system) s := by
  simp only [Program.run, handle, if_pos inside]

theorem run_set {next : Unit → Exec A} (inside : i < NumTotalRegs) :
    (Program.request (.set i value) next : Exec A).run (handle system) s =
      (next ()).run (handle system) { s with registers := Function.update s.registers i value } := by
  simp only [Program.run, handle, if_pos inside]

theorem run_read {next : Except ExceptionType Word → Exec A} :
    (Program.request (.read addr size) next : Exec A).run (handle system) s =
      match system.read s.memory addr size with
      | (.done value, memory) => (next (.ok value)).run (handle system) { s with memory := memory }
      | (.raises exception, memory) =>
        (next (.error exception)).run (handle system) { s with memory := memory }
      | (.aborts, memory) => .stopped .assertion { s with memory := memory } := by
  simp only [Program.run, handle]
  rcases system.read s.memory addr size with ⟨_ | _ | _, _⟩ <;> rfl

theorem run_write {next : Except ExceptionType Unit → Exec A} :
    (Program.request (.write addr size value) next : Exec A).run (handle system) s =
      match system.write s.memory addr size value with
      | (.done (), memory) => (next (.ok ())).run (handle system) { s with memory := memory }
      | (.raises exception, memory) =>
        (next (.error exception)).run (handle system) { s with memory := memory }
      | (.aborts, memory) => .stopped .assertion { s with memory := memory } := by
  simp only [Program.run, handle]
  rcases system.write s.memory addr size value with ⟨_ | _ | _, _⟩ <;> rfl

/-- The registers after `DelayedLoad`. -/
def Registers.delayed (registers : Registers) (nextReg nextValue : Word) : Registers :=
  Function.update (Function.update (Function.update
    (Function.update registers (registers LoadReg).toNat (registers LoadValueReg))
    LoadReg nextReg) LoadValueReg nextValue) 0 0

theorem run_DelayedLoad {nextReg nextValue : Word} {next : Unit → Exec A}
    (inside : (s.registers LoadReg).toNat < NumTotalRegs) :
    (DelayedLoad nextReg nextValue >>= next).run (handle system) s =
      (next ()).run (handle system) { s with registers := s.registers.delayed nextReg nextValue } := by
  refine (run_get (by decide)).trans ((run_get (by decide)).trans ((run_set inside).trans ?_))
  exact (run_set (by decide)).trans ((run_set (by decide)).trans (run_set (by decide)))

@[simp]
theorem delayed_LoadReg (registers : Registers) (nextReg nextValue : Word) :
    registers.delayed nextReg nextValue LoadReg = nextReg := by
  unfold Registers.delayed
  rw [Function.update_of_ne (by decide), Function.update_of_ne (by decide), Function.update_self]

@[simp]
theorem delayed_LoadValueReg (registers : Registers) (nextReg nextValue : Word) :
    registers.delayed nextReg nextValue LoadValueReg = nextValue := by
  unfold Registers.delayed
  rw [Function.update_of_ne (by decide), Function.update_self]

@[simp]
theorem delayed_zero (registers : Registers) (nextReg nextValue : Word) :
    registers.delayed nextReg nextValue 0 = 0 := Function.update_self ..

/-- The other registers: only the target of the pending load changes. -/
theorem delayed_other {registers : Registers} {nextReg nextValue : Word} (notZero : i ≠ 0)
    (notLoad : i ≠ LoadReg) (notValue : i ≠ LoadValueReg) :
    registers.delayed nextReg nextValue i =
      if i = (registers LoadReg).toNat then registers LoadValueReg else registers i := by
  unfold Registers.delayed
  rw [Function.update_of_ne notZero, Function.update_of_ne notValue, Function.update_of_ne notLoad,
    Function.update_apply]

/-- `RaiseException` leaves its address in `BadVAddrReg` and finishes the pending load. -/
theorem run_RaiseException {which : ExceptionType} {badVAddr : Word}
    (inside : (s.registers LoadReg).toNat < NumTotalRegs) :
    (RaiseException which badVAddr : Exec A).run (handle system) s = .stopped (.exception which)
      { s with registers := Registers.delayed (Function.update s.registers BadVAddrReg badVAddr) 0 0 } := by
  refine (run_set (by decide)).trans (run_DelayedLoad ?_)
  dsimp only
  rw [Function.update_of_ne (by decide)]
  exact inside

/-- The registers after `finish`. -/
def Registers.finished (registers : Registers) (commit : Commit) : Registers :=
  let after := registers.delayed commit.nextLoadReg commit.nextLoadValue
  Function.update (Function.update (Function.update after PrevPCReg (after PCReg))
    PCReg (after NextPCReg)) NextPCReg commit.pcAfter

/-- Past the program counters, `finish` is the delayed load. -/
theorem finished_other {registers : Registers} {commit : Commit} (notPC : i ≠ PCReg)
    (notNext : i ≠ NextPCReg) (notPrev : i ≠ PrevPCReg) :
    registers.finished commit i = registers.delayed commit.nextLoadReg commit.nextLoadValue i := by
  unfold Registers.finished
  rw [Function.update_of_ne notNext, Function.update_of_ne notPC, Function.update_of_ne notPrev]

theorem run_finish {commit : Commit} (inside : (s.registers LoadReg).toNat < NumTotalRegs) :
    (finish commit).run (handle system) s =
      .done () { s with registers := s.registers.finished commit } := by
  refine (run_DelayedLoad inside).trans ((run_get (by decide)).trans ((run_set (by decide)).trans ?_))
  refine (run_get (by decide)).trans ((run_set (by decide)).trans ((run_set (by decide)).trans ?_))
  dsimp only
  rw [Function.update_of_ne (show NextPCReg ≠ PrevPCReg by decide)]
  rfl

theorem run_perform {raw : Word} : (perform raw).run (handle system) s =
    (execute (Decode raw) (s.registers NextPCReg + 4) >>= finish).run (handle system) s :=
  run_get (by decide)

/-- The fetch comes first. -/
theorem run_OneInstruction : OneInstruction.run (handle system) s =
    match system.read s.memory (s.registers PCReg) 4 with
    | (.done raw, memory) => (perform raw).run (handle system) { s with memory := memory }
    | (.raises exception, memory) =>
      (RaiseException exception (s.registers PCReg) : Exec Unit).run (handle system) { s with memory := memory }
    | (.aborts, memory) => .stopped .assertion { s with memory := memory } := by
  refine (run_get (by decide)).trans (run_read.trans ?_)
  rcases system.read s.memory (s.registers PCReg) 4 with ⟨_ | _ | _, _⟩ <;> rfl

end Running

end Nachos.Mips
