import Nachos.Machine.Mips
import Nachos.Userprog.PagingProofs

/-! Which registers an instruction uses, and how it may stop. Safety and restarting need
no more about most instructions than this. -/
namespace Nachos.Mips
open Effects Machine Paging

/-- The registers a program may read and write, and the ways it may stop other than by an
exception. -/
structure Footprint where
  reads : Nat → Prop
  writes : Nat → Prop
  stops : Stop → Prop

/-- The program keeps to a footprint, and what it returns satisfies `post`. A program that
raises an exception is done with its own work, so what `RaiseException` uses is left out; an
access that is refused raises its exception. -/
inductive Uses (print : Footprint) {A : Type} (post : A → Prop) : Exec A → Prop where
  | pure {value : A} (holds : post value) : Uses print post (.pure value)
  | raise (which : ExceptionType) (badVAddr : Word) : Uses print post (RaiseException which badVAddr)
  | stop {reason : Stop} (may : print.stops reason) : Uses print post (.stop reason)
  | get {i : Nat} {next : Word → Exec A} (may : print.reads i)
      (rest : ∀ value, Uses print post (next value)) : Uses print post (.request (.get i) next)
  | set {i : Nat} {value : Word} {next : Unit → Exec A} (may : print.writes i)
      (rest : Uses print post (next ())) : Uses print post (.request (.set i value) next)
  | read {addr : Word} {size : Nat} {next : Except ExceptionType Word → Exec A} (sized : Sized size)
      (rest : ∀ value, Uses print post (next (.ok value)))
      (refused : ∀ which, next (.error which) = RaiseException which addr) :
      Uses print post (.request (.read addr size) next)
  | write {addr : Word} {size : Nat} {value : Word} {next : Except ExceptionType Unit → Exec A}
      (sized : Sized size) (rest : Uses print post (next (.ok ())))
      (refused : ∀ which, next (.error which) = RaiseException which addr) :
      Uses print post (.request (.write addr size value) next)

variable {print : Footprint} {A B : Type}

/-- Nothing follows an exception. -/
theorem raise_bind {which : ExceptionType} {addr : Word} {program : Exec A} {next : A → Exec B}
    (raises : program = RaiseException which addr) : program >>= next = RaiseException which addr := by
  rw [raises]
  rfl

/-- The program keeps to a footprint. -/
abbrev Within (print : Footprint) (program : Exec A) : Prop := Uses print (fun _ => True) program

theorem Uses.bind {program : Exec A} {next : A → Exec B} {post : B → Prop} (first : Within print program)
    (rest : ∀ value, Uses print post (next value)) : Uses print post (program >>= next) := by
  induction first with
  | pure => exact rest _
  | raise which badVAddr => exact .raise which badVAddr
  | stop may => exact .stop may
  | get may _ ih => exact .get may ih
  | set may _ ih => exact .set may ih
  | read sized _ refused ih => exact .read sized ih fun which => raise_bind (refused which)
  | write sized _ refused ih => exact .write sized ih fun which => raise_bind (refused which)

theorem Uses.mono {print' : Footprint} {program : Exec A} {post : A → Prop} (uses : Uses print post program)
    (reads : ∀ i, print.reads i → print'.reads i) (writes : ∀ i, print.writes i → print'.writes i)
    (stops : ∀ reason, print.stops reason → print'.stops reason) : Uses print' post program := by
  induction uses with
  | pure holds => exact .pure holds
  | raise which badVAddr => exact .raise which badVAddr
  | stop may => exact .stop (stops _ may)
  | get may _ ih => exact .get (reads _ may) ih
  | set may _ ih => exact .set (writes _ may) ih
  | read sized _ refused ih => exact .read sized ih refused
  | write sized _ refused ih => exact .write sized ih refused

/-! ## The parts of an instruction -/

section Parts

variable {i dest first second size : Nat} {value addr pcAfter : Word} {instr : Instruction}
  {post : Commit → Prop}

theorem within_getReg (may : print.reads i) : Within print (getReg i) := .get may fun _ => .pure trivial

theorem within_setReg (may : print.writes i) : Within print (setReg i value) := .set may (.pure trivial)

theorem within_ASSERT {condition : Bool} (may : print.stops .assertion) : Within print (ASSERT condition) := by
  cases condition with
  | true => exact .pure trivial
  | false => exact .stop may

theorem within_ReadMem (sized : Sized size) : Within print (ReadMem addr size) :=
  .read sized (fun _ => .pure trivial) fun _ => rfl

theorem within_WriteMem (sized : Sized size) : Within print (WriteMem addr size value) :=
  .write sized (.pure trivial) fun _ => rfl

theorem within_unary {f : Word → Word} (source : print.reads first) (target : print.writes dest) :
    Within print (unary dest first f) := (within_getReg source).bind fun _ => within_setReg target

theorem within_binary {f : Word → Word → Word} (one : print.reads first) (two : print.reads second)
    (target : print.writes dest) : Within print (binary dest first second f) :=
  (within_getReg one).bind fun _ => (within_getReg two).bind fun _ => within_setReg target

theorem within_setHiLo {f : Word → Word → Word × Word} (one : print.reads first)
    (two : print.reads second) (hi : print.writes HiReg) (lo : print.writes LoReg) :
    Within print (setHiLo first second f) :=
  (within_getReg one).bind fun _ => (within_getReg two).bind fun _ =>
    (within_setReg hi).bind fun _ => within_setReg lo

theorem within_divide {rs rt : Nat} (one : print.reads rs) (two : print.reads rt)
    (hi : print.writes HiReg) (lo : print.writes LoReg) (may : print.stops .division) :
    Within print (divide rs rt) := by
  refine (within_getReg two).bind fun b => ?_
  split
  · exact (within_setReg lo).bind fun _ => within_setReg hi
  · refine (within_getReg one).bind fun a => ?_
    split
    · exact .stop may
    · exact (within_setReg lo).bind fun _ => within_setReg hi

theorem uses_branch {taken : Word → Bool} (source : print.reads instr.rs.toNat)
    (next : print.reads NextPCReg) (plain : ∀ pc, post (.to pc)) :
    Uses print post (branch instr pcAfter taken) := by
  refine (within_getReg source).bind fun a => ?_
  split
  · exact (within_getReg next).bind fun _ => .pure (plain _)
  · exact .pure (plain _)

theorem uses_compare {taken : Word → Word → Bool} (one : print.reads instr.rs.toNat)
    (two : print.reads instr.rt.toNat) (next : print.reads NextPCReg) (plain : ∀ pc, post (.to pc)) :
    Uses print post (compare instr pcAfter taken) := by
  refine (within_getReg one).bind fun a => (within_getReg two).bind fun b => ?_
  split
  · exact (within_getReg next).bind fun _ => .pure (plain _)
  · exact .pure (plain _)

theorem within_address (base : print.reads instr.rs.toNat) : Within print (address instr) :=
  (within_getReg base).bind fun _ => .pure trivial

theorem uses_load {tmp : Word} {extend : Word → Word} (sized : Sized size)
    (delays : ∀ value, post ⟨pcAfter, instr.rt, value⟩) :
    Uses print post (load instr pcAfter tmp size extend) :=
  (within_ReadMem sized).bind fun _ => .pure (delays _)

theorem within_merged {rt : Word} (target : print.reads LoadReg) (pending : print.reads LoadValueReg)
    (register : print.reads rt.toNat) : Within print (merged rt) := by
  refine (within_getReg target).bind fun _ => ?_
  split
  · exact within_getReg pending
  · exact within_getReg register

theorem within_store (base : print.reads instr.rs.toNat) (source : print.reads instr.rt.toNat)
    (sized : Sized size) : Within print (store instr size) :=
  (within_address base).bind fun _ => (within_getReg source).bind fun _ => within_WriteMem sized

end Parts

/-! ## The instructions -/

namespace Instruction

/-- The general registers an instruction has as operands. `OR` has only one: the source reads
`rs` twice. What `LWL` and `LWR` merge into is not an operand. -/
def reads (instr : Instruction) : List Nat :=
  match instr.opCode with
  | .ADD | .ADDU | .AND | .BEQ | .BNE | .DIV | .DIVU | .MULT | .MULTU | .NOR | .SB | .SH | .SW | .SWL
  | .SWR | .SLLV | .SLT | .SLTU | .SRAV | .SRLV | .SUB | .SUBU | .XOR => [instr.rs.toNat, instr.rt.toNat]
  | .ADDI | .ADDIU | .ANDI | .BGEZ | .BGEZAL | .BGTZ | .BLEZ | .BLTZ | .BLTZAL | .JALR | .JR | .LB | .LBU
  | .LH | .LHU | .LW | .LWL | .LWR | .MTHI | .MTLO | .OR | .ORI | .SLTI | .SLTIU | .XORI => [instr.rs.toNat]
  | .SLL | .SRA | .SRL => [instr.rt.toNat]
  | .J | .JAL | .LUI | .MFHI | .MFLO | .SYSCALL | .UNIMP | .RES | .RFE | .SPECIAL | .BCOND => []

/-- The target of a load. -/
def target (instr : Instruction) : Option Nat :=
  match instr.opCode with
  | .LB | .LBU | .LH | .LHU | .LW | .LWL | .LWR => some instr.rt.toNat
  | _ => none

/-- The general registers an instruction writes, at once or, if it is a load, later. -/
def writes (instr : Instruction) : List Nat :=
  match instr.opCode with
  | .ADD | .ADDU | .AND | .NOR | .OR | .SLL | .SLLV | .SLT | .SLTU | .SRA | .SRAV | .SRL | .SRLV | .SUB
  | .SUBU | .XOR | .JALR | .MFHI | .MFLO => [instr.rd.toNat]
  | .ADDI | .ADDIU | .ANDI | .LUI | .ORI | .SLTI | .SLTIU | .XORI => [instr.rt.toNat]
  | .BGEZAL | .BLTZAL | .JAL => [R31]
  | _ => instr.target.toList

/-- The instruction merges a word into its target. -/
def Merges (instr : Instruction) : Prop := instr.opCode = .LWL ∨ instr.opCode = .LWR

/-- The instruction reads or writes a word by parts. -/
def Partial (instr : Instruction) : Prop :=
  instr.Merges ∨ instr.opCode = .SWL ∨ instr.opCode = .SWR

/-- The `switch` has a case for it. -/
def Known (instr : Instruction) : Prop :=
  instr.opCode ≠ .RFE ∧ instr.opCode ≠ .SPECIAL ∧ instr.opCode ≠ .BCOND

/-- What `execute` uses. -/
def footprint (instr : Instruction) : Footprint where
  reads i := i ∈ instr.reads ∨ i = HiReg ∨ i = LoReg ∨ i = NextPCReg ∨
    instr.Merges ∧ (i = LoadReg ∨ i = LoadValueReg ∨ i = instr.rt.toNat)
  writes i := i ∈ instr.writes ∨ i = HiReg ∨ i = LoReg
  stops reason := reason = .division ∧ instr.opCode = .DIV ∨
    reason = .assertion ∧ (instr.Partial ∨ ¬ instr.Known)

/-- The load an instruction delays is its own. -/
def Delays (instr : Instruction) (commit : Commit) : Prop :=
  commit.nextLoadReg = 0 ∨ instr.target = some instr.rt.toNat ∧ commit.nextLoadReg = instr.rt

end Instruction

/-- Every instruction keeps to its footprint, and only a load delays a load. -/
theorem uses_execute (instr : Instruction) (pcAfter : Word) :
    Uses instr.footprint instr.Delays (execute instr pcAfter) := by
  have plain : ∀ pc, instr.Delays (.to pc) := fun _ => .inl rfl
  have rs : instr.rs.toNat ∈ instr.reads → instr.footprint.reads instr.rs.toNat := .inl
  have rt : instr.rt.toNat ∈ instr.reads → instr.footprint.reads instr.rt.toNat := .inl
  have dest : ∀ {i}, i ∈ instr.writes → instr.footprint.writes i := .inl
  have asserts : instr.Partial → instr.footprint.stops .assertion := fun parts => .inr ⟨rfl, .inl parts⟩
  have readHi : instr.footprint.reads HiReg := .inr (.inl rfl)
  have readLo : instr.footprint.reads LoReg := .inr (.inr (.inl rfl))
  have readNext : instr.footprint.reads NextPCReg := .inr (.inr (.inr (.inl rfl)))
  have hi : instr.footprint.writes HiReg := .inr (.inl rfl)
  have lo : instr.footprint.writes LoReg := .inr (.inr rfl)
  unfold execute
  cases op : instr.opCode with
  | ADDU | AND | NOR | SLLV | SLT | SLTU | SRAV | SRLV | SUBU | XOR =>
    have one := rs (by simp [Instruction.reads, op])
    have two := rt (by simp [Instruction.reads, op])
    have target := dest (show instr.rd.toNat ∈ instr.writes by simp [Instruction.writes, op])
    exact (within_binary one two target).bind fun _ => .pure (plain _)
  | OR =>
    have one := rs (by simp [Instruction.reads, op])
    have target := dest (show instr.rd.toNat ∈ instr.writes by simp [Instruction.writes, op])
    exact (within_binary one one target).bind fun _ => .pure (plain _)
  | ADDIU | ANDI | ORI | SLTI | SLTIU | XORI =>
    have one := rs (by simp [Instruction.reads, op])
    have target := dest (show instr.rt.toNat ∈ instr.writes by simp [Instruction.writes, op])
    exact (within_unary one target).bind fun _ => .pure (plain _)
  | SLL | SRA | SRL =>
    have one := rt (by simp [Instruction.reads, op])
    have target := dest (show instr.rd.toNat ∈ instr.writes by simp [Instruction.writes, op])
    exact (within_unary one target).bind fun _ => .pure (plain _)
  | LUI =>
    have target := dest (show instr.rt.toNat ∈ instr.writes by simp [Instruction.writes, op])
    exact (within_setReg target).bind fun _ => .pure (plain _)
  | ADD | SUB =>
    have one := rs (by simp [Instruction.reads, op])
    have two := rt (by simp [Instruction.reads, op])
    have target := dest (show instr.rd.toNat ∈ instr.writes by simp [Instruction.writes, op])
    refine (within_getReg one).bind fun a => (within_getReg two).bind fun b => ?_
    dsimp only
    split
    · exact .raise _ _
    · exact (within_setReg target).bind fun _ => .pure (plain _)
  | ADDI =>
    have one := rs (by simp [Instruction.reads, op])
    have target := dest (show instr.rt.toNat ∈ instr.writes by simp [Instruction.writes, op])
    refine (within_getReg one).bind fun a => ?_
    dsimp only
    split
    · exact .raise _ _
    · exact (within_setReg target).bind fun _ => .pure (plain _)
  | BEQ | BNE =>
    have one := rs (by simp [Instruction.reads, op])
    have two := rt (by simp [Instruction.reads, op])
    exact uses_compare one two readNext plain
  | BGEZ | BGTZ | BLEZ | BLTZ =>
    have one := rs (by simp [Instruction.reads, op])
    exact uses_branch one readNext plain
  | BGEZAL | BLTZAL =>
    have one := rs (by simp [Instruction.reads, op])
    have target := dest (show R31 ∈ instr.writes by simp [Instruction.writes, op])
    exact (within_unary readNext target).bind fun _ => uses_branch one readNext plain
  | DIV =>
    have one := rs (by simp [Instruction.reads, op])
    have two := rt (by simp [Instruction.reads, op])
    exact (within_divide one two hi lo (.inl ⟨rfl, op⟩)).bind fun _ => .pure (plain _)
  | DIVU | MULT | MULTU =>
    have one := rs (by simp [Instruction.reads, op])
    have two := rt (by simp [Instruction.reads, op])
    exact (within_setHiLo one two hi lo).bind fun _ => .pure (plain _)
  | J => exact .pure (plain _)
  | JAL =>
    have target := dest (show R31 ∈ instr.writes by simp [Instruction.writes, op])
    exact (within_unary readNext target).bind fun _ => .pure (plain _)
  | JALR =>
    have one := rs (by simp [Instruction.reads, op])
    have target := dest (show instr.rd.toNat ∈ instr.writes by simp [Instruction.writes, op])
    exact (within_unary readNext target).bind fun _ => (within_getReg one).bind fun _ => .pure (plain _)
  | JR =>
    have one := rs (by simp [Instruction.reads, op])
    exact (within_getReg one).bind fun _ => .pure (plain _)
  | LB | LBU =>
    have delays : ∀ value, instr.Delays ⟨pcAfter, instr.rt, value⟩ :=
      fun _ => .inr ⟨by simp [Instruction.target, op], rfl⟩
    have one := rs (by simp [Instruction.reads, op])
    exact (within_address one).bind fun _ => uses_load (.inl rfl) delays
  | LH | LHU =>
    have delays : ∀ value, instr.Delays ⟨pcAfter, instr.rt, value⟩ :=
      fun _ => .inr ⟨by simp [Instruction.target, op], rfl⟩
    have one := rs (by simp [Instruction.reads, op])
    refine (within_address one).bind fun tmp => ?_
    dsimp only
    split
    · exact .raise _ _
    · exact uses_load (.inr (.inl rfl)) delays
  | LW =>
    have delays : ∀ value, instr.Delays ⟨pcAfter, instr.rt, value⟩ :=
      fun _ => .inr ⟨by simp [Instruction.target, op], rfl⟩
    have one := rs (by simp [Instruction.reads, op])
    refine (within_address one).bind fun tmp => ?_
    dsimp only
    split
    · exact .raise _ _
    · exact uses_load (.inr (.inr rfl)) delays
  | LWL | LWR =>
    have delays : ∀ value, instr.Delays ⟨pcAfter, instr.rt, value⟩ :=
      fun _ => .inr ⟨by simp [Instruction.target, op], rfl⟩
    have one := rs (by simp [Instruction.reads, op])
    have merges : instr.Merges := by simp [Instruction.Merges, op]
    have extra : ∀ {i}, i = LoadReg ∨ i = LoadValueReg ∨ i = instr.rt.toNat → instr.footprint.reads i :=
      fun either => .inr (.inr (.inr (.inr ⟨merges, either⟩)))
    refine (within_address one).bind fun _ => (within_ASSERT (asserts (.inl merges))).bind fun _ =>
      (within_ReadMem (.inr (.inr rfl))).bind fun _ => ?_
    exact (within_merged (extra (.inl rfl)) (extra (.inr (.inl rfl)))
      (extra (.inr (.inr rfl)))).bind fun _ => .pure (delays _)
  | MFHI =>
    have target := dest (show instr.rd.toNat ∈ instr.writes by simp [Instruction.writes, op])
    exact (within_unary readHi target).bind fun _ => .pure (plain _)
  | MFLO =>
    have target := dest (show instr.rd.toNat ∈ instr.writes by simp [Instruction.writes, op])
    exact (within_unary readLo target).bind fun _ => .pure (plain _)
  | MTHI =>
    have one := rs (by simp [Instruction.reads, op])
    exact (within_unary one hi).bind fun _ => .pure (plain _)
  | MTLO =>
    have one := rs (by simp [Instruction.reads, op])
    exact (within_unary one lo).bind fun _ => .pure (plain _)
  | SB | SH | SW =>
    have one := rs (by simp [Instruction.reads, op])
    have two := rt (by simp [Instruction.reads, op])
    exact (within_store one two (by simp [Sized])).bind fun _ => .pure (plain _)
  | SWL | SWR =>
    have one := rs (by simp [Instruction.reads, op])
    have two := rt (by simp [Instruction.reads, op])
    have parts : instr.Partial := by simp [Instruction.Partial, op]
    refine Uses.bind ?_ fun _ => .pure (plain _)
    exact (within_address one).bind fun _ => (within_ASSERT (asserts parts)).bind fun _ =>
      (within_ReadMem (.inr (.inr rfl))).bind fun _ => (within_getReg two).bind fun _ =>
        within_WriteMem (.inr (.inr rfl))
  | SYSCALL | RES | UNIMP => exact .raise _ _
  | RFE | SPECIAL | BCOND => exact .stop (.inr ⟨rfl, .inr (by simp [Instruction.Known, op])⟩)

/-! ## Decoded instructions -/

theorem mem_sixBits {α : Type} (table : List α) (long : table.length = 64) (field : Word) :
    sixBits table long field ∈ table := List.get_mem table _

theorem masked_lt {field : Word} : (field &&& 0x1f).toNat < NumGPRegs := by
  rw [BitVec.toNat_and]
  exact Nat.lt_of_le_of_lt Nat.and_le_right (by decide)

/-- No word decodes to a code the `switch` has no case for. -/
theorem decode_known (value : Word) : (Decode value).Known := by
  have special : ∀ code ∈ specialTable, code ≠ .RFE ∧ code ≠ .SPECIAL ∧ code ≠ .BCOND := by decide
  have first : ∀ info ∈ opTable, info.opCode ≠ .RFE := by decide
  unfold Decode Instruction.Known
  dsimp only
  split
  · exact special _ (mem_sixBits ..)
  · split_ifs <;> decide
  · rename_i notSpecial notBcond
    exact ⟨first _ (mem_sixBits ..), notSpecial, notBcond⟩

namespace Instruction

variable {instr : Instruction} {i : Nat}

theorem mem_reads (operand : i ∈ instr.reads) : i = instr.rs.toNat ∨ i = instr.rt.toNat := by
  have operands : instr.reads ⊆ [instr.rs.toNat, instr.rt.toNat] := by
    cases op : instr.opCode <;> simp [reads, op]
  simpa using operands operand

theorem mem_writes (result : i ∈ instr.writes) :
    i = instr.rd.toNat ∨ i = instr.rt.toNat ∨ i = R31 := by
  have results : instr.writes ⊆ [instr.rd.toNat, instr.rt.toNat, R31] := by
    cases op : instr.opCode <;> simp [writes, target, op]
  simpa using results result

end Instruction

/-- A decoded instruction uses registers that are there, and leaves the pending load alone. -/
theorem decode_reads {value : Word} {i : Nat} (read : (Decode value).footprint.reads i) :
    i < NumTotalRegs := by
  have general : NumGPRegs ≤ NumTotalRegs := by decide
  rcases read with operand | rfl | rfl | rfl | ⟨-, rfl | rfl | rfl⟩
  · rcases Instruction.mem_reads operand with rfl | rfl
    · exact masked_lt.trans_le general
    · exact masked_lt.trans_le general
  · decide
  · decide
  · decide
  · decide
  · decide
  · exact masked_lt.trans_le general

theorem decode_writes {value : Word} {i : Nat} (written : (Decode value).footprint.writes i) :
    i < LoadReg := by
  have general : NumGPRegs ≤ LoadReg := by decide
  rcases written with result | rfl | rfl
  · rcases Instruction.mem_writes result with rfl | rfl | rfl
    · exact masked_lt.trans_le general
    · exact masked_lt.trans_le general
    · decide
  · decide
  · decide

end Nachos.Mips
