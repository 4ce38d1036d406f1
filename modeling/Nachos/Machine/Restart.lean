import Nachos.Machine.MipsFootprints

/-! Instructions that are interrupted, or that fault and are executed again.

A pending load can be applied early, by an interrupt or by the exception of a page fault.
Code that does not use the target of a load in the instruction behind it cannot tell: what
each instruction leaves, with the pending load applied, is what it leaves on a flat memory
where nothing is ever interrupted. -/
namespace Nachos.Mips
open Effects Machine Paging

/-! ## Logical memory -/

/-- A memory system through which some contents are seen, as long as a condition on its state
holds: what it answers is right, and an access that faults changes nothing. -/
structure LogicalMemory {M : Type} (system : MemorySystem M) where
  contents : M → Memory
  Valid : M → Prop
  read_done {m m' : M} {addr value : Word} {size : Nat} : Valid m → Sized size →
    system.read m addr size = (.done value, m') →
    fetch (contents m) addr.toNat size = some value ∧ contents m' = contents m ∧ Valid m'
  read_fault {m m' : M} {addr : Word} {size : Nat} : Valid m → Sized size →
    system.read m addr size = (.raises .PageFaultException, m') → contents m' = contents m ∧ Valid m'
  write_done {m m' : M} {addr value : Word} {size : Nat} : Valid m → Sized size →
    system.write m addr size value = (.done (), m') →
    Machine.store (contents m) addr.toNat value size = some (contents m') ∧ Valid m'
  write_fault {m m' : M} {addr value : Word} {size : Nat} : Valid m → Sized size →
    system.write m addr size value = (.raises .PageFaultException, m') →
    contents m' = contents m ∧ Valid m'

/-- A memory with nothing behind it. -/
def flat : MemorySystem Memory where
  read bytes addr size :=
    match fetch bytes addr.toNat size with
    | some value => (.done value, bytes)
    | none => (.aborts, bytes)
  write bytes addr size value :=
    match Machine.store bytes addr.toNat value size with
    | some bytes => (.done (), bytes)
    | none => (.aborts, bytes)

/-! ## What is observed -/

/-- The registers once the pending load is applied, without those that belong to it and the
address of the last exception. -/
def Registers.settled (registers : Registers) : Registers :=
  Function.update (registers.delayed 0 0) BadVAddrReg 0

/-- Registers and logical memory contents. -/
abbrev Observation := Cpu Memory

/-- The instruction that is executed next. -/
def Observation.instruction (o : Observation) : Instruction :=
  Decode (o.memory.word (o.registers PCReg).toNat)

/-- The observation after one instruction on a flat memory. -/
def Observation.next (o : Observation) : Observation :=
  match OneInstruction.run (handle flat) o with
  | .done _ after | .stopped _ after => { after with registers := after.registers.settled }

section Settling

variable {registers : Registers} {i : Nat}

theorem settled_other (notZero : i ≠ 0) (notLoad : i ≠ LoadReg) (notValue : i ≠ LoadValueReg)
    (notBad : i ≠ BadVAddrReg) : registers.settled i =
      if i = (registers LoadReg).toNat then registers LoadValueReg else registers i := by
  unfold Registers.settled
  rw [Function.update_of_ne notBad, delayed_other notZero notLoad notValue]

@[simp]
theorem settled_zero : registers.settled 0 = 0 := by
  unfold Registers.settled
  rw [Function.update_of_ne (by decide), delayed_zero]

@[simp]
theorem settled_LoadReg : registers.settled LoadReg = 0 := by
  unfold Registers.settled
  rw [Function.update_of_ne (by decide), delayed_LoadReg]

@[simp]
theorem settled_LoadValueReg : registers.settled LoadValueReg = 0 := by
  unfold Registers.settled
  rw [Function.update_of_ne (by decide), delayed_LoadValueReg]

@[simp]
theorem settled_BadVAddrReg : registers.settled BadVAddrReg = 0 := Function.update_self ..

theorem settled_ext {registers' : Registers}
    (same : ∀ i, i ≠ 0 → i ≠ LoadReg → i ≠ LoadValueReg → i ≠ BadVAddrReg →
      registers.settled i = registers'.settled i) : registers.settled = registers'.settled := by
  funext i
  by_cases notZero : i = 0
  · rw [notZero, settled_zero, settled_zero]
  by_cases notLoad : i = LoadReg
  · rw [notLoad, settled_LoadReg, settled_LoadReg]
  by_cases notValue : i = LoadValueReg
  · rw [notValue, settled_LoadValueReg, settled_LoadValueReg]
  by_cases notBad : i = BadVAddrReg
  · rw [notBad, settled_BadVAddrReg, settled_BadVAddrReg]
  exact same i notZero notLoad notValue notBad

/-- Registers settle to the same if they differ only in what belongs to the pending load, and
the load is the same or goes nowhere. -/
theorem settled_congr {registers' : Registers}
    (same : ∀ i, i ≠ 0 → i ≠ LoadReg → i ≠ LoadValueReg → i ≠ BadVAddrReg → registers i = registers' i)
    (load : registers LoadReg = registers' LoadReg)
    (value : registers LoadReg ≠ 0 → registers LoadValueReg = registers' LoadValueReg) :
    registers.settled = registers'.settled := by
  refine settled_ext fun i notZero notLoad notValue notBad => ?_
  rw [settled_other notZero notLoad notValue notBad, settled_other notZero notLoad notValue notBad,
    ← load, same i notZero notLoad notValue notBad]
  split
  · rename_i here
    refine value fun none => notZero ?_
    rw [here, none]
    rfl
  · rfl

/-- Applying the pending load early changes nothing that is observed. -/
theorem settled_delayed : (registers.delayed 0 0).settled = registers.settled := by
  refine settled_ext fun i notZero notLoad notValue notBad => ?_
  rw [settled_other notZero notLoad notValue notBad, delayed_LoadReg,
    if_neg (show ¬ i = (0 : Word).toNat from notZero), delayed_other notZero notLoad notValue,
    settled_other notZero notLoad notValue notBad]

theorem settled_BadVAddr {badVAddr : Word} :
    Registers.settled (Function.update registers BadVAddrReg badVAddr) = registers.settled := by
  refine settled_congr (fun i _ _ _ notBad => Function.update_of_ne notBad _ _) ?_ fun _ => ?_
  · exact Function.update_of_ne (by decide) _ _
  · exact Function.update_of_ne (by decide) _ _

end Settling

/-! ## Instructions that fault -/

/-- The program only computes: it uses registers and no memory, and raises no exception. -/
inductive Quiet {A : Type} : Exec A → Prop where
  | pure (value : A) : Quiet (.pure value)
  | stop {reason : Stop} (other : ∀ which, reason ≠ .exception which) : Quiet (.stop reason)
  | get {i : Nat} {next : Word → Exec A} (rest : ∀ value, Quiet (next value)) :
      Quiet (.request (.get i) next)
  | set {i : Nat} {value : Word} {next : Unit → Exec A} (rest : Quiet (next ())) :
      Quiet (.request (.set i value) next)

/-- The program changes nothing before its last access to the memory, and raises the exception of
an access that is refused. -/
inductive Restarts {A : Type} : Exec A → Prop where
  | quiet {program : Exec A} (quiet : Quiet program) : Restarts program
  | raise {which : ExceptionType} (own : which ≠ .PageFaultException) (badVAddr : Word) :
      Restarts (RaiseException which badVAddr)
  | get {i : Nat} {next : Word → Exec A} (rest : ∀ value, Restarts (next value)) :
      Restarts (.request (.get i) next)
  | read {addr : Word} {size : Nat} {next : Except ExceptionType Word → Exec A} (sized : Sized size)
      (rest : ∀ value, Restarts (next (.ok value)))
      (refused : ∀ which, next (.error which) = RaiseException which addr) :
      Restarts (.request (.read addr size) next)
  | write {addr : Word} {size : Nat} {value : Word} {next : Except ExceptionType Unit → Exec A}
      (sized : Sized size) (rest : Quiet (next (.ok ())))
      (refused : ∀ which, next (.error which) = RaiseException which addr) :
      Restarts (.request (.write addr size value) next)

section Quiet

variable {A B : Type} {i : Nat} {value : Word}

theorem Quiet.bind {program : Exec A} {next : A → Exec B} (first : Quiet program)
    (rest : ∀ value, Quiet (next value)) : Quiet (program >>= next) := by
  induction first with
  | pure value => exact rest value
  | stop other => exact .stop other
  | get _ ih => exact .get ih
  | set _ ih => exact .set ih

/-- What follows a program that may access memory only computes. -/
theorem Restarts.bind {program : Exec A} {next : A → Exec B} (first : Restarts program)
    (rest : ∀ value, Quiet (next value)) : Restarts (program >>= next) := by
  induction first with
  | quiet quiet => exact .quiet (quiet.bind rest)
  | raise own badVAddr => exact .raise own badVAddr
  | get _ ih => exact .get ih
  | read sized _ refused ih => exact .read sized ih fun which => raise_bind (refused which)
  | write sized quiet refused =>
    exact .write sized (quiet.bind rest) fun which => raise_bind (refused which)

theorem quiet_getReg : Quiet (getReg i) := .get .pure

theorem quiet_setReg : Quiet (setReg i value) := .set (.pure _)

theorem quiet_unary {dest source : Nat} {f : Word → Word} : Quiet (unary dest source f) :=
  quiet_getReg.bind fun _ => quiet_setReg

theorem quiet_binary {dest first second : Nat} {f : Word → Word → Word} :
    Quiet (binary dest first second f) :=
  quiet_getReg.bind fun _ => quiet_getReg.bind fun _ => quiet_setReg

theorem quiet_setHiLo {first second : Nat} {f : Word → Word → Word × Word} :
    Quiet (setHiLo first second f) :=
  quiet_getReg.bind fun _ => quiet_getReg.bind fun _ => quiet_setReg.bind fun _ => quiet_setReg

theorem quiet_divide {rs rt : Nat} : Quiet (divide rs rt) := by
  refine quiet_getReg.bind fun b => ?_
  split
  · exact quiet_setReg.bind fun _ => quiet_setReg
  · refine quiet_getReg.bind fun a => ?_
    split
    · exact .stop fun _ impossible => by cases impossible
    · exact quiet_setReg.bind fun _ => quiet_setReg

theorem quiet_branch {instr : Instruction} {pcAfter : Word} {taken : Word → Bool} :
    Quiet (branch instr pcAfter taken) := by
  refine quiet_getReg.bind fun a => ?_
  split
  · exact quiet_getReg.bind fun _ => .pure _
  · exact .pure _

theorem quiet_compare {instr : Instruction} {pcAfter : Word} {taken : Word → Word → Bool} :
    Quiet (compare instr pcAfter taken) := by
  refine quiet_getReg.bind fun a => quiet_getReg.bind fun b => ?_
  split
  · exact quiet_getReg.bind fun _ => .pure _
  · exact .pure _

theorem quiet_merged {rt : Word} : Quiet (merged rt) := by
  refine quiet_getReg.bind fun _ => ?_
  split
  · exact quiet_getReg
  · exact quiet_getReg

theorem quiet_DelayedLoad {nextReg nextValue : Word} : Quiet (DelayedLoad nextReg nextValue) :=
  quiet_getReg.bind fun _ => quiet_getReg.bind fun _ => quiet_setReg.bind fun _ =>
    quiet_setReg.bind fun _ => quiet_setReg.bind fun _ => quiet_setReg

theorem quiet_finish {commit : Commit} : Quiet (finish commit) :=
  quiet_DelayedLoad.bind fun _ => quiet_getReg.bind fun _ => quiet_setReg.bind fun _ =>
    quiet_getReg.bind fun _ => quiet_setReg.bind fun _ => quiet_setReg

theorem restarts_ReadMem {addr : Word} {size : Nat} {next : Word → Exec A} (sized : Sized size)
    (rest : ∀ value, Restarts (next value)) : Restarts (ReadMem addr size >>= next) :=
  .read sized rest fun _ => rfl

theorem restarts_WriteMem {addr : Word} {size : Nat} (sized : Sized size) :
    Restarts (WriteMem addr size value) := .write sized (.pure _) fun _ => rfl

theorem restarts_getReg {next : Word → Exec A} (rest : ∀ value, Restarts (next value)) :
    Restarts (getReg i >>= next) := .get rest

theorem restarts_address {instr : Instruction} {next : Word → Exec A}
    (rest : ∀ tmp, Restarts (next tmp)) : Restarts (address instr >>= next) := .get fun _ => rest _

theorem restarts_load {instr : Instruction} {pcAfter tmp : Word} {size : Nat} {extend : Word → Word}
    (sized : Sized size) : Restarts (load instr pcAfter tmp size extend) :=
  restarts_ReadMem sized fun _ => .quiet (.pure _)

theorem restarts_store {instr : Instruction} {size : Nat} (sized : Sized size) :
    Restarts (store instr size) := .get fun _ => .get fun _ => restarts_WriteMem sized

theorem restarts_assert {condition : Bool} {next : Exec A} (rest : Restarts next) :
    Restarts (ASSERT condition >>= fun _ => next) := by
  cases condition with
  | true => exact rest
  | false => exact .quiet (.stop fun _ impossible => by cases impossible)

end Quiet

/-- Every instruction can be restarted where it faults. -/
theorem restarts_execute (instr : Instruction) (pcAfter : Word) : Restarts (execute instr pcAfter) := by
  unfold execute
  cases instr.opCode with
  | ADDU | AND | NOR | OR | SLLV | SLT | SLTU | SRAV | SRLV | SUBU | XOR =>
    exact .quiet (quiet_binary.bind fun _ => .pure _)
  | ADDIU | ANDI | ORI | SLTI | SLTIU | XORI | SLL | SRA | SRL | MFHI | MFLO | MTHI | MTLO =>
    exact .quiet (quiet_unary.bind fun _ => .pure _)
  | LUI => exact .quiet (quiet_setReg.bind fun _ => .pure _)
  | ADD | SUB =>
    refine restarts_getReg fun a => restarts_getReg fun b => ?_
    dsimp only
    split
    · exact .raise (by decide) _
    · exact .quiet (quiet_setReg.bind fun _ => .pure _)
  | ADDI =>
    refine restarts_getReg fun a => ?_
    dsimp only
    split
    · exact .raise (by decide) _
    · exact .quiet (quiet_setReg.bind fun _ => .pure _)
  | BEQ | BNE => exact .quiet quiet_compare
  | BGEZ | BGTZ | BLEZ | BLTZ => exact .quiet quiet_branch
  | BGEZAL | BLTZAL => exact .quiet (quiet_unary.bind fun _ => quiet_branch)
  | DIV => exact .quiet (quiet_divide.bind fun _ => .pure _)
  | DIVU | MULT | MULTU => exact .quiet (quiet_setHiLo.bind fun _ => .pure _)
  | J => exact .quiet (.pure _)
  | JAL => exact .quiet (quiet_unary.bind fun _ => .pure _)
  | JALR => exact .quiet (quiet_unary.bind fun _ => quiet_getReg.bind fun _ => .pure _)
  | JR => exact .quiet (quiet_getReg.bind fun _ => .pure _)
  | LB | LBU => exact restarts_address fun _ => restarts_load (.inl rfl)
  | LH | LHU =>
    refine restarts_address fun tmp => ?_
    dsimp only
    split
    · exact .raise (by decide) _
    · exact restarts_load (.inr (.inl rfl))
  | LW =>
    refine restarts_address fun tmp => ?_
    dsimp only
    split
    · exact .raise (by decide) _
    · exact restarts_load (.inr (.inr rfl))
  | LWL | LWR =>
    refine restarts_address fun tmp => restarts_assert (restarts_ReadMem (.inr (.inr rfl)) fun _ => ?_)
    exact .quiet (quiet_merged.bind fun _ => .pure _)
  | SB | SH | SW => exact (restarts_store (by simp [Sized])).bind fun _ => .pure _
  | SWL | SWR =>
    refine Restarts.bind ?_ fun _ => .pure _
    refine restarts_address fun tmp => restarts_assert (restarts_ReadMem (.inr (.inr rfl)) fun _ => .get fun _ => ?_)
    exact restarts_WriteMem (.inr (.inr rfl))
  | SYSCALL | RES | UNIMP => exact .raise (by decide) _
  | RFE | SPECIAL | BCOND => exact .quiet (.stop fun _ impossible => by cases impossible)

theorem restarts_OneInstruction : Restarts OneInstruction :=
  .get fun _ => restarts_ReadMem (.inr (.inr rfl)) fun _ => .get fun _ =>
    (restarts_execute _ _).bind fun _ => quiet_finish

section Faults

variable {M A : Type} {system : MemorySystem M} {s after : Cpu M}

theorem Quiet.no_exception {program : Exec A} (quiet : Quiet program) {reason : Stop}
    (stopped : program.run (handle system) s = .stopped reason after) :
    ∀ which, reason ≠ .exception which := by
  induction quiet generalizing s with
  | pure value => cases stopped
  | stop other =>
    cases stopped
    exact other
  | @get i next rest ih =>
    by_cases inside : i < NumTotalRegs
    · rw [run_get inside] at stopped
      exact ih _ stopped
    · simp only [Program.run, handle, if_neg inside] at stopped
      cases stopped
      exact fun _ impossible => by cases impossible
  | @set i value next rest ih =>
    by_cases inside : i < NumTotalRegs
    · rw [run_set inside] at stopped
      exact ih stopped
    · simp only [Program.run, handle, if_neg inside] at stopped
      cases stopped
      exact fun _ impossible => by cases impossible

variable (logical : LogicalMemory system)

/-- The memory faults on an access at `addr`, and is left in state `m'`. -/
def Faults (system : MemorySystem M) (m : M) (addr : Word) (m' : M) : Prop :=
  ∃ size, Sized size ∧ (system.read m addr size = (.raises .PageFaultException, m') ∨
    ∃ value, system.write m addr size value = (.raises .PageFaultException, m'))

theorem Faults.keeps {m m' : M} {addr : Word} (faults : Faults system m addr m') (valid : logical.Valid m) :
    logical.contents m' = logical.contents m ∧ logical.Valid m' := by
  obtain ⟨size, sized, read | ⟨value, write⟩⟩ := faults
  · exact logical.read_fault valid sized read
  · exact logical.write_fault valid sized write

/-- A page fault changes nothing but what `RaiseException` does. -/
theorem Restarts.fault {program : Exec A} (restarts : Restarts program) (valid : logical.Valid s.memory)
    (inside : (s.registers LoadReg).toNat < NumTotalRegs)
    (faulted : program.run (handle system) s = .stopped (.exception .PageFaultException) after) :
    ∃ badVAddr memory,
      after.registers = Registers.delayed (Function.update s.registers BadVAddrReg badVAddr) 0 0 ∧
      logical.Valid memory ∧ logical.contents memory = logical.contents s.memory ∧
      Faults system memory badVAddr after.memory := by
  induction restarts generalizing s with
  | quiet quiet => exact absurd rfl (quiet.no_exception faulted _)
  | raise own badVAddr =>
    rw [run_RaiseException inside] at faulted
    cases faulted
    exact absurd rfl own
  | @get i next rest ih =>
    by_cases there : i < NumTotalRegs
    · rw [run_get there] at faulted
      exact ih _ valid inside faulted
    · simp only [Program.run, handle, if_neg there] at faulted
      cases faulted
  | @read addr size next sized rest refused ih =>
    rw [run_read] at faulted
    rcases result : system.read s.memory addr size with ⟨value | which | -, memory⟩
    · rw [result] at faulted
      obtain ⟨-, same, valid⟩ := logical.read_done valid sized result
      obtain ⟨badVAddr, before, registers, valid, contents, faults⟩ :=
        ih value (s := { s with memory := memory }) valid inside faulted
      exact ⟨badVAddr, before, registers, valid, contents.trans same, faults⟩
    · rw [result] at faulted
      dsimp only at faulted
      rw [refused, run_RaiseException (s := { s with memory := memory }) inside] at faulted
      cases faulted
      exact ⟨addr, s.memory, rfl, valid, rfl, size, sized, .inl result⟩
    · rw [result] at faulted
      cases faulted
  | @write addr size value next sized quiet refused =>
    rw [run_write] at faulted
    rcases result : system.write s.memory addr size value with ⟨_ | which | _, memory⟩
    · rw [result] at faulted
      exact absurd rfl (quiet.no_exception faulted _)
    · rw [result] at faulted
      dsimp only at faulted
      rw [refused, run_RaiseException (s := { s with memory := memory }) inside] at faulted
      cases faulted
      exact ⟨addr, s.memory, rfl, valid, rfl, size, sized, .inr ⟨value, result⟩⟩
    · rw [result] at faulted
      cases faulted

end Faults

/-! ## Instructions that are completed -/

/-- The registers in which a machine with a load pending for `target` may differ from one that
has applied it. -/
def Hidden (target i : Nat) : Prop :=
  i = LoadReg ∨ i = LoadValueReg ∨ i = BadVAddrReg ∨ i = target ∧ target ≠ 0

/-- The machine `s` has a load pending that the machine `o` has applied. -/
structure Mirrors {M : Type} {system : MemorySystem M} (logical : LogicalMemory system) (target : Nat)
    (s : Cpu M) (o : Observation) : Prop where
  valid : logical.Valid s.memory
  contents : o.memory = logical.contents s.memory
  same (i : Nat) : ¬ Hidden target i → s.registers i = o.registers i
  load : (s.registers LoadReg).toNat = target
  value : target ≠ 0 → o.registers target = s.registers LoadValueReg
  clear : o.registers LoadReg = 0 ∧ o.registers LoadValueReg = 0

section Completed

variable {M A : Type} {system : MemorySystem M} {logical : LogicalMemory system} {target i size : Nat}
  {s after : Cpu M} {o : Observation} {value addr : Word}

theorem Mirrors.set (mirrors : Mirrors logical target s o) (seen : ¬ Hidden target i) :
    Mirrors logical target { s with registers := Function.update s.registers i value }
      { o with registers := Function.update o.registers i value } := by
  have notLoad : LoadReg ≠ i := fun same => seen (.inl same.symm)
  have notValue : LoadValueReg ≠ i := fun same => seen (.inr (.inl same.symm))
  refine ⟨mirrors.valid, mirrors.contents, fun j seen => ?_, ?_, fun pending => ?_, ?_, ?_⟩
  · dsimp only
    by_cases here : j = i
    · rw [here, Function.update_self, Function.update_self]
    · rw [Function.update_of_ne here, Function.update_of_ne here]
      exact mirrors.same j seen
  · dsimp only
    rw [Function.update_of_ne notLoad]
    exact mirrors.load
  · have other : target ≠ i := fun same => seen (.inr (.inr (.inr ⟨same.symm, pending⟩)))
    dsimp only
    rw [Function.update_of_ne other, Function.update_of_ne notValue]
    exact mirrors.value pending
  · dsimp only
    rw [Function.update_of_ne notLoad]
    exact mirrors.clear.1
  · dsimp only
    rw [Function.update_of_ne notValue]
    exact mirrors.clear.2

/-- What a read answers is in the contents. -/
theorem Mirrors.read {memory : M} (mirrors : Mirrors logical target s o) (sized : Sized size)
    (answered : system.read s.memory addr size = (.done value, memory)) :
    flat.read o.memory addr size = (.done value, o.memory) ∧
      Mirrors logical target { s with memory := memory } o := by
  obtain ⟨fetched, same, valid⟩ := logical.read_done mirrors.valid sized answered
  rw [← mirrors.contents] at fetched
  constructor
  · show (match fetch o.memory addr.toNat size with
      | some value => (Machine.Outcome.done value, o.memory) | none => (.aborts, o.memory)) = _
    rw [fetched]
  · exact { mirrors with valid := valid, contents := mirrors.contents.trans same.symm }

theorem Mirrors.write {memory : M} (mirrors : Mirrors logical target s o) (sized : Sized size)
    (answered : system.write s.memory addr size value = (.done (), memory)) :
    flat.write o.memory addr size value = (.done (), logical.contents memory) ∧
      Mirrors logical target { s with memory := memory } { o with memory := logical.contents memory } := by
  obtain ⟨stored, valid⟩ := logical.write_done mirrors.valid sized answered
  rw [← mirrors.contents] at stored
  constructor
  · show (match Machine.store o.memory addr.toNat value size with
      | some bytes => (Machine.Outcome.done (), bytes) | none => (.aborts, o.memory)) = _
    rw [stored]
  · exact { mirrors with valid := valid, contents := rfl }

/-- `RaiseException` does not return. -/
theorem raise_not_done {which : ExceptionType} {badVAddr : Word} {result : A} :
    (RaiseException which badVAddr : Exec A).run (handle system) s ≠ .done result after := by
  have split : (RaiseException which badVAddr : Exec A) =
      (setReg BadVAddrReg badVAddr >>= fun _ => DelayedLoad 0 0) >>= fun _ => .stop (.exception which) := rfl
  rw [split, Program.run_bind]
  cases (setReg BadVAddrReg badVAddr >>= fun _ => DelayedLoad 0 0).run (handle system) s with
  | done => exact fun impossible => by cases impossible
  | stopped => exact fun impossible => by cases impossible

/-- A program that keeps away from the pending load returns the same on both machines. -/
theorem Uses.mirrors {print : Footprint} {post : A → Prop} {program : Exec A} {result : A}
    (uses : Uses print post program) (reads : ∀ i, print.reads i → ¬ Hidden target i)
    (writes : ∀ i, print.writes i → ¬ Hidden target i) (mirrors : Mirrors logical target s o)
    (done : program.run (handle system) s = .done result after) :
    post result ∧ ∃ o', program.run (handle flat) o = .done result o' ∧ Mirrors logical target after o' := by
  induction uses generalizing s o with
  | pure holds =>
    cases done
    exact ⟨holds, o, rfl, mirrors⟩
  | raise => exact absurd done raise_not_done
  | stop => cases done
  | @get i next may rest ih =>
    by_cases inside : i < NumTotalRegs
    · rw [run_get inside] at done ⊢
      rw [← mirrors.same i (reads i may)]
      exact ih _ mirrors done
    · simp only [Program.run, handle, if_neg inside] at done
      cases done
  | @set i value next may rest ih =>
    by_cases inside : i < NumTotalRegs
    · rw [run_set inside] at done ⊢
      exact ih (mirrors.set (writes i may)) done
    · simp only [Program.run, handle, if_neg inside] at done
      cases done
  | @read addr size next sized rest refused ih =>
    rw [run_read] at done ⊢
    rcases answered : system.read s.memory addr size with ⟨value | which | _, memory⟩
    · rw [answered] at done
      obtain ⟨expected, mirrors⟩ := mirrors.read sized answered
      rw [expected]
      exact ih value mirrors done
    · rw [answered] at done
      dsimp only at done
      rw [refused] at done
      exact absurd done raise_not_done
    · rw [answered] at done
      cases done
  | @write addr size value next sized rest refused ih =>
    rw [run_write] at done ⊢
    rcases answered : system.write s.memory addr size value with ⟨_ | which | _, memory⟩
    · rw [answered] at done
      obtain ⟨expected, mirrors⟩ := mirrors.write sized answered
      rw [expected]
      exact ih mirrors done
    · rw [answered] at done
      dsimp only at done
      rw [refused] at done
      exact absurd done raise_not_done
    · rw [answered] at done
      cases done

/-- An instruction that may be executed behind a load into `target`: it does not use the
register, unless it merges into it. Nothing is ever loaded into `r0`. -/
def Instruction.Follows (instr : Instruction) (target : Nat) : Prop :=
  target ≠ 0 → target ∉ instr.reads ∧ (target ∈ instr.writes → instr.Merges)

/-- Two commits with the same effect. -/
structure Commit.Same (commit commit' : Commit) : Prop where
  pc : commit.pcAfter = commit'.pcAfter
  load : commit.nextLoadReg = commit'.nextLoadReg
  value : commit.nextLoadReg ≠ 0 → commit.nextLoadValue = commit'.nextLoadValue

/-- A special register is not hidden if it is not one of the load. -/
theorem seen_special (general : target < NumGPRegs) (special : NumGPRegs ≤ i) (below : i < LoadReg) :
    ¬ Hidden target i := by
  have value : LoadReg < LoadValueReg := by decide
  have bad : LoadReg < BadVAddrReg := by decide
  rintro (rfl | rfl | rfl | ⟨rfl, -⟩)
  · exact lt_irrefl _ below
  · exact lt_asymm below value
  · exact lt_asymm below bad
  · exact absurd general (not_lt.mpr special)

/-- A general register is hidden only as the target of the load. -/
theorem seen_general (general : i < NumGPRegs) (other : target ≠ 0 → i ≠ target) : ¬ Hidden target i := by
  rintro (rfl | rfl | rfl | ⟨same, pending⟩)
  · exact absurd general (by decide)
  · exact absurd general (by decide)
  · exact absurd general (by decide)
  · exact other pending same

theorem reads_seen {instr : Instruction} (rs : instr.rs.toNat < NumGPRegs) (rt : instr.rt.toNat < NumGPRegs)
    (follows : instr.Follows target) (operand : i ∈ instr.reads) : ¬ Hidden target i := by
  refine seen_general ?_ fun pending same => (follows pending).1 (same ▸ operand)
  rcases Instruction.mem_reads operand with rfl | rfl
  · exact rs
  · exact rt

/-- A program that returned did so in parts. -/
theorem done_bind {B W : Type} {handler : Handler signature Stop W} {program : Exec A} {next : A → Exec B}
    {world world' : W} {result : B} (done : (program >>= next).run handler world = .done result world') :
    ∃ value mid, program.run handler world = .done value mid ∧
      (next value).run handler mid = .done result world' := by
  rw [Program.run_bind] at done
  cases first : program.run handler world with
  | done value mid =>
    rw [first] at done
    exact ⟨value, mid, rfl, done⟩
  | stopped reason mid =>
    rw [first] at done
    cases done

/-- What `merged` returns. -/
def Registers.merge (registers : Registers) (rt : Word) : Word :=
  if registers LoadReg = rt then registers LoadValueReg else registers rt.toNat

theorem run_merged {rt : Word} (inside : rt.toNat < NumTotalRegs) :
    (merged rt).run (handle system) s = .done (s.registers.merge rt) s := by
  refine (run_get (by decide)).trans ?_
  unfold Registers.merge
  show (if s.registers LoadReg = rt then getReg LoadValueReg else getReg rt.toNat).run (handle system) s = _
  split
  · exact run_get (by decide)
  · exact run_get inside

/-- The value of the pending load is found wherever it is. -/
theorem Mirrors.merge {rt : Word} (mirrors : Mirrors logical target s o) (general : rt.toNat < NumGPRegs)
    (nonzero : rt ≠ 0) : s.registers.merge rt = o.registers.merge rt := by
  unfold Registers.merge
  rw [if_neg (show ¬ o.registers LoadReg = rt by rw [mirrors.clear.1]; exact nonzero.symm)]
  split
  · rename_i same
    have here : rt.toNat = target := by rw [← same, mirrors.load]
    rw [here]
    refine (mirrors.value fun zero => nonzero (BitVec.eq_of_toNat_eq ?_)).symm
    rw [here, zero]
    rfl
  · rename_i other
    refine mirrors.same _ (seen_general general fun _ same => other (BitVec.eq_of_toNat_eq ?_))
    rw [mirrors.load, same]

theorem mirrors_loadPartial {instr : Instruction} {pcAfter : Word} {merge : Word → Word → Word → Word}
    {commit : Commit} (rs : ¬ Hidden target instr.rs.toNat) (rt : instr.rt.toNat < NumGPRegs)
    (mirrors : Mirrors logical target s o)
    (done : (loadPartial instr pcAfter merge).run (handle system) s = .done commit after) :
    ∃ commit' o', (loadPartial instr pcAfter merge).run (handle flat) o = .done commit' o' ∧
      Mirrors logical target after o' ∧ commit.Same commit' ∧ commit.nextLoadReg = instr.rt := by
  let print : Footprint := ⟨fun i => ¬ Hidden target i, fun _ => False, fun _ => True⟩
  have reads : ∀ i, print.reads i → ¬ Hidden target i := fun _ => id
  have writes : ∀ i, print.writes i → ¬ Hidden target i := fun _ impossible => impossible.elim
  have inside : instr.rt.toNat < NumTotalRegs := rt.trans_le (by decide)
  obtain ⟨tmp, s₁, done₁, done⟩ := done_bind done
  have first : Within print (address instr) := within_address rs
  obtain ⟨-, o₁, same₁, mirrors₁⟩ := first.mirrors reads writes mirrors done₁
  obtain ⟨_, s₂, done₂, done⟩ := done_bind done
  have second : Within print (ASSERT (decide (tmp &&& 3 = 0))) := within_ASSERT trivial
  obtain ⟨-, o₂, same₂, mirrors₂⟩ := second.mirrors reads writes mirrors₁ done₂
  obtain ⟨word, s₃, done₃, done⟩ := done_bind done
  have third : Within print (ReadMem tmp 4) := within_ReadMem (.inr (.inr rfl))
  obtain ⟨-, o₃, same₃, mirrors₃⟩ := third.mirrors reads writes mirrors₂ done₃
  rw [Program.run_bind, run_merged inside] at done
  cases done
  refine ⟨⟨pcAfter, instr.rt, merge tmp (o₃.registers.merge instr.rt) word⟩, o₃, ?_, mirrors₃,
    ⟨rfl, rfl, ?_⟩, rfl⟩
  · unfold loadPartial
    rw [Program.run_bind, same₁]
    dsimp only
    rw [Program.run_bind, same₂]
    dsimp only
    rw [Program.run_bind, same₃]
    dsimp only
    rw [Program.run_bind, run_merged inside]
    rfl
  · intro nonzero
    exact congrArg (fun n => merge tmp n word) (mirrors₃.merge rt nonzero)

/-- Both machines commit the same. -/
theorem mirrors_execute {raw pcAfter : Word} {commit : Commit} (general : target < NumGPRegs)
    (follows : (Decode raw).Follows target) (mirrors : Mirrors logical target s o)
    (done : (execute (Decode raw) pcAfter).run (handle system) s = .done commit after) :
    ∃ commit' o', (execute (Decode raw) pcAfter).run (handle flat) o = .done commit' o' ∧
      Mirrors logical target after o' ∧ commit.Same commit' ∧ (Decode raw).Delays commit := by
  have rs : (Decode raw).rs.toNat < NumGPRegs := masked_lt
  have rt : (Decode raw).rt.toNat < NumGPRegs := masked_lt
  by_cases merges : (Decode raw).Merges
  · have base : ¬ Hidden target (Decode raw).rs.toNat := by
      refine reads_seen rs rt follows ?_
      rcases merges with op | op <;> simp [Instruction.reads, op]
    have load : (Decode raw).target = some (Decode raw).rt.toNat := by
      rcases merges with op | op <;> simp [Instruction.target, op]
    unfold execute at done ⊢
    rcases merges with op | op
    · rw [op] at done ⊢
      obtain ⟨commit', o', same, mirrors, commits, own⟩ := mirrors_loadPartial base rt mirrors done
      exact ⟨commit', o', same, mirrors, commits, .inr ⟨load, own⟩⟩
    · rw [op] at done ⊢
      obtain ⟨commit', o', same, mirrors, commits, own⟩ := mirrors_loadPartial base rt mirrors done
      exact ⟨commit', o', same, mirrors, commits, .inr ⟨load, own⟩⟩
  · have special : ∀ {i}, NumGPRegs ≤ i → i < LoadReg → ¬ Hidden target i := seen_special general
    have reads : ∀ i, (Decode raw).footprint.reads i → ¬ Hidden target i := by
      rintro i (operand | rfl | rfl | rfl | ⟨merge, -⟩)
      · exact reads_seen rs rt follows operand
      · exact special (by decide) (by decide)
      · exact special (by decide) (by decide)
      · exact special (by decide) (by decide)
      · exact absurd merge merges
    have writes : ∀ i, (Decode raw).footprint.writes i → ¬ Hidden target i := by
      rintro i (result | rfl | rfl)
      · refine seen_general ?_ fun pending same => merges ((follows pending).2 (same ▸ result))
        rcases Instruction.mem_writes result with rfl | rfl | rfl
        · exact masked_lt
        · exact rt
        · decide
      · exact special (by decide) (by decide)
      · exact special (by decide) (by decide)
    obtain ⟨delays, o', same, mirrors⟩ := (uses_execute _ _).mirrors reads writes mirrors done
    exact ⟨commit, o', same, mirrors, ⟨rfl, rfl, fun _ => rfl⟩, delays⟩

/-- The delayed load makes the registers the same. -/
theorem Mirrors.delayed {commit commit' : Commit} (mirrors : Mirrors logical target s o)
    (same : commit.Same commit') (notValue : i ≠ LoadValueReg) (notBad : i ≠ BadVAddrReg) :
    s.registers.delayed commit.nextLoadReg commit.nextLoadValue i =
      o.registers.delayed commit'.nextLoadReg commit'.nextLoadValue i := by
  by_cases notZero : i = 0
  · rw [notZero, delayed_zero, delayed_zero]
  by_cases notLoad : i = LoadReg
  · rw [notLoad, delayed_LoadReg, delayed_LoadReg]
    exact same.load
  rw [delayed_other notZero notLoad notValue, delayed_other notZero notLoad notValue, mirrors.load,
    mirrors.clear.1, if_neg (show ¬ i = (0 : Word).toNat from notZero)]
  split
  · rename_i here
    rw [here]
    exact (mirrors.value fun zero => notZero (here.trans zero)).symm
  · rename_i other
    refine mirrors.same i ?_
    rintro (load | value | bad | ⟨here, -⟩)
    · exact notLoad load
    · exact notValue value
    · exact notBad bad
    · exact other here

/-- The registers of both machines settle to the same. -/
theorem Mirrors.finished {commit commit' : Commit} (mirrors : Mirrors logical target s o)
    (same : commit.Same commit') :
    (s.registers.finished commit).settled = (o.registers.finished commit').settled := by
  have each : ∀ {i}, i ≠ LoadValueReg → i ≠ BadVAddrReg →
      s.registers.finished commit i = o.registers.finished commit' i := by
    intro i notValue notBad
    unfold Registers.finished
    rw [mirrors.delayed same (show PCReg ≠ LoadValueReg by decide) (by decide),
      mirrors.delayed same (show NextPCReg ≠ LoadValueReg by decide) (by decide), same.pc]
    simp only [Function.update_apply, mirrors.delayed same notValue notBad]
  have value : ∀ (registers : Registers) (commit : Commit),
      registers.finished commit LoadValueReg = commit.nextLoadValue := by
    intro registers commit
    rw [finished_other (by decide) (by decide) (by decide), delayed_LoadValueReg]
  have load : s.registers.finished commit LoadReg = commit.nextLoadReg := by
    rw [finished_other (by decide) (by decide) (by decide), delayed_LoadReg]
  refine settled_congr (fun i _ _ notValue notBad => each notValue notBad) (each (by decide) (by decide)) ?_
  rw [load, value, value]
  exact same.value

end Completed

/-! ## Runs -/

section Runs

variable {M : Type} {system : MemorySystem M} (logical : LogicalMemory system)

/-- What is observed of a machine. -/
def observe (s : Cpu M) : Observation where
  registers := s.registers.settled
  memory := logical.contents s.memory

/-- What holds of the registers and the memory between instructions. -/
structure Ready (s : Cpu M) : Prop where
  zero : s.registers 0 = 0
  load : (s.registers LoadReg).toNat < NumGPRegs
  valid : logical.Valid s.memory

variable {logical} {s after : Cpu M}

theorem Ready.mirrors (ready : Ready logical s) :
    Mirrors logical (s.registers LoadReg).toNat s (observe logical s) := by
  have clear : s.registers.settled LoadReg = 0 ∧ s.registers.settled LoadValueReg = 0 :=
    ⟨settled_LoadReg, settled_LoadValueReg⟩
  refine ⟨ready.valid, rfl, fun i seen => ?_, rfl, fun pending => ?_, clear⟩
  · show s.registers i = s.registers.settled i
    by_cases notZero : i = 0
    · rw [notZero, ready.zero, settled_zero]
    · have other : ¬ i = (s.registers LoadReg).toNat :=
        fun same => seen (.inr (.inr (.inr ⟨same, same ▸ notZero⟩)))
      rw [settled_other notZero (fun same => seen (.inl same)) (fun same => seen (.inr (.inl same)))
        fun same => seen (.inr (.inr (.inl same))), if_neg other]
  · have general := ready.load
    refine (settled_other pending ?_ ?_ ?_).trans (if_pos rfl)
    · exact fun same => absurd (same ▸ general) (by decide)
    · exact fun same => absurd (same ▸ general) (by decide)
    · exact fun same => absurd (same ▸ general) (by decide)

/-- The program counter is not the target of a load. -/
theorem Ready.pc (ready : Ready logical s) : (observe logical s).registers PCReg = s.registers PCReg :=
  (ready.mirrors.same PCReg (seen_special ready.load (by decide) (by decide))).symm

/-- One instruction: what is observed behind it is what the flat memory makes of what was observed
before it, and a load is pending only for its own target. -/
theorem Ready.completes (ready : Ready logical s)
    (follows : (observe logical s).instruction.Follows (s.registers LoadReg).toNat)
    (done : OneInstruction.run (handle system) s = .done () after) :
    Ready logical after ∧ observe logical after = (observe logical s).next ∧
      ((after.registers LoadReg).toNat = 0 ∨
        (observe logical s).instruction.target = some (after.registers LoadReg).toNat) := by
  have mirrors := ready.mirrors
  have inside : (s.registers LoadReg).toNat < NumTotalRegs := ready.load.trans_le (by decide)
  rw [run_OneInstruction] at done
  rcases fetched : system.read s.memory (s.registers PCReg) 4 with ⟨raw | which | _, memory⟩
  · rw [fetched] at done
    obtain ⟨expected, mirrors⟩ := mirrors.read (.inr (.inr rfl)) fetched
    have instruction : (observe logical s).instruction = Decode raw := by
      obtain ⟨word, -⟩ := logical.read_done ready.valid (.inr (.inr rfl)) fetched
      unfold Observation.instruction
      rw [ready.pc]
      exact congrArg Decode (Option.some.inj word)
    have next : (observe logical s).registers NextPCReg = s.registers NextPCReg :=
      (mirrors.same NextPCReg (seen_special ready.load (by decide) (by decide))).symm
    rw [instruction] at follows ⊢
    dsimp only at done
    rw [run_perform] at done
    obtain ⟨commit, mid, executed, finished⟩ := done_bind done
    obtain ⟨commit', o', executed', mirrors', same, delays⟩ :=
      mirrors_execute ready.load follows mirrors executed
    have inside' : (o'.registers LoadReg).toNat < NumTotalRegs := by
      rw [mirrors'.clear.1]
      decide
    rw [run_finish (by rw [mirrors'.load]; exact inside)] at finished
    cases finished
    have load : mid.registers.finished commit LoadReg = commit.nextLoadReg := by
      rw [finished_other (by decide) (by decide) (by decide), delayed_LoadReg]
    refine ⟨⟨?_, ?_, mirrors'.valid⟩, ?_, ?_⟩
    · show mid.registers.finished commit 0 = 0
      rw [finished_other (by decide) (by decide) (by decide), delayed_zero]
    · show (mid.registers.finished commit LoadReg).toNat < NumGPRegs
      rw [load]
      rcases delays with none | ⟨-, own⟩
      · rw [none]
        decide
      · rw [own]
        exact masked_lt
    · unfold Observation.next
      rw [run_OneInstruction, ready.pc, expected]
      dsimp only
      rw [run_perform]
      dsimp only
      rw [next, Program.run_bind, executed']
      dsimp only
      rw [run_finish inside']
      unfold observe
      dsimp only
      rw [mirrors'.finished same, mirrors'.contents]
    · show (mid.registers.finished commit LoadReg).toNat = 0 ∨ _ = some (mid.registers.finished commit LoadReg).toNat
      rw [load]
      rcases delays with none | ⟨own, register⟩
      · rw [none]
        exact .inl rfl
      · rw [register]
        exact .inr own
  · rw [fetched] at done
    exact absurd done raise_not_done
  · rw [fetched] at done
    cases done

/-- An interrupt applies the pending load. -/
theorem Ready.interrupt (ready : Ready logical s)
    (fired : (DelayedLoad 0 0).run (handle system) s = .done () after) :
    Ready logical after ∧ observe logical after = observe logical s ∧ after.registers LoadReg = 0 := by
  have run : (DelayedLoad 0 0 >>= Program.pure).run (handle system) s = _ :=
    run_DelayedLoad (ready.load.trans_le (by decide))
  cases run.symm.trans fired
  have load : s.registers.delayed 0 0 LoadReg = 0 := delayed_LoadReg ..
  have zero : s.registers.delayed 0 0 0 = 0 := delayed_zero ..
  refine ⟨⟨zero, ?_, ready.valid⟩, ?_, load⟩
  · show (s.registers.delayed 0 0 LoadReg).toNat < NumGPRegs
    rw [delayed_LoadReg]
    decide
  · unfold observe
    dsimp only
    rw [settled_delayed]

/-- A page fault that is serviced applies the pending load, too. -/
theorem Ready.fault {memory : M} (ready : Ready logical s)
    (faulted : OneInstruction.run (handle system) s = .stopped (.exception .PageFaultException) after)
    (valid : logical.Valid memory)
    (serviced : logical.contents memory = logical.contents after.memory) :
    Ready logical { after with memory := memory } ∧
      observe logical { after with memory := memory } = observe logical s ∧ after.registers LoadReg = 0 := by
  obtain ⟨badVAddr, before, registers, sound, contents, faults⟩ :=
    restarts_OneInstruction.fault logical ready.valid (ready.load.trans_le (by decide)) faulted
  have kept := (faults.keeps logical sound).1.trans contents
  refine ⟨⟨?_, ?_, valid⟩, ?_, ?_⟩
  · show after.registers 0 = 0
    rw [registers, delayed_zero]
  · show (after.registers LoadReg).toNat < NumGPRegs
    rw [registers, delayed_LoadReg]
    decide
  · unfold observe
    dsimp only
    rw [registers, settled_delayed, settled_BadVAddr, serviced, kept]
  · rw [registers, delayed_LoadReg]

variable (logical)

/-- A run of instructions with what is observed behind each one that is completed. Between two
instructions an interrupt may fire; an instruction may fault, and is executed again once the fault
is serviced, which leaves the logical memory contents as they are. -/
inductive Run : Cpu M → List Observation → Prop where
  | stop (s : Cpu M) : Run s []
  | interrupt {s after : Cpu M} {trace : List Observation}
      (fired : (DelayedLoad 0 0).run (handle system) s = .done () after) (rest : Run after trace) : Run s trace
  | fault {s after : Cpu M} {memory : M} {trace : List Observation}
      (faulted : OneInstruction.run (handle system) s = .stopped (.exception .PageFaultException) after)
      (valid : logical.Valid memory) (serviced : logical.contents memory = logical.contents after.memory)
      (rest : Run { after with memory := memory } trace) : Run s trace
  | completes {s after : Cpu M} {trace : List Observation}
      (done : OneInstruction.run (handle system) s = .done () after) (rest : Run after trace) :
      Run s (observe logical after :: trace)

variable {logical}

/-- No instruction of a trace uses the target of the load before it. The first one comes behind a
load into `target`. -/
def WellScheduled : Nat → Observation → List Observation → Prop
  | _, _, [] => True
  | target, o, o' :: rest =>
    o.instruction.Follows target ∧ WellScheduled (o.instruction.target.getD 0) o' rest

/-- What is observed where nothing is interrupted. -/
def undisturbed : Nat → Observation → List Observation
  | 0, _ => []
  | n + 1, o => o.next :: undisturbed n o.next

theorem undisturbed_mono {m n : Nat} (o : Observation) (shorter : m ≤ n) :
    undisturbed m o <+: undisturbed n o := by
  induction m generalizing n o with
  | zero => exact List.nil_prefix
  | succ m ih =>
    cases n with
    | zero => omega
    | succ n => exact List.cons_prefix_cons.mpr ⟨rfl, ih o.next (by omega)⟩

theorem wellScheduled_mono {trace trace' : List Observation} {target : Nat} {o : Observation}
    (scheduled : WellScheduled target o trace') (shorter : trace <+: trace') :
    WellScheduled target o trace := by
  induction trace generalizing trace' target o with
  | nil => trivial
  | cons first rest ih =>
    cases trace' with
    | nil => exact absurd shorter (by simp)
    | cons first' rest' =>
      obtain ⟨rfl, tail⟩ := List.cons_prefix_cons.mp shorter
      exact ⟨scheduled.1, ih scheduled.2 tail⟩

/-- A well-scheduled run observes what it would if nothing was interrupted. -/
theorem Run.undisturbed {trace : List Observation} {target : Nat} (run : Run logical s trace)
    (ready : Ready logical s)
    (pending : (s.registers LoadReg).toNat = 0 ∨ (s.registers LoadReg).toNat = target)
    (scheduled : WellScheduled target (observe logical s) trace ∨
      WellScheduled target (observe logical s) (undisturbed trace.length (observe logical s))) :
    trace = Mips.undisturbed trace.length (observe logical s) := by
  induction run generalizing target with
  | stop => rfl
  | interrupt fired rest ih =>
    obtain ⟨ready', same, none⟩ := ready.interrupt fired
    rw [← same] at scheduled ⊢
    exact ih ready' (.inl (by rw [none]; rfl)) scheduled
  | fault faulted valid serviced rest ih =>
    obtain ⟨ready', same, none⟩ := ready.fault faulted valid serviced
    rw [← same] at scheduled ⊢
    refine ih ready' (.inl ?_) scheduled
    show (BitVec.toNat _) = 0
    rw [none]
    rfl
  | @completes s after trace done rest ih =>
    have follows : (observe logical s).instruction.Follows target :=
      scheduled.elim (fun own => own.1) fun other => other.1
    have here : (observe logical s).instruction.Follows (s.registers LoadReg).toNat := by
      rcases pending with zero | own
      · exact fun nonzero => absurd zero nonzero
      · rw [own]
        exact follows
    obtain ⟨ready', same, load⟩ := ready.completes here done
    have later : (after.registers LoadReg).toNat = 0 ∨
        (after.registers LoadReg).toNat = (observe logical s).instruction.target.getD 0 :=
      load.imp id fun own => by rw [own]; rfl
    have rest := ih ready' later (scheduled.imp (fun own => own.2) fun other => by
      rw [same]
      exact other.2)
    rw [List.length_cons, Mips.undisturbed, ← same]
    exact congrArg _ rest

/-- Two runs from the same registers and the same logical memory contents: if the longer one is
well-scheduled, the other one observes the same, wherever either is interrupted and whichever
accesses fault first. -/
theorem interrupts_and_faults_invisible {s r : Cpu M} {trace trace' : List Observation}
    (ready : Ready logical s) (ready' : Ready logical r) (registers : r.registers = s.registers)
    (contents : logical.contents r.memory = logical.contents s.memory) (run : Run logical s trace)
    (run' : Run logical r trace')
    (scheduled : WellScheduled (s.registers LoadReg).toNat (observe logical s) trace)
    (shorter : trace'.length ≤ trace.length) : trace' <+: trace := by
  have same : observe logical r = observe logical s := by
    unfold observe
    rw [registers, contents]
  have first := run.undisturbed ready (.inr rfl) (.inl scheduled)
  have early := undisturbed_mono (observe logical s) shorter
  rw [first] at scheduled
  have second := run'.undisturbed ready' (.inr (by rw [registers]))
    (.inr (by rw [same]; exact wellScheduled_mono scheduled early))
  rw [second, first, same]
  exact early

end Runs

end Nachos.Mips
