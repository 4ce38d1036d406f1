import Nachos.Machine.MipsFootprints
import Nachos.Userprog.Tlb

/-! What a user program can do to the simulator by one instruction, on a machine with a page
table or a TLB in any state.

Only two kinds of instruction stop it other than by an exception: one that loads or stores a
word by parts at an address that is not a multiple of four, where an `ASSERT` fails, and the
division of the least `int` by -1, which the host cannot do. -/
namespace Nachos.Mips
open Effects Machine Paging Tlb

/-! ## The memory -/

/-- Physical memory with a page table, and with a TLB if there is one. -/
structure UserMemory where
  mainMemory : Memory
  pageTable : PageTable
  pageTableSize : Word
  tlb : Option TLB

namespace UserMemory

/-- `Machine::Translate`. -/
def Translate (m : UserMemory) (addr : Word) (size : Nat) (writing : Bool) :
    Machine.Outcome Nat × UserMemory :=
  match m.tlb with
  | none =>
    match Machine.Translate m.pageTable m.pageTableSize addr size writing with
    | .done (physAddr, table) => (.done physAddr, { m with pageTable := table })
    | .raises exception => (.raises exception, m)
    | .aborts => (.aborts, m)
  | some tlb =>
    let (outcome, tlb) := Tlb.Translate tlb addr size writing
    (outcome, { m with tlb := some tlb })

/-- `Machine::ReadMem`, up to `RaiseException`. -/
def ReadMem (m : UserMemory) (addr : Word) (size : Nat) : Machine.Outcome Word × UserMemory :=
  match m.Translate addr size false with
  | (.done physicalAddress, m) =>
    match fetch m.mainMemory physicalAddress size with
    | some value => (.done value, m)
    | none => (.aborts, m)
  | (.raises exception, m) => (.raises exception, m)
  | (.aborts, m) => (.aborts, m)

/-- `Machine::WriteMem`, up to `RaiseException`. -/
def WriteMem (m : UserMemory) (addr : Word) (size : Nat) (value : Word) :
    Machine.Outcome Unit × UserMemory :=
  match m.Translate addr size true with
  | (.done physicalAddress, m) =>
    match Machine.store m.mainMemory physicalAddress value size with
    | some mainMemory => (.done (), { m with mainMemory := mainMemory })
    | none => (.aborts, m)
  | (.raises exception, m) => (.raises exception, m)
  | (.aborts, m) => (.aborts, m)

def system : MemorySystem UserMemory := ⟨ReadMem, WriteMem⟩

end UserMemory

section Translation

variable {addr : Word} {size : Nat} {writing : Bool}

/-- A frame that is there holds the whole of an access that is aligned. -/
theorem frame_fits {frame : Nat} (sized : Sized size) (aligned : addr.toNat % size = 0)
    (inside : frame < 64) : frame * 128 + addr.toNat % 128 + size ≤ MemorySize := by
  have offset := legal_offset sized aligned
  show _ ≤ 64 * 128
  omega

/-- The last `ASSERT` of `Translate` does not fail. -/
theorem table_translate_ends (table : PageTable) (pageTableSize : Word) (sized : Sized size) :
    Machine.Translate table pageTableSize addr size writing ≠ .aborts := by
  unfold Machine.Translate
  rw [if_congr (misaligned_iff sized addr) rfl rfl]
  by_cases odd : addr.toNat % size ≠ 0
  · rw [if_pos odd]
    exact fun impossible => by cases impossible
  rw [if_neg odd]
  dsimp only
  split
  · exact fun impossible => by cases impossible
  · split
    · exact fun impossible => by cases impossible
    · split
      · exact fun impossible => by cases impossible
      · split
        · exact fun impossible => by cases impossible
        · rename_i inside
          rw [if_pos (frame_fits sized (not_not.mp odd) (not_le.mp inside))]
          exact fun impossible => by cases impossible

theorem tlb_translate_ends (tlb : TLB) (sized : Sized size) :
    (Tlb.Translate tlb addr size writing).1 ≠ .aborts := by
  unfold Tlb.Translate
  rw [if_congr (misaligned_iff sized addr) rfl rfl]
  by_cases odd : addr.toNat % size ≠ 0
  · rw [if_pos odd]
    exact fun impossible => by cases impossible
  rw [if_neg odd]
  dsimp only
  split
  · exact fun impossible => by cases impossible
  · split
    · exact fun impossible => by cases impossible
    · split
      · exact fun impossible => by cases impossible
      · rename_i inside
        rw [if_pos (frame_fits sized (not_not.mp odd) (not_le.mp inside))]
        exact fun impossible => by cases impossible

end Translation

namespace UserMemory

variable {m : UserMemory} {addr : Word} {size : Nat}

theorem translate_ends (m : UserMemory) (addr : Word) (writing : Bool) (sized : Sized size) :
    (m.Translate addr size writing).1 ≠ .aborts := by
  unfold Translate
  cases m.tlb with
  | none =>
    dsimp only
    have ends := @table_translate_ends addr size writing m.pageTable m.pageTableSize sized
    cases result : Machine.Translate m.pageTable m.pageTableSize addr size writing with
    | done => exact fun impossible => by cases impossible
    | raises => exact fun impossible => by cases impossible
    | aborts => exact absurd result ends
  | some tlb => exact tlb_translate_ends tlb sized

theorem translate_misaligned (m : UserMemory) (writing : Bool) (sized : Sized size)
    (odd : addr.toNat % size ≠ 0) : (m.Translate addr size writing).1 = .raises .AddressErrorException := by
  have refused := (misaligned_iff sized addr).mpr odd
  unfold Translate
  cases m.tlb with
  | none =>
    dsimp only
    rw [translate_illegal sized (.inl odd)]
  | some tlb =>
    dsimp only
    unfold Tlb.Translate
    rw [if_pos refused]

theorem readMem_ends (m : UserMemory) (addr : Word) (sized : Sized size) :
    (m.ReadMem addr size).1 ≠ .aborts := by
  have ends := m.translate_ends addr false sized
  unfold ReadMem
  rcases result : m.Translate addr size false with ⟨physicalAddress | exception | -, after⟩
  · obtain ⟨value, fetched⟩ := exists_fetch sized after.mainMemory physicalAddress
    dsimp only
    rw [fetched]
    exact fun impossible => by cases impossible
  · exact fun impossible => by cases impossible
  · rw [result] at ends
    exact absurd rfl ends

theorem writeMem_ends (m : UserMemory) (addr value : Word) (sized : Sized size) :
    (m.WriteMem addr size value).1 ≠ .aborts := by
  have ends := m.translate_ends addr true sized
  unfold WriteMem
  rcases result : m.Translate addr size true with ⟨physicalAddress | exception | -, after⟩
  · dsimp only
    rw [store_eq sized]
    exact fun impossible => by cases impossible
  · exact fun impossible => by cases impossible
  · rw [result] at ends
    exact absurd rfl ends

theorem readMem_misaligned (m : UserMemory) (sized : Sized size) (odd : addr.toNat % size ≠ 0) :
    (m.ReadMem addr size).1 = .raises .AddressErrorException := by
  have refused := m.translate_misaligned false sized odd
  unfold ReadMem
  rcases result : m.Translate addr size false with ⟨outcome, after⟩
  rw [result] at refused
  cases refused
  rfl

theorem writeMem_misaligned {value : Word} (m : UserMemory) (sized : Sized size)
    (odd : addr.toNat % size ≠ 0) : (m.WriteMem addr size value).1 = .raises .AddressErrorException := by
  have refused := m.translate_misaligned true sized odd
  unfold WriteMem
  rcases result : m.Translate addr size true with ⟨outcome, after⟩
  rw [result] at refused
  cases refused
  rfl

end UserMemory

/-! ## Programs that survive -/

/-- The machine with any memory. -/
abbrev User := Cpu UserMemory

/-- A load is pending for a general register. -/
def Pending (s : User) : Prop := (s.registers LoadReg).toNat < NumGPRegs

/-- The program ends with a value that satisfies `post`, or calls the exception handler. -/
def Survives {A : Type} (program : Exec A) (post : A → Prop) (s : User) : Prop :=
  program.wp (handle UserMemory.system) (fun value after => post value ∧ Pending after)
    (fun reason _ => ∃ which, reason = .exception which) s

variable {A B : Type} {post : A → Prop} {s : User} {i : Nat} {value addr : Word} {size : Nat}

theorem survives_get {next : Word → Exec A} (inside : i < NumTotalRegs)
    (rest : Survives (next (s.registers i)) post s) : Survives (.request (.get i) next) post s := by
  unfold Survives Program.wp
  rw [run_get inside]
  exact rest

theorem survives_set {next : Unit → Exec A} (inside : i < NumTotalRegs)
    (rest : Survives (next ()) post { s with registers := Function.update s.registers i value }) :
    Survives (.request (.set i value) next) post s := by
  unfold Survives Program.wp
  rw [run_set inside]
  exact rest

theorem survives_read {next : Except ExceptionType Word → Exec A} (sized : Sized size)
    (rest : ∀ reply memory, Survives (next reply) post { s with memory := memory }) :
    Survives (.request (.read addr size) next) post s := by
  have ends : (UserMemory.system.read s.memory addr size).1 ≠ .aborts := s.memory.readMem_ends addr sized
  unfold Survives Program.wp
  rw [run_read]
  rcases result : UserMemory.system.read s.memory addr size with ⟨value | exception | -, memory⟩
  · exact rest (.ok value) memory
  · exact rest (.error exception) memory
  · rw [result] at ends
    exact absurd rfl ends

theorem survives_write {next : Except ExceptionType Unit → Exec A} (sized : Sized size)
    (rest : ∀ reply memory, Survives (next reply) post { s with memory := memory }) :
    Survives (.request (.write addr size value) next) post s := by
  have ends : (UserMemory.system.write s.memory addr size value).1 ≠ .aborts :=
    s.memory.writeMem_ends addr value sized
  unfold Survives Program.wp
  rw [run_write]
  rcases result : UserMemory.system.write s.memory addr size value with ⟨_ | exception | -, memory⟩
  · exact rest (.ok ()) memory
  · exact rest (.error exception) memory
  · rw [result] at ends
    exact absurd rfl ends

theorem survives_bind {program : Exec B} {next : B → Exec A} {mid : B → Prop}
    (first : Survives program mid s)
    (rest : ∀ value after, mid value → Pending after → Survives (next value) post after) :
    Survives (program >>= next) post s := by
  unfold Survives
  rw [Program.wp_bind]
  exact Program.wp_mono first (fun value after holds => rest value after holds.1 holds.2)
    fun _ _ raised => raised

/-- What a pending load has in it is a register. -/
theorem Pending.inside (pending : Pending s) : (s.registers LoadReg).toNat < NumTotalRegs :=
  lt_of_lt_of_le pending (by decide)

theorem Pending.update (pending : Pending s) (other : i ≠ LoadReg) :
    Pending { s with registers := Function.update s.registers i value } := by
  unfold Pending
  dsimp only
  rw [Function.update_of_ne other.symm]
  exact pending

theorem survives_raise {which : ExceptionType} {badVAddr : Word} (pending : Pending s) :
    Survives (RaiseException which badVAddr) post s := by
  unfold Survives Program.wp
  rw [run_RaiseException pending.inside]
  exact ⟨which, rfl⟩

/-- The registers there are, without the pending load. -/
def bounded : Footprint where
  reads i := i < NumTotalRegs
  writes i := i < LoadReg
  stops _ := False

theorem Uses.survives {program : Exec A} (uses : Uses bounded post program) (pending : Pending s) :
    Survives program post s := by
  induction uses generalizing s with
  | pure holds => exact ⟨holds, pending⟩
  | raise => exact survives_raise pending
  | stop may => exact absurd may not_false
  | get may _ ih => exact survives_get may (ih _ pending)
  | set may _ ih =>
    exact survives_set (may.trans (by decide)) (ih (pending.update (Nat.ne_of_lt may)))
  | read sized _ refused ih =>
    refine survives_read sized fun reply memory => ?_
    cases reply with
    | ok value => exact ih value pending
    | error which =>
      rw [refused]
      exact survives_raise pending
  | write sized _ refused ih =>
    refine survives_write sized fun reply memory => ?_
    cases reply with
    | ok => exact ih pending
    | error which =>
      rw [refused]
      exact survives_raise pending

/-! ## Instructions that do not -/

namespace Instruction

variable (instr : Instruction) (registers : Registers)

/-- The address of a memory access. -/
def location : Word := registers instr.rs.toNat + instr.extra

/-- A word is accessed by parts where it is not aligned, or the least `int` is divided by -1. -/
def Dangerous : Prop :=
  instr.Partial ∧ instr.location registers &&& 3 ≠ 0 ∨
    instr.opCode = .DIV ∧ registers instr.rs.toNat = 0x80000000 ∧ registers instr.rt.toNat = -1

/-- The address is not a multiple of the size. -/
def Misaligned : Prop :=
  (instr.opCode = .LH ∨ instr.opCode = .LHU ∨ instr.opCode = .SH) ∧ instr.location registers &&& 1 ≠ 0 ∨
    (instr.opCode = .LW ∨ instr.opCode = .SW ∨ instr.Partial) ∧ instr.location registers &&& 3 ≠ 0

/-- The instruction is reserved or not implemented. -/
def Illegal : Prop := instr.opCode = .RES ∨ instr.opCode = .UNIMP

end Instruction

theorem survives_aligned {instr : Instruction} {next : Word → Exec A}
    (inside : instr.rs.toNat < NumTotalRegs) (aligned : instr.location s.registers &&& 3 = 0)
    (rest : Survives (next (instr.location s.registers)) post s) :
    Survives (do let tmp ← address instr; ASSERT (tmp &&& 3 = 0); next tmp) post s := by
  refine survives_get inside ?_
  show Survives (ASSERT (decide (instr.location s.registers &&& 3 = 0)) >>= fun _ => _) post s
  rw [decide_eq_true aligned]
  exact rest

theorem survives_loadPartial {instr : Instruction} {pcAfter : Word} {merge : Word → Word → Word → Word}
    (rs : instr.rs.toNat < NumTotalRegs) (rt : instr.rt.toNat < NumTotalRegs)
    (delays : ∀ value, instr.Delays ⟨pcAfter, instr.rt, value⟩)
    (aligned : instr.location s.registers &&& 3 = 0) (pending : Pending s) :
    Survives (loadPartial instr pcAfter merge) instr.Delays s := by
  have load : LoadReg < NumTotalRegs := by decide
  have pending' : LoadValueReg < NumTotalRegs := by decide
  refine survives_aligned rs aligned (Uses.survives ?_ pending)
  exact (within_ReadMem (.inr (.inr rfl))).bind fun _ =>
    (within_merged load pending' rt).bind fun _ => .pure (delays _)

theorem survives_storePartial {instr : Instruction} {pcAfter : Word} {merge : Word → Word → Word → Word}
    (rs : instr.rs.toNat < NumTotalRegs) (rt : instr.rt.toNat < NumTotalRegs)
    (aligned : instr.location s.registers &&& 3 = 0) (pending : Pending s) :
    Survives (do storePartial instr merge; return .to pcAfter) instr.Delays s := by
  refine survives_bind (?_ : Survives _ (fun _ => True) s) fun _ after _ pending => ⟨.inl rfl, pending⟩
  refine survives_aligned rs aligned (Uses.survives ?_ pending)
  exact (within_ReadMem (.inr (.inr rfl))).bind fun _ => (within_getReg rt).bind fun _ =>
    within_WriteMem (.inr (.inr rfl))

theorem survives_divide {rs rt : Nat} (one : rs < NumTotalRegs) (two : rt < NumTotalRegs)
    (fits : ¬ (s.registers rs = 0x80000000 ∧ s.registers rt = -1)) (pending : Pending s) :
    Survives (divide rs rt) (fun _ => True) s := by
  have lo : LoReg < LoadReg := by decide
  have hi : HiReg < LoadReg := by decide
  have rest : ∀ {a b : Word}, Within bounded (do setReg LoReg a; setReg HiReg b) :=
    (within_setReg lo).bind fun _ => within_setReg hi
  refine survives_get two ?_
  show Survives (if s.registers rt = 0 then _ else _) _ s
  split
  · exact rest.survives pending
  · refine survives_get one ?_
    show Survives (if s.registers rs = 0x80000000 ∧ s.registers rt = -1 then _ else _) _ s
    rw [if_neg fits]
    exact rest.survives pending

/-- Every other instruction survives, and only a load delays a load. -/
theorem survives_execute {pcAfter : Word} (safe : ¬ (Decode value).Dangerous s.registers)
    (pending : Pending s) : Survives (execute (Decode value) pcAfter) (Decode value).Delays s := by
  have general : NumGPRegs ≤ NumTotalRegs := by decide
  have rs : (Decode value).rs.toNat < NumTotalRegs := masked_lt.trans_le general
  have rt : (Decode value).rt.toNat < NumTotalRegs := masked_lt.trans_le general
  by_cases parts : (Decode value).Partial
  · have aligned : (Decode value).location s.registers &&& 3 = 0 := by
      by_contra odd
      exact safe (.inl ⟨parts, odd⟩)
    rcases parts with (op | op) | op | op
    · unfold execute
      rw [op]
      exact survives_loadPartial rs rt (fun _ => .inr ⟨by simp [Instruction.target, op], rfl⟩) aligned pending
    · unfold execute
      rw [op]
      exact survives_loadPartial rs rt (fun _ => .inr ⟨by simp [Instruction.target, op], rfl⟩) aligned pending
    · unfold execute
      rw [op]
      exact survives_storePartial rs rt aligned pending
    · unfold execute
      rw [op]
      exact survives_storePartial rs rt aligned pending
  by_cases div : (Decode value).opCode = .DIV
  · unfold execute
    rw [div]
    exact survives_bind (survives_divide rs rt (fun both => safe (.inr ⟨div, both⟩)) pending)
      fun _ _ _ pending => ⟨.inl rfl, pending⟩
  · refine Uses.survives ((uses_execute _ _).mono (fun _ => decode_reads) (fun _ => decode_writes) ?_) pending
    rintro reason (⟨-, op⟩ | ⟨-, op | unknown⟩)
    · exact div op
    · exact parts op
    · exact unknown (decode_known value)

theorem survives_finish {instr : Instruction} {commit : Commit} (rt : instr.rt.toNat < NumGPRegs)
    (delays : instr.Delays commit) (pending : Pending s) : Survives (finish commit) (fun _ => True) s := by
  unfold Survives Program.wp
  rw [run_finish pending.inside]
  refine ⟨trivial, ?_⟩
  unfold Pending
  dsimp only
  rw [finished_other (by decide) (by decide) (by decide), delayed_LoadReg]
  rcases delays with none | ⟨-, own⟩
  · rw [none]
    decide
  · rw [own]
    exact rt

theorem survives_perform (safe : ¬ (Decode value).Dangerous s.registers) (pending : Pending s) :
    Survives (perform value) (fun _ => True) s := by
  refine survives_get (by decide) ?_
  show Survives (execute (Decode value) (s.registers NextPCReg + 4) >>= finish) _ s
  exact survives_bind (survives_execute safe pending)
    fun commit after delays pending => survives_finish masked_lt delays pending

/-- No instruction that is fetched from `s` is dangerous. -/
def Safe (s : User) : Prop :=
  ∀ value memory, s.memory.ReadMem (s.registers PCReg) 4 = (.done value, memory) →
    ¬ (Decode value).Dangerous s.registers

theorem survives_OneInstruction (safe : Safe s) (pending : Pending s) :
    Survives OneInstruction (fun _ => True) s := by
  have ends : (UserMemory.system.read s.memory (s.registers PCReg) 4).1 ≠ .aborts :=
    s.memory.readMem_ends _ (.inr (.inr rfl))
  unfold Survives Program.wp
  rw [run_OneInstruction]
  rcases fetched : UserMemory.system.read s.memory (s.registers PCReg) 4 with ⟨value | exception | -, memory⟩
  · exact survives_perform (s := { s with memory := memory }) (safe value memory fetched) pending
  · exact survives_raise (A := Unit) (s := { s with memory := memory }) pending
  · rw [fetched] at ends
    exact absurd rfl ends

/-! ## How the others end -/

/-- The run ends with a failed `ASSERT` or a trap of the host. -/
def Crashes {A : Type} (program : Exec A) (s : User) : Prop :=
  ∃ reason after, program.run (handle UserMemory.system) s = .stopped reason after ∧
    (reason = .assertion ∨ reason = .division)

theorem crashes_get {next : Word → Exec A} (inside : i < NumTotalRegs)
    (rest : Crashes (next (s.registers i)) s) : Crashes (.request (.get i) next) s := by
  unfold Crashes
  rw [run_get inside]
  exact rest

theorem crashes_bind {program : Exec A} {next : A → Exec B} (first : Crashes program s) :
    Crashes (program >>= next) s := by
  obtain ⟨reason, after, ended, kind⟩ := first
  refine ⟨reason, after, ?_, kind⟩
  rw [Program.run_bind, ended]

theorem crashes_odd {instr : Instruction} {next : Word → Exec A} (inside : instr.rs.toNat < NumTotalRegs)
    (odd : instr.location s.registers &&& 3 ≠ 0) :
    Crashes (do let tmp ← address instr; ASSERT (tmp &&& 3 = 0); next tmp) s := by
  refine crashes_get inside ?_
  show Crashes (ASSERT (decide (instr.location s.registers &&& 3 = 0)) >>= fun _ => _) s
  rw [decide_eq_false odd]
  exact ⟨.assertion, s, rfl, .inl rfl⟩

theorem crashes_divide {rs rt : Nat} (one : rs < NumTotalRegs) (two : rt < NumTotalRegs)
    (least : s.registers rs = 0x80000000) (minus : s.registers rt = -1) : Crashes (divide rs rt) s := by
  have nonzero : ¬ s.registers rt = 0 := by
    rw [minus]
    decide
  refine crashes_get two ?_
  show Crashes (if s.registers rt = 0 then _ else _) s
  rw [if_neg nonzero]
  refine crashes_get one ?_
  show Crashes (if s.registers rs = 0x80000000 ∧ s.registers rt = -1 then _ else _) s
  rw [if_pos ⟨least, minus⟩]
  exact ⟨.division, s, rfl, .inr rfl⟩

theorem crashes_execute {pcAfter : Word} (dangerous : (Decode value).Dangerous s.registers) :
    Crashes (execute (Decode value) pcAfter) s := by
  have general : NumGPRegs ≤ NumTotalRegs := by decide
  have rs : (Decode value).rs.toNat < NumTotalRegs := masked_lt.trans_le general
  have rt : (Decode value).rt.toNat < NumTotalRegs := masked_lt.trans_le general
  unfold execute
  rcases dangerous with ⟨(op | op) | op | op, odd⟩ | ⟨op, least, minus⟩
  · rw [op]
    exact crashes_odd rs odd
  · rw [op]
    exact crashes_odd rs odd
  · rw [op]
    exact crashes_bind (crashes_odd rs odd)
  · rw [op]
    exact crashes_bind (crashes_odd rs odd)
  · rw [op]
    exact crashes_bind (crashes_divide rs rt least minus)

theorem crashes_OneInstruction {memory : UserMemory}
    (fetched : s.memory.ReadMem (s.registers PCReg) 4 = (.done value, memory))
    (dangerous : (Decode value).Dangerous s.registers) : Crashes OneInstruction s := by
  have crashes : Crashes (perform value) { s with memory := memory } := by
    refine crashes_get (by decide) ?_
    show Crashes (execute (Decode value) (s.registers NextPCReg + 4) >>= finish) _
    exact crashes_bind (crashes_execute dangerous)
  have same : UserMemory.system.read s.memory (s.registers PCReg) 4 = (.done value, memory) := fetched
  unfold Crashes
  rw [run_OneInstruction, same]
  exact crashes

/-- The run ends in `RaiseException`. -/
def Raises {A : Type} (program : Exec A) (s : User) : Prop :=
  ∃ which after, program.run (handle UserMemory.system) s = .stopped (.exception which) after

theorem raises_RaiseException {which : ExceptionType} {badVAddr : Word} (pending : Pending s) :
    Raises (RaiseException which badVAddr : Exec A) s := ⟨which, _, run_RaiseException pending.inside⟩

theorem raises_get {next : Word → Exec A} (inside : i < NumTotalRegs)
    (rest : Raises (next (s.registers i)) s) : Raises (.request (.get i) next) s := by
  unfold Raises
  rw [run_get inside]
  exact rest

theorem raises_bind {program : Exec A} {next : A → Exec B} (first : Raises program s) :
    Raises (program >>= next) s := by
  obtain ⟨which, after, ended⟩ := first
  refine ⟨which, after, ?_⟩
  rw [Program.run_bind, ended]

theorem raises_read {next : Except ExceptionType Word → Exec A} (sized : Sized size)
    (odd : addr.toNat % size ≠ 0)
    (rest : ∀ memory, Raises (next (.error .AddressErrorException)) { s with memory := memory }) :
    Raises (.request (.read addr size) next) s := by
  have refused : (UserMemory.system.read s.memory addr size).1 = .raises .AddressErrorException :=
    s.memory.readMem_misaligned sized odd
  unfold Raises
  rw [run_read]
  rcases result : UserMemory.system.read s.memory addr size with ⟨outcome, memory⟩
  rw [result] at refused
  cases refused
  exact rest memory

theorem raises_write {next : Except ExceptionType Unit → Exec A} (sized : Sized size)
    (odd : addr.toNat % size ≠ 0)
    (rest : ∀ memory, Raises (next (.error .AddressErrorException)) { s with memory := memory }) :
    Raises (.request (.write addr size value) next) s := by
  have refused : (UserMemory.system.write s.memory addr size value).1 = .raises .AddressErrorException :=
    s.memory.writeMem_misaligned sized odd
  unfold Raises
  rw [run_write]
  rcases result : UserMemory.system.write s.memory addr size value with ⟨outcome, memory⟩
  rw [result] at refused
  cases refused
  exact rest memory

theorem raises_store {instr : Instruction} (rs : instr.rs.toNat < NumTotalRegs)
    (rt : instr.rt.toNat < NumTotalRegs) (sized : Sized size)
    (odd : (instr.location s.registers).toNat % size ≠ 0) (pending : Pending s) :
    Raises (store instr size) s := by
  refine raises_get rs (raises_get rt ?_)
  exact raises_write sized odd fun memory => raises_RaiseException (s := { s with memory := memory }) pending

/-- An access that is not aligned raises an exception, unless it is one by parts; so does an
instruction that is not there. -/
theorem raises_execute {pcAfter : Word} (safe : ¬ (Decode value).Dangerous s.registers)
    (pending : Pending s)
    (wrong : (Decode value).Misaligned s.registers ∨ (Decode value).Illegal) :
    Raises (execute (Decode value) pcAfter) s := by
  have general : NumGPRegs ≤ NumTotalRegs := by decide
  have rs : (Decode value).rs.toNat < NumTotalRegs := masked_lt.trans_le general
  have rt : (Decode value).rt.toNat < NumTotalRegs := masked_lt.trans_le general
  unfold execute
  rcases wrong with (⟨op | op | op, odd⟩ | ⟨op | op | parts, odd⟩) | (op | op)
  · rw [op]
    refine raises_get rs ?_
    show Raises (if (Decode value).location s.registers &&& 1 ≠ 0 then _ else _) s
    rw [if_pos odd]
    exact raises_RaiseException pending
  · rw [op]
    refine raises_get rs ?_
    show Raises (if (Decode value).location s.registers &&& 1 ≠ 0 then _ else _) s
    rw [if_pos odd]
    exact raises_RaiseException pending
  · rw [op]
    have wrong := (misaligned_iff (.inr (.inl rfl)) _).mp (.inr ⟨rfl, odd⟩)
    exact raises_bind (raises_store rs rt (.inr (.inl rfl)) wrong pending)
  · rw [op]
    refine raises_get rs ?_
    show Raises (if (Decode value).location s.registers &&& 3 ≠ 0 then _ else _) s
    rw [if_pos odd]
    exact raises_RaiseException pending
  · rw [op]
    have wrong := (misaligned_iff (.inr (.inr rfl)) _).mp (.inl ⟨rfl, odd⟩)
    exact raises_bind (raises_store rs rt (.inr (.inr rfl)) wrong pending)
  · exact absurd (.inl ⟨parts, odd⟩) safe
  · rw [op]
    exact raises_RaiseException pending
  · rw [op]
    exact raises_RaiseException pending

theorem raises_OneInstruction {memory : UserMemory}
    (fetched : s.memory.ReadMem (s.registers PCReg) 4 = (.done value, memory))
    (safe : ¬ (Decode value).Dangerous s.registers) (pending : Pending s)
    (wrong : (Decode value).Misaligned s.registers ∨ (Decode value).Illegal) :
    Raises OneInstruction s := by
  have raises : Raises (perform value) { s with memory := memory } := by
    refine raises_get (by decide) ?_
    show Raises (execute (Decode value) (s.registers NextPCReg + 4) >>= finish) _
    exact raises_bind (raises_execute safe pending wrong)
  have same : UserMemory.system.read s.memory (s.registers PCReg) 4 = (.done value, memory) := fetched
  unfold Raises
  rw [run_OneInstruction, same]
  exact raises

theorem raises_fetch (odd : s.registers PCReg &&& 3 ≠ 0) (pending : Pending s) :
    Raises OneInstruction s := by
  have wrong := (misaligned_iff (.inr (.inr rfl)) _).mp (.inl ⟨rfl, odd⟩)
  refine raises_get (by decide) (raises_read (.inr (.inr rfl)) wrong fun memory => ?_)
  exact raises_RaiseException (s := { s with memory := memory }) pending

/-! ## One instruction -/

/-- `OneInstruction` fails no `ASSERT`, makes the host trap by no division and uses no index
that is not one of a register, and an instruction that is misaligned or illegal raises an
exception. -/
structure Contained (s : User) : Prop where
  ends : ∀ reason after, OneInstruction.run (handle UserMemory.system) s = .stopped reason after →
    ∃ which, reason = .exception which
  fetch : s.registers PCReg &&& 3 ≠ 0 → Raises OneInstruction s
  wrong : ∀ value memory, s.memory.ReadMem (s.registers PCReg) 4 = (.done value, memory) →
    (Decode value).Misaligned s.registers ∨ (Decode value).Illegal → Raises OneInstruction s

/-- The simulator goes on exactly if the instruction is not a dangerous one. -/
theorem one_instruction_contained (s : User) (pending : (s.registers LoadReg).toNat < NumGPRegs) :
    Contained s ↔ Safe s := by
  constructor
  · intro contained value memory fetched dangerous
    obtain ⟨reason, after, ended, kind⟩ := crashes_OneInstruction fetched dangerous
    obtain ⟨which, rfl⟩ := contained.ends reason after ended
    rcases kind with kind | kind <;> cases kind
  · intro safe
    refine ⟨fun reason after ended => ?_, fun odd => raises_fetch odd pending, ?_⟩
    · have survives := survives_OneInstruction safe pending
      unfold Survives Program.wp at survives
      rw [ended] at survives
      exact survives
    · intro value memory fetched wrong
      exact raises_OneInstruction fetched (safe value memory fetched) pending wrong

/-! ## Three words -/

/-- Page `i` is in frame `i`. -/
def identityTable : PageTable := fun i =>
  { virtualPage := BitVec.ofNat 32 i, physicalPage := BitVec.ofNat 32 i, valid := true, readOnly := false
    use := false, dirty := false }

/-- A machine that is about to execute a word, with no load pending. -/
def about (word : Word) (registers : Registers) : User where
  registers := Function.update (Function.update registers PCReg 0) LoadReg 0
  memory :=
    { mainMemory := Memory.setWord (fun _ => 0) 0 word
      pageTable := identityTable, pageTableSize := 64, tlb := none }

theorem about_fetches (word : Word) (registers : Registers) : ∃ memory,
    (about word registers).memory.ReadMem ((about word registers).registers PCReg) 4 =
      (.done word, memory) := by
  have found : identityTable.search 0 = some 0 := by decide
  have translated : Machine.Translate identityTable 64 0 4 false = _ :=
    translate_present (.inr (.inr rfl)) rfl (by decide) found rfl rfl
  have pc : (about word registers).registers PCReg = 0 := rfl
  rw [pc]
  unfold UserMemory.ReadMem UserMemory.Translate about
  dsimp only
  rw [translated]
  exact ⟨_, congrArg (fun w => (Machine.Outcome.done w, _)) (Memory.word_setWord _ 0 word)⟩

theorem about_pending (word : Word) (registers : Registers) :
    ((about word registers).registers LoadReg).toNat < NumGPRegs := by
  have none : (about word registers).registers LoadReg = 0 := rfl
  rw [none]
  decide

theorem not_contained {registers : Registers}
    (dangerous : (Decode value).Dangerous (about value registers).registers) :
    ¬ Contained (about value registers) := by
  intro contained
  obtain ⟨memory, fetched⟩ := about_fetches value registers
  obtain ⟨reason, after, ended, kind⟩ := crashes_OneInstruction fetched dangerous
  obtain ⟨which, rfl⟩ := contained.ends reason after ended
  rcases kind with kind | kind <;> cases kind

/-- `SWL r2,4(r0)` is stored. -/
theorem aligned_partial_store_contained :
    ((about 0xa8020004 fun _ => 0).registers LoadReg).toNat < NumGPRegs ∧
      Contained (about 0xa8020004 fun _ => 0) := by
  refine ⟨about_pending _ _, (one_instruction_contained _ (about_pending _ _)).mpr ?_⟩
  intro value memory fetched dangerous
  obtain ⟨memory', expected⟩ := about_fetches 0xa8020004 fun _ => 0
  obtain ⟨same, -⟩ := Prod.mk.inj (expected.symm.trans fetched)
  cases same
  have op : (Decode 0xa8020004).opCode = .SWL := by decide
  have aligned : (Decode 0xa8020004).location (about 0xa8020004 fun _ => 0).registers &&& 3 = 0 := by decide
  rcases dangerous with ⟨-, odd⟩ | ⟨div, -⟩
  · exact odd aligned
  · rw [op] at div
    cases div

/-- The least `int` in `r1`, -1 in `r2`. -/
def extremes : Registers := fun i => if i = 1 then 0x80000000 else -1

/-- `LWL r2,1(r0)` fails its `ASSERT`, and `DIV r1,r2` of the least `int` by -1 makes the host
trap. -/
theorem odd_load_and_division_crash :
    (((about 0x88020001 fun _ => 0).registers LoadReg).toNat < NumGPRegs ∧
      ¬ Contained (about 0x88020001 fun _ => 0)) ∧
    ((about 0x0022001a extremes).registers LoadReg).toNat < NumGPRegs ∧
      ¬ Contained (about 0x0022001a extremes) := by
  have odd : (Decode 0x88020001).location (about 0x88020001 fun _ => 0).registers &&& 3 ≠ 0 := by decide
  have load : (Decode 0x88020001).Partial := .inl (.inl (by decide))
  have least : (about 0x0022001a extremes).registers (Decode 0x0022001a).rs.toNat = 0x80000000 := by decide
  have minus : (about 0x0022001a extremes).registers (Decode 0x0022001a).rt.toNat = -1 := by decide
  refine ⟨⟨about_pending _ _, not_contained (.inl ⟨load, odd⟩)⟩, about_pending _ _, ?_⟩
  exact not_contained (.inr ⟨by decide, least, minus⟩)

end Nachos.Mips
