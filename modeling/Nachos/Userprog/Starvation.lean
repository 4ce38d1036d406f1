import Nachos.Userprog.Execution

/-! When there are no frames left, `ExceptionHandler` takes frame 0 for every page. An
instruction whose data is on another page than itself needs two frames; with only frame 0
for both, each of its pages drives out the other, and it is never completed. -/
namespace Nachos.Paging
open Effects Machine Mips

/-! ## The accesses of an instruction -/

section Accesses
variable {A : Type} {length i size : Nat} {addr value pcAfter tmp : Word} {o : Cpu Memory} {instr : Instruction}
  {access : Access}

/-- All accesses of the program are at an address. -/
def AccessesAt (length : Nat) (addr : Word) (program : Exec A) (o : Cpu Memory) : Prop :=
  ∀ access ∈ accesses length program o, access.addr = addr

theorem accessesAt_quiet {program : Exec A} (quiet : Mips.Quiet program) : AccessesAt length addr program o := by
  intro access member
  rw [accesses_quiet quiet] at member
  cases member

theorem accessesAt_raise {which : ExceptionType} {badVAddr : Word} :
    AccessesAt length addr (RaiseException which badVAddr : Exec A) o := by
  intro access member
  rw [accesses_raise] at member
  cases member

theorem accessesAt_get {next : Word → Exec A} (rest : AccessesAt length addr (next (o.registers i)) o) :
    AccessesAt length addr (getReg i >>= next) o := by
  intro access member
  change access ∈ (if i < NumTotalRegs then accesses length (next (o.registers i)) o else []) at member
  split at member
  · exact rest access member
  · cases member

theorem accessesAt_bind {B : Type} {program : Exec A} {next : A → Exec B} (quiet : ∀ value, Mips.Quiet (next value))
    (first : AccessesAt length addr program o) : AccessesAt length addr (program >>= next) o := by
  intro access member
  rw [accesses_bind fun value => accesses_quiet (quiet value)] at member
  exact first access member

theorem accessesAt_read {next : Word → Exec A}
    (rest : ∀ value bytes, AccessesAt length addr (next value) { o with memory := bytes }) :
    AccessesAt length addr (Mips.ReadMem addr size >>= next) o := by
  intro access member
  change access ∈ .read addr size ::
    afterAnswer (fun value bytes => accesses length (next value) { o with memory := bytes })
    ((flatSystem length).read o.memory addr size) at member
  rcases List.mem_cons.mp member with rfl | later
  · rfl
  · generalize (flatSystem length).read o.memory addr size = result at later
    obtain ⟨value | which | _, bytes⟩ := result
    · exact rest value bytes access later
    · cases later
    · cases later

theorem accessesAt_write : AccessesAt length addr (Mips.WriteMem addr size value) o := by
  intro access member
  change access ∈ .write addr size value :: afterAnswer (fun _ _ => [])
    ((flatSystem length).write o.memory addr size value) at member
  rcases List.mem_cons.mp member with rfl | later
  · rfl
  · generalize (flatSystem length).write o.memory addr size value = result at later
    obtain ⟨_ | which | _, bytes⟩ := result <;> cases later

theorem accessesAt_assert {condition : Bool} {next : Exec A}
    (rest : condition = true → AccessesAt length addr next o) :
    AccessesAt length addr (Mips.ASSERT condition >>= fun _ => next) o := by
  cases condition with
  | true => exact rest rfl
  | false => exact accessesAt_quiet (.stop fun _ impossible => by cases impossible)

theorem masked_word (aligned : tmp &&& 3 = 0) : tmp &&& ~~~3 = tmp := by
  ext i bound
  have bit : (tmp &&& 3)[i] = (0 : BitVec 32)[i] := by rw [aligned]
  rw [BitVec.getElem_and] at bit
  rw [BitVec.getElem_and, BitVec.getElem_not]
  simp only [BitVec.ofNat_eq_ofNat, BitVec.getElem_zero] at bit ⊢
  cases here : tmp[i] with
  | false => rfl
  | true =>
    rw [here, Bool.true_and] at bit
    rw [bit]
    rfl

/-- An instruction accesses memory at one address, whatever it does there. -/
theorem accessesAt_execute (instr : Instruction) (pcAfter : Word) (o : Cpu Memory) :
    AccessesAt length (o.registers instr.rs.toNat + instr.extra) (execute instr pcAfter) o := by
  unfold execute
  cases instr.opCode with
  | ADDU | AND | NOR | OR | SLLV | SLT | SLTU | SRAV | SRLV | SUBU | XOR =>
    exact accessesAt_quiet (quiet_binary.bind fun _ => .pure _)
  | ADDIU | ANDI | ORI | SLTI | SLTIU | XORI | SLL | SRA | SRL | MFHI | MFLO | MTHI | MTLO =>
    exact accessesAt_quiet (quiet_unary.bind fun _ => .pure _)
  | LUI => exact accessesAt_quiet (quiet_setReg.bind fun _ => .pure _)
  | ADD | SUB =>
    refine accessesAt_get (accessesAt_get ?_)
    dsimp only
    split
    · exact accessesAt_raise
    · exact accessesAt_quiet (quiet_setReg.bind fun _ => .pure _)
  | ADDI =>
    refine accessesAt_get ?_
    dsimp only
    split
    · exact accessesAt_raise
    · exact accessesAt_quiet (quiet_setReg.bind fun _ => .pure _)
  | BEQ | BNE => exact accessesAt_quiet quiet_compare
  | BGEZ | BGTZ | BLEZ | BLTZ => exact accessesAt_quiet quiet_branch
  | BGEZAL | BLTZAL => exact accessesAt_quiet (quiet_unary.bind fun _ => quiet_branch)
  | DIV => exact accessesAt_quiet (quiet_divide.bind fun _ => .pure _)
  | DIVU | MULT | MULTU => exact accessesAt_quiet (quiet_setHiLo.bind fun _ => .pure _)
  | J => exact accessesAt_quiet (.pure _)
  | JAL => exact accessesAt_quiet (quiet_unary.bind fun _ => .pure _)
  | JALR => exact accessesAt_quiet (quiet_unary.bind fun _ => quiet_getReg.bind fun _ => .pure _)
  | JR => exact accessesAt_quiet (quiet_getReg.bind fun _ => .pure _)
  | SYSCALL | RES | UNIMP => exact accessesAt_raise
  | RFE | SPECIAL | BCOND => exact accessesAt_quiet (.stop fun _ impossible => by cases impossible)
  | LB | LBU => exact accessesAt_get (accessesAt_read fun _ _ => accessesAt_quiet (.pure _))
  | LH | LHU =>
    refine accessesAt_get ?_
    dsimp only
    split
    · exact accessesAt_raise
    · exact accessesAt_read fun _ _ => accessesAt_quiet (.pure _)
  | LW =>
    refine accessesAt_get ?_
    dsimp only
    split
    · exact accessesAt_raise
    · exact accessesAt_read fun _ _ => accessesAt_quiet (.pure _)
  | LWL | LWR =>
    refine accessesAt_get (accessesAt_assert fun _ => accessesAt_read fun _ _ => accessesAt_quiet ?_)
    exact quiet_merged.bind fun _ => .pure _
  | SB | SH | SW =>
    refine accessesAt_bind (fun _ => .pure _) (accessesAt_get (accessesAt_get accessesAt_write))
  | SWL | SWR =>
    refine accessesAt_bind (fun _ => .pure _) (accessesAt_get (accessesAt_assert fun aligned => ?_))
    rw [masked_word (of_decide_eq_true aligned)]
    exact accessesAt_read fun _ _ => accessesAt_get accessesAt_write

/-- The address of the data of the next instruction. -/
def dataAddr (o : Cpu Memory) : Word :=
  o.registers (Observation.instruction o).rs.toNat + (Observation.instruction o).extra

/-- The fetch comes first, and everything else is at the address of the data. -/
theorem accesses_OneInstruction (o : Cpu Memory) : ∃ data,
    accesses length OneInstruction o = .read (o.registers PCReg) 4 :: data ∧
      ∀ access ∈ data, access.addr = dataAddr o := by
  have split : accesses length OneInstruction o = accesses length fetchExecute o := by
    rw [OneInstruction_eq]
    exact accesses_bind (fun commit => accesses_quiet quiet_finish) _ o
  refine ⟨_, split.trans rfl, fun access member => ?_⟩
  generalize fetched : (flatSystem length).read o.memory (o.registers PCReg) 4 = result at member
  obtain ⟨raw | which | _, bytes⟩ := result
  · obtain ⟨word, rfl⟩ := flatSystem_read_done fetched
    have instruction : Observation.instruction o = Decode raw := congrArg Decode (Option.some.inj word)
    have rest : AccessesAt length (o.registers (Decode raw).rs.toNat + (Decode raw).extra)
        (getReg NextPCReg >>= fun next => execute (Decode raw) (next + 4)) o :=
      accessesAt_get (accessesAt_execute (Decode raw) _ o)
    unfold dataAddr
    rw [instruction]
    exact rest access member
  · cases member
  · cases member

end Accesses

/-! ## Two pages and one frame -/

/-- Every frame but frame 0 is taken, and has neither of the two pages. -/
structure Crowded (m : Paged) (first second : Nat) : Prop where
  taken (i : Fin NumPhysPages) : i ≠ 0 → m.bitmap i = true
  elsewhere (i : Fin NumPhysPages) : i ≠ 0 → (m.space.pageTable i).virtualPage.toNat ≠ first ∧
    (m.space.pageTable i).virtualPage.toNat ≠ second

/-- The machine is about to execute an instruction, no load is pending, and the instruction
accesses data on another page than its own. -/
structure Split (s : Cpu Paged) : Prop where
  ready : Ready keptMemory s
  load : s.registers LoadReg = 0
  value : s.registers LoadValueReg = 0
  fetch : ¬ (Access.read (s.registers PCReg) 4).Illegal (s.memory.space.numPages.toNat * 128)
  data : ∃ access ∈ accesses (s.memory.space.numPages.toNat * 128) OneInstruction (seen s),
    ¬ access.Illegal (s.memory.space.numPages.toNat * 128) ∧
      access.addr.toNat / 128 ≠ (s.registers PCReg).toNat / 128

/-- The pages of the instruction and of its data. -/
def codePage (s : Cpu Paged) : Nat := (s.registers PCReg).toNat / 128

def dataPage (s : Cpu Paged) : Nat := (dataAddr (seen s)).toNat / 128

section Starving
variable {s after : Cpu Paged} {access : Access}

theorem delayed_idle {registers : Registers} (zero : registers 0 = 0) (load : registers LoadReg = 0)
    (value : registers LoadValueReg = 0) : registers.delayed 0 0 = registers := by
  funext i
  by_cases notZero : i = 0
  · rw [notZero, delayed_zero, zero]
  by_cases notLoad : i = LoadReg
  · rw [notLoad, delayed_LoadReg, load]
  by_cases notValue : i = LoadValueReg
  · rw [notValue, delayed_LoadValueReg, value]
  rw [delayed_other notZero notLoad notValue, load]
  exact if_neg notZero

/-- The accesses are on one of the two pages. -/
theorem page_of_access {length : Nat} (member : access ∈ accesses length OneInstruction (seen s)) :
    access.addr.toNat / 128 = codePage s ∨ access.addr.toNat / 128 = dataPage s := by
  obtain ⟨data, log, at_⟩ := @accesses_OneInstruction length (seen s)
  rw [log] at member
  rcases List.mem_cons.mp member with rfl | later
  · refine .inl ?_
    show ((seen s).registers PCReg).toNat / 128 = _
    rw [seen_other (by decide)]
    rfl
  · rw [at_ access later]
    exact .inr rfl

namespace Split

theorem tick (split : Split s) (due : Bool) : tick due s = s := by
  cases due with
  | false => rfl
  | true =>
    have fired : (DelayedLoad 0 0 >>= Program.pure).run (handle pagedSystem) s =
        .done () { s with registers := s.registers.delayed 0 0 } :=
      run_DelayedLoad (split.ready.load.trans_le (by decide))
    have fired : (DelayedLoad 0 0).run (handle pagedSystem) s = _ := fired
    unfold Paging.tick
    rw [if_pos rfl, fired]
    dsimp only
    rw [delayed_idle split.ready.zero split.load split.value]

/-- Both pages are needed. -/
theorem needs (split : Split s)
    (there : ∀ access ∈ accesses (s.memory.space.numPages.toNat * 128) OneInstruction (seen s),
      ¬ access.Illegal (s.memory.space.numPages.toNat * 128) → s.memory.Resident access.addr) :
    (∃ i, (s.memory.space.pageTable i).virtualPage.toNat = codePage s) ∧
      ∃ i, (s.memory.space.pageTable i).virtualPage.toNat = dataPage s := by
  obtain ⟨data, log, -⟩ := @accesses_OneInstruction (s.memory.space.numPages.toNat * 128) (seen s)
  rw [seen_other (by decide)] at log
  refine ⟨there _ ?_ split.fetch, ?_⟩
  · rw [log]
    exact List.mem_cons_self ..
  · obtain ⟨access, member, legal, other⟩ := split.data
    have resident := there access member legal
    rcases page_of_access member with code | data
    · exact absurd code other
    · unfold Paged.Resident at resident
      simp only [PageSize] at resident
      rwa [data] at resident

theorem differ (split : Split s) : codePage s ≠ dataPage s := by
  obtain ⟨access, member, -, other⟩ := split.data
  rcases page_of_access member with code | data
  · exact absurd code other
  · rw [← data]
    exact fun same => other same.symm

/-- Behind a fault the machine is where it was. -/
theorem again (split : Split s) (faulted : Faulted s access after) :
    Split { after with memory := after.memory.PageFault access.addr } ∧
      seen { after with memory := after.memory.PageFault access.addr } = seen s := by
  obtain ⟨kept, contents, numPages⟩ := faulted.brought
  have registers : after.registers = Function.update s.registers BadVAddrReg access.addr := by
    rw [faulted.registers]
    refine delayed_idle ?_ ?_ ?_
    · rw [Function.update_of_ne (by decide)]
      exact split.ready.zero
    · rw [Function.update_of_ne (by decide)]
      exact split.load
    · rw [Function.update_of_ne (by decide)]
      exact split.value
  have same : seen { after with memory := after.memory.PageFault access.addr } = seen s := by
    unfold seen
    dsimp only
    rw [registers, Function.update_idem, contents, faulted.contents]
  have pc : after.registers PCReg = s.registers PCReg := by
    rw [registers, Function.update_of_ne (by decide)]
  obtain ⟨ready, -, load⟩ := faulted.ready split.ready
  refine ⟨⟨ready, load, ?_, ?_, ?_⟩, same⟩
  · show after.registers LoadValueReg = 0
    rw [registers, Function.update_of_ne (by decide)]
    exact split.value
  · show ¬ (Access.read (after.registers PCReg) 4).Illegal _
    rw [pc, numPages]
    exact split.fetch
  · rw [same, numPages]
    show ∃ access ∈ _, _ ∧ _ ≠ (after.registers PCReg).toNat / 128
    rw [pc]
    exact split.data

end Split

/-- A round of faults: the missing page is put into a frame. -/
structure Swaps (s : Cpu Paged) (page : Nat) (pos : Fin NumPhysPages) (s' : Cpu Paged) : Prop where
  split : Split s'
  same : seen s' = seen s
  round : round s = .done false s'
  needed : page = codePage s ∨ page = dataPage s
  missing (i : Fin NumPhysPages) : (s.memory.space.pageTable i).virtualPage.toNat ≠ page
  frame : s.memory.bitmap pos = false ∧ s'.memory.bitmap = Function.update s.memory.bitmap pos true ∨
    pos = 0 ∧ (∀ i, s.memory.bitmap i = true) ∧ s'.memory.bitmap = s.memory.bitmap
  pages (j : Fin NumPhysPages) : (s'.memory.space.pageTable j).virtualPage.toNat =
    if j = pos then page else (s.memory.space.pageTable j).virtualPage.toNat

theorem Split.swaps (split : Split s) (faulted : Faulted s access after) : ∃ page pos s', Swaps s page pos s' := by
  obtain ⟨split', same⟩ := split.again faulted
  obtain ⟨pos, frame, -, pages⟩ := faulted.kept.pageFault faulted.inside
  rw [faulted.frames.bitmap] at frame
  refine ⟨access.addr.toNat / 128, pos, _, split', same, faulted.round, page_of_access faulted.member,
    fun i here => faulted.missing ⟨i, here⟩, frame, fun j => (pages j).trans ?_⟩
  rw [faulted.frames.pages]

theorem Swaps.codePage {page : Nat} {pos : Fin NumPhysPages} {s' : Cpu Paged} (swaps : Swaps s page pos s') :
    codePage s' = codePage s := by
  have pc := congrArg (fun o : Cpu Memory => o.registers PCReg) swaps.same
  rw [seen_other (by decide), seen_other (by decide)] at pc
  unfold Paging.codePage
  rw [pc]

theorem Swaps.dataPage {page : Nat} {pos : Fin NumPhysPages} {s' : Cpu Paged} (swaps : Swaps s page pos s') :
    dataPage s' = dataPage s := by
  unfold Paging.dataPage
  rw [swaps.same]

/-- In a crowd the instruction misses one of its pages, and frame 0 is taken for it. -/
theorem Split.starves (split : Split s) (crowded : Crowded s.memory (codePage s) (dataPage s)) :
    ∃ page s', Swaps s page 0 s' ∧ Crowded s'.memory (codePage s') (dataPage s') := by
  have only : ∀ {i : Fin NumPhysPages}, (s.memory.space.pageTable i).virtualPage.toNat = codePage s ∨
      (s.memory.space.pageTable i).virtualPage.toNat = dataPage s → i = 0 := by
    intro i here
    by_contra other
    obtain ⟨notCode, notData⟩ := crowded.elsewhere i other
    exact here.elim notCode notData
  obtain ⟨access, after, faulted⟩ | ⟨there, -⟩ := round_cases split.ready
  · obtain ⟨page, pos, s', swaps⟩ := split.swaps faulted
    obtain rfl : pos = 0 := by
      rcases swaps.frame with ⟨clear, -⟩ | ⟨zero, -⟩
      · by_contra other
        rw [crowded.taken pos other] at clear
        cases clear
      · exact zero
    refine ⟨page, s', swaps, fun i other => ?_, fun i other => ?_⟩
    · rcases swaps.frame with ⟨-, bitmap⟩ | ⟨-, -, bitmap⟩
      · rw [bitmap, Function.update_of_ne other]
        exact crowded.taken i other
      · rw [bitmap]
        exact crowded.taken i other
    · rw [swaps.codePage, swaps.dataPage, swaps.pages i, if_neg other]
      exact crowded.elsewhere i other
  · -- both pages would be in frame 0
    obtain ⟨⟨i, code⟩, j, data⟩ := split.needs there
    obtain rfl := only (.inl code)
    obtain rfl := only (.inr data)
    exact absurd (code.symm.trans data) split.differ

/-- A round that faults, in a run. -/
theorem Swaps.run {page : Nat} {pos : Fin NumPhysPages} {s' : Cpu Paged} (swaps : Swaps s page pos s') (due : Bool)
    (rest : List Bool) :
    MachineRun (due :: rest) s = { MachineRun rest s' with faults := (MachineRun rest s').faults + 1 } := by
  rw [MachineRun, swaps.round]
  show { MachineRun rest (tick due s') with faults := (MachineRun rest (tick due s')).faults + 1 } = _
  rw [swaps.split.tick]

/-- In a crowd all rounds are faults. -/
theorem Split.all_faults (split : Split s) (crowded : Crowded s.memory (codePage s) (dataPage s)) (ticks : List Bool) :
    (MachineRun ticks s).faults = ticks.length := by
  induction ticks generalizing s with
  | nil => rfl
  | cons due rest ih =>
    obtain ⟨page, s', swaps, crowded'⟩ := split.starves crowded
    rw [swaps.run, ih swaps.split crowded']
    rfl

/-- After a round that is no fault only the other rounds may be faults. -/
theorem Undisturbed.fewer (undisturbed : Undisturbed s) (ready : Ready keptMemory s) (due : Bool)
    (rest : List Bool) : (MachineRun (due :: rest) s).faults ≤ rest.length := by
  rw [MachineRun]
  cases undisturbed with
  | completed after done kept frames round =>
    have ready' := ready_completed ready kept done
    rw [round]
    exact (Nat.le_add_left _ _).trans (MachineRun_goes (ready_tick due ready').1 rest).most
  | stopped reason after o alike flat round =>
    rw [round]
    exact Nat.zero_le _

/-- Three faults in a row take frame 0 for both pages. -/
theorem crowded_of_swaps {v₁ v₂ v₃ : Nat} {pos₁ pos₂ pos₃ : Fin NumPhysPages} {s₁ s₂ s₃ : Cpu Paged}
    (first : Swaps s v₁ pos₁ s₁) (second : Swaps s₁ v₂ pos₂ s₂) (third : Swaps s₂ v₃ pos₃ s₃) :
    Crowded s.memory (codePage s) (dataPage s) := by
  have needed₁ := first.needed
  have needed₂ := second.needed
  have needed₃ := third.needed
  rw [first.codePage, first.dataPage] at needed₂
  rw [second.codePage, second.dataPage, first.codePage, first.dataPage] at needed₃
  have here₁ := first.pages pos₁
  have here₂ := second.pages pos₂
  rw [if_pos rfl] at here₁ here₂
  have differ : v₁ ≠ v₂ := fun same => second.missing pos₁ (here₁.trans same)
  have differ' : v₂ ≠ v₃ := fun same => third.missing pos₂ (here₂.trans same)
  have back : v₁ = v₃ := by omega
  -- the first page has been driven out by the second one
  have driven : pos₁ = pos₂ := by
    by_contra other
    have still := second.pages pos₁
    rw [if_neg other, here₁] at still
    exact third.missing pos₁ (still.trans back)
  subst driven
  have marked : s₁.memory.bitmap pos₁ = true := by
    rcases first.frame with ⟨-, bitmap⟩ | ⟨-, full, bitmap⟩
    · rw [bitmap, Function.update_self]
    · rw [bitmap]
      exact full pos₁
  obtain ⟨rfl, full⟩ : pos₁ = 0 ∧ ∀ i, s₁.memory.bitmap i = true := by
    rcases second.frame with ⟨clear, -⟩ | ⟨zero, full, -⟩
    · rw [marked] at clear
      cases clear
    · exact ⟨zero, full⟩
  refine ⟨fun i other => ?_, fun i other => ?_⟩
  · have after := full i
    rcases first.frame with ⟨-, bitmap⟩ | ⟨-, before, -⟩
    · rwa [bitmap, Function.update_of_ne other] at after
    · exact before i
  · have missing₁ := first.missing i
    have missing₂ := second.missing i
    rw [first.pages i, if_neg other] at missing₂
    exact ⟨by omega, by omega⟩

/-- An instruction whose data is on another page than itself is never completed, however
often it is tried, exactly when every frame but frame 0 is taken and has neither page;
otherwise it comes to an end within three rounds. -/
theorem instruction_starves_iff (split : Split s) :
    ((∀ ticks, (MachineRun ticks s).faults = ticks.length) ↔ Crowded s.memory (codePage s) (dataPage s)) ∧
      (¬ Crowded s.memory (codePage s) (dataPage s) → ∀ ticks : List Bool, ticks.length = 3 →
        (MachineRun ticks s).faults < 3) := by
  have ends : ¬ Crowded s.memory (codePage s) (dataPage s) → ∀ ticks : List Bool, ticks.length = 3 →
      (MachineRun ticks s).faults < 3 := by
    intro free ticks three
    obtain ⟨a, b, c, rfl⟩ := List.length_eq_three.mp three
    obtain ⟨access, after, faulted⟩ | ⟨-, undisturbed⟩ := round_cases split.ready
    · obtain ⟨v₁, pos₁, s₁, first⟩ := split.swaps faulted
      rw [first.run]
      obtain ⟨access, after, faulted⟩ | ⟨-, undisturbed⟩ := round_cases first.split.ready
      · obtain ⟨v₂, pos₂, s₂, second⟩ := first.split.swaps faulted
        rw [second.run]
        obtain ⟨access, after, faulted⟩ | ⟨-, undisturbed⟩ := round_cases second.split.ready
        · obtain ⟨v₃, pos₃, s₃, third⟩ := second.split.swaps faulted
          exact absurd (crowded_of_swaps first second third) free
        · have few := undisturbed.fewer second.split.ready c []
          simp only [List.length_nil] at few
          dsimp only
          omega
      · have few := undisturbed.fewer first.split.ready b [c]
        simp only [List.length_singleton] at few
        dsimp only
        omega
    · have few := undisturbed.fewer split.ready a [b, c]
      simp only [List.length_cons, List.length_nil] at few
      omega
  refine ⟨⟨fun all => ?_, split.all_faults⟩, ends⟩
  by_contra free
  have few := ends free [false, false, false] rfl
  rw [all] at few
  exact absurd few (lt_irrefl _)

end Starving

/-! ## A store to the next page -/

/-- A program of two pages that begins with `SW r0,128(r0)`, when other programs have all
frames. -/
def storing : Paged where
  mainMemory _ := 0
  bitmap _ := true
  space := { pageTable := blankTable, numPages := 2 }
  file := { length := 256, bytes := fun i => [0x80, 0, 0, 0xac].getD i 0 }

theorem storing_started : storing.Started := ⟨rfl, by decide, by decide⟩

def storingCpu : Cpu Paged := { registers := fun _ => 0, memory := storing }

theorem flatSystem_read_of_fetch {bytes : Memory} {addr value : Word} {size length : Nat}
    (legal : ¬ (Access.read addr size).Illegal length) (fetched : fetch bytes addr.toNat size = some value) :
    (flatSystem length).read bytes addr size = (.done value, bytes) := by
  unfold flatSystem flatAccess
  dsimp only
  rw [if_neg legal, fetched]

theorem storing_fetched : (flatSystem 256).read storing.contents 0 4 = (.done 0xac000080, storing.contents) := by
  refine flatSystem_read_of_fetch (by decide) ?_
  have same : fetch storing.contents 0 4 = fetch (fun k => [0x80, 0, 0, 0xac].getD k 0) 0 4 :=
    fetch_congr fun k less => by
      rw [Nat.zero_add]
      exact storing_started.keeps.contents_inside (show k < 256 by omega)
  exact same.trans (by decide)

theorem storing_stores : .write 128 4 0 ∈ accesses 256 OneInstruction (seen storingCpu) := by
  have log : accesses 256 OneInstruction (seen storingCpu) = .read 0 4 :: afterAnswer
      (fun raw bytes => accesses 256 (getReg NextPCReg >>= fun next => execute (Decode raw) (next + 4))
        { seen storingCpu with memory := bytes })
      ((flatSystem 256).read storing.contents 0 4) := by
    rw [OneInstruction_eq]
    exact accesses_bind (fun commit => accesses_quiet quiet_finish) fetchExecute _
  have decoded : Decode 0xac000080 =
      { opCode := .SW, rs := 0, rt := 0, rd := 0, extra := 128, value := 0xac000080 } := by decide
  rw [log, storing_fetched]
  dsimp only [afterAnswer]
  rw [decoded]
  exact List.mem_cons_of_mem _ (List.mem_cons_self ..)

theorem storing_split : Split storingCpu where
  ready := ⟨rfl, by decide, storing_started.keeps.contents, storing_started.writable⟩
  load := rfl
  value := rfl
  fetch := by decide
  data := ⟨_, storing_stores, by decide, by decide⟩

/-- It is never completed. -/
theorem store_starves : ∃ s, Split s ∧ ∀ ticks, (MachineRun ticks s).faults = ticks.length := by
  have blank : ∀ i, (blankTable i).virtualPage.toNat = 2 ^ 32 - 1 := fun _ => rfl
  have data : dataPage storingCpu = 1 := by
    rcases page_of_access storing_stores with code | data
    · exact absurd code (by decide)
    · exact data.symm
  refine ⟨storingCpu, storing_split, (instruction_starves_iff storing_split).1.mpr ⟨fun _ _ => rfl, fun i _ => ?_⟩⟩
  show (blankTable i).virtualPage.toNat ≠ 0 ∧ (blankTable i).virtualPage.toNat ≠ dataPage storingCpu
  rw [blank, data]
  exact ⟨by decide, by decide⟩

end Nachos.Paging
