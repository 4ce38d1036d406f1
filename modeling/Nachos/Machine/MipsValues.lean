import Nachos.Machine.MipsArithmetic
import Nachos.Machine.MipsDecode
import Nachos.Machine.MipsSafety

/-! What the arithmetic instructions leave in the registers.

`ADD`, `ADDI` and `SUB` raise an exception exactly when the value does not fit. The others are
compared with the manual: `OR` takes the same register twice, and the logical shifts to the right
shift in the sign. -/
namespace Nachos.Mips
open Effects Machine

section Running

variable {M A : Type} {system : MemorySystem M} {s : Cpu M} {memory : M} {raw pcAfter value : Word}
  {i dest first second : Nat} {registers : Registers}

/-- The word at the program counter. -/
def Fetches (system : MemorySystem M) (s : Cpu M) (raw : Word) (memory : M) : Prop :=
  system.read s.memory (s.registers PCReg) 4 = (.done raw, memory)

theorem run_fetched (fetched : Fetches system s raw memory) : OneInstruction.run (handle system) s =
    (execute (Decode raw) (s.registers NextPCReg + 4) >>= finish).run (handle system)
      { s with memory := memory } := by
  unfold Fetches at fetched
  rw [run_OneInstruction, fetched]
  exact run_perform

/-- A register that `finish` does not use. -/
theorem ne_of_small {j : Nat} (small : i < PCReg) (large : PCReg ≤ j) : i ≠ j :=
  (Nat.lt_of_lt_of_le small large).ne

/-- An instruction that sets one register. -/
theorem run_sets (small : dest < PCReg) (inside : (s.registers LoadReg).toNat < NumTotalRegs) :
    ((do setReg dest value; return .to pcAfter : Exec Commit) >>= finish).run (handle system) s =
      .done () ⟨Registers.finished (Function.update s.registers dest value) (.to pcAfter), s.memory⟩ := by
  have kept : Function.update s.registers dest value LoadReg = s.registers LoadReg :=
    Function.update_of_ne (ne_of_small small (by decide)).symm ..
  refine (run_set (small.trans (by decide))).trans (run_finish ?_)
  dsimp only
  rw [kept]
  exact inside

/-- Without a pending load, `finish` leaves the registers an instruction has set. -/
theorem finished_idle (idle : registers LoadReg = 0) (notZero : i ≠ 0) (small : i < PCReg) :
    registers.finished (.to pcAfter) i = registers i := by
  have noTarget : i ≠ (registers LoadReg).toNat := by
    rw [idle]
    exact notZero
  have beyond : ∀ j, PCReg ≤ j → i ≠ j := fun j large => ne_of_small small large
  rw [finished_other (beyond _ (by decide)) (beyond _ (by decide)) (beyond _ (by decide)),
    delayed_other notZero (beyond _ (by decide)) (beyond _ (by decide))]
  exact if_neg noTarget

theorem finished_zero : registers.finished (.to pcAfter) 0 = 0 := by
  rw [finished_other (by decide) (by decide) (by decide), delayed_zero]

end Running

/-! ## Overflow -/

section Overflow

variable {M : Type} {system : MemorySystem M} {s : Cpu M} {memory : M} {pcAfter : Word}
  {dest : Nat} {fields : Fields} {code : OpCode} {place : Encoding}

/-- The value of `ADD`, `ADDI` and `SUB`, before it is cut to a word. -/
def exactValue (code : OpCode) (fields : Fields) (registers : Registers) : Int :=
  let rs := (registers fields.rs.toNat).toInt
  match code with
  | .ADDI => rs + fields.imm.toInt
  | .SUB => rs - (registers fields.rt.toNat).toInt
  | _ => rs + (registers fields.rt.toNat).toInt

/-- The register that `ADD`, `ADDI` and `SUB` set. -/
def destination (code : OpCode) (fields : Fields) : Nat :=
  match code with
  | .ADDI => fields.rt.toNat
  | _ => fields.rd.toNat

/-- `OverflowException` is raised, with the pending load done and nothing else. -/
def Overflows (s : Cpu M) (outcome : Effects.Outcome Stop (Cpu M) Unit) : Prop :=
  ∃ after, outcome = .stopped (.exception .OverflowException) after ∧
    (∀ i < NumGPRegs, after.registers i = s.registers.delayed 0 0 i) ∧
    after.registers PCReg = s.registers PCReg ∧ after.registers NextPCReg = s.registers NextPCReg

/-- The instruction ends, with the value in the register; the pending load comes after it. -/
def Yields (s : Cpu M) (dest : Nat) (value : Int) (outcome : Effects.Outcome Stop (Cpu M) Unit) : Prop :=
  ∃ after, outcome = .done () after ∧
    (dest ≠ 0 → dest ≠ (s.registers LoadReg).toNat → (after.registers dest).toInt = value)

theorem overflows_raised (pending : (s.registers LoadReg).toNat < NumGPRegs) :
    Overflows s ((RaiseException .OverflowException 0 : Exec Unit).run (handle system)
      { s with memory := memory }) := by
  have target : (Function.update s.registers BadVAddrReg 0 LoadReg) = s.registers LoadReg :=
    Function.update_of_ne (by decide) ..
  have counter : ∀ i, i ≠ BadVAddrReg → i ≠ LoadReg → i ≠ LoadValueReg →
      Registers.delayed (Function.update s.registers BadVAddrReg 0) 0 0 i = s.registers.delayed 0 0 i := by
    intro i notBad notLoad notValue
    by_cases zero : i = 0
    · rw [zero, delayed_zero, delayed_zero]
    · rw [delayed_other zero notLoad notValue, delayed_other zero notLoad notValue, target,
        Function.update_of_ne notBad, Function.update_of_ne (by decide)]
  have kept : ∀ i, i ≠ 0 → NumGPRegs ≤ i → i ≠ LoadReg → i ≠ LoadValueReg →
      s.registers.delayed 0 0 i = s.registers i := by
    intro i zero large notLoad notValue
    rw [delayed_other zero notLoad notValue]
    exact if_neg (pending.trans_le large).ne'
  refine ⟨_, run_RaiseException (pending.trans (by decide)), fun i small => ?_, ?_, ?_⟩
  · have beyond : ∀ j, NumGPRegs ≤ j → i ≠ j := fun j large => (small.trans_le large).ne
    exact counter i (beyond _ (by decide)) (beyond _ (by decide)) (beyond _ (by decide))
  · exact (counter PCReg (by decide) (by decide) (by decide)).trans
      (kept PCReg (by decide) (by decide) (by decide) (by decide))
  · exact (counter NextPCReg (by decide) (by decide) (by decide)).trans
      (kept NextPCReg (by decide) (by decide) (by decide) (by decide))

theorem yields_set {value : Word} (small : dest < PCReg)
    (pending : (s.registers LoadReg).toNat < NumGPRegs) :
    Yields s dest value.toInt
      (((do setReg dest value; return .to pcAfter : Exec Commit) >>= finish).run (handle system)
        { s with memory := memory }) := by
  have target : Function.update s.registers dest value LoadReg = s.registers LoadReg :=
    Function.update_of_ne (ne_of_small small (by decide)).symm ..
  refine ⟨_, run_sets small (pending.trans (by decide)), fun notZero notTarget => ?_⟩
  have beyond : ∀ j, PCReg ≤ j → dest ≠ j := fun j large => ne_of_small small large
  dsimp only
  rw [finished_other (beyond _ (by decide)) (beyond _ (by decide)) (beyond _ (by decide)),
    delayed_other notZero (beyond _ (by decide)) (beyond _ (by decide)), target, if_neg notTarget,
    Function.update_self]

/-- What is asked of `ADD`, `ADDI` and `SUB`. -/
def Traps (s : Cpu M) (dest : Nat) (value : Int) (outcome : Effects.Outcome Stop (Cpu M) Unit) : Prop :=
  (¬ Fits value → Overflows s outcome) ∧ (Fits value → Yields s dest value outcome)

theorem traps_checked {wrong : Prop} [Decidable wrong] {word : Word} {value : Int} (small : dest < PCReg)
    (pending : (s.registers LoadReg).toNat < NumGPRegs) (test : wrong ↔ ¬ Fits value)
    (cut : Fits value → word.toInt = value) :
    Traps s dest value (((do
      if wrong then RaiseException .OverflowException 0
      setReg dest word
      return .to pcAfter : Exec Commit) >>= finish).run (handle system) { s with memory := memory }) := by
  constructor
  · intro large
    rw [if_pos (test.mpr large)]
    exact overflows_raised pending
  · intro fits
    rw [if_neg fun raised => test.mp raised fits, ← cut fits]
    exact yields_set small pending

theorem traps_get {i : Nat} {value : Int} {next : Word → Exec Unit} (inside : i < NumTotalRegs)
    (rest : Traps s dest value ((next (s.registers i)).run (handle system) { s with memory := memory })) :
    Traps s dest value ((Program.request (.get i) next : Exec Unit).run (handle system)
      { s with memory := memory }) := by
  rw [run_get inside]
  exact rest

theorem toNat_field (field : BitVec 5) : (field.setWidth 32 : Word).toNat = field.toNat :=
  BitVec.toNat_setWidth_of_le (by decide)

theorem field_small (field : BitVec 5) : field.toNat < NumGPRegs := field.isLt

/-- `ADD`, `ADDI` and `SUB` raise `OverflowException` exactly when the value is none of a word,
and else deliver it. -/
theorem overflow_exactly (code : OpCode) (trapping : code = .ADD ∨ code = .ADDI ∨ code = .SUB)
    (encoded : encoding code = some place) (pending : (s.registers LoadReg).toNat < NumGPRegs)
    (fetched : Fetches system s (assemble place fields) memory) :
    Traps s (destination code fields) (exactValue code fields s.registers)
      (OneInstruction.run (handle system) s) := by
  have rs := field_small fields.rs
  have rt := field_small fields.rt
  have rd := field_small fields.rd
  rw [run_fetched fetched]
  obtain ⟨opCode, carries⟩ := decode_assemble fields (encoding_row encoded)
  unfold execute
  rw [opCode]
  rcases trapping with rfl | rfl | rfl
  · cases encoded
    obtain ⟨first, second, target, -⟩ := carries
    dsimp only
    rw [first, second, target, toNat_field, toNat_field, toNat_field]
    refine traps_get (rs.trans (by decide)) (traps_get (rt.trans (by decide)) ?_)
    exact traps_checked (rd.trans (by decide)) pending (add_overflows _ _) toInt_add_of_fits
  · cases encoded
    obtain ⟨first, target, extra⟩ := carries
    have immediate : (fields.imm.signExtend 32).toInt = fields.imm.toInt :=
      BitVec.toInt_signExtend_of_le (by decide)
    dsimp only
    rw [first, target, extra, toNat_field, toNat_field]
    unfold exactValue
    dsimp only
    rw [← immediate]
    refine traps_get (rs.trans (by decide)) ?_
    exact traps_checked (rt.trans (by decide)) pending (addi_overflows _ _) toInt_add_of_fits
  · cases encoded
    obtain ⟨first, second, target, -⟩ := carries
    dsimp only
    rw [first, second, target, toNat_field, toNat_field, toNat_field]
    refine traps_get (rs.trans (by decide)) (traps_get (rt.trans (by decide)) ?_)
    exact traps_checked (rd.trans (by decide)) pending (sub_overflows _ _) toInt_sub_of_fits

theorem about_fetched (word : Word) (registers : Registers) :
    ∃ memory, Fetches UserMemory.system (about word registers) word memory :=
  about_fetches word registers

/-- `ADDI r2,r1,1` of the largest `int`. -/
theorem largest_overflows :
    Overflows (about (assemble (.immediate 8) ⟨1, 2, 0, 0, 1, 0⟩) fun _ => 0x7fffffff)
      (OneInstruction.run (handle UserMemory.system)
        (about (assemble (.immediate 8) ⟨1, 2, 0, 0, 1, 0⟩) fun _ => 0x7fffffff)) := by
  obtain ⟨memory, fetched⟩ := about_fetched (assemble (.immediate 8) ⟨1, 2, 0, 0, 1, 0⟩) fun _ => 0x7fffffff
  have traps := overflow_exactly .ADDI (.inr (.inl rfl)) rfl (about_pending _ _) fetched
  refine traps.1 ?_
  unfold Fits
  decide

end Overflow

/-! ## The manual -/

section Manual

variable {M : Type} {system : MemorySystem M} {s : Cpu M} {memory : M} {pcAfter value word : Word}
  {dest first second : Nat} {fields : Fields} {code : OpCode} {place : Encoding}
  {sets : List (Nat × Word)} {registers : Registers}

/-- The two halves of a double word. -/
def halves (product : BitVec 64) : List (Nat × Word) :=
  [(HiReg, product.extractLsb' 32 32), (LoReg, product.setWidth 32)]

/-- What MIPS-I makes an operation leave in its destination, or in `Hi` and `Lo`. A division by
zero leaves what it likes there. -/
def manual (code : OpCode) (fields : Fields) (registers : Registers) : Option (List (Nat × Word)) :=
  let rs := registers fields.rs.toNat
  let rt := registers fields.rt.toNat
  let rd := fields.rd.toNat
  let target := fields.rt.toNat
  let signed : Word := fields.imm.signExtend 32
  let unsigned : Word := fields.imm.setWidth 32
  match code with
  | .ADD | .ADDU => some [(rd, rs + rt)]
  | .ADDI | .ADDIU => some [(target, rs + signed)]
  | .SUB | .SUBU => some [(rd, rs - rt)]
  | .AND => some [(rd, rs &&& rt)]
  | .OR => some [(rd, rs ||| rt)]
  | .XOR => some [(rd, rs ^^^ rt)]
  | .NOR => some [(rd, ~~~(rs ||| rt))]
  | .ANDI => some [(target, rs &&& unsigned)]
  | .ORI => some [(target, rs ||| unsigned)]
  | .XORI => some [(target, rs ^^^ unsigned)]
  | .LUI => some [(target, unsigned <<< 16)]
  | .SLL => some [(rd, rt <<< fields.shift.toNat)]
  | .SRL => some [(rd, rt >>> fields.shift.toNat)]
  | .SRA => some [(rd, rt.sshiftRight fields.shift.toNat)]
  | .SLLV => some [(rd, rt <<< (rs.toNat % 32))]
  | .SRLV => some [(rd, rt >>> (rs.toNat % 32))]
  | .SRAV => some [(rd, rt.sshiftRight (rs.toNat % 32))]
  | .SLT => some [(rd, if rs.toInt < rt.toInt then 1 else 0)]
  | .SLTU => some [(rd, if rs.toNat < rt.toNat then 1 else 0)]
  | .SLTI => some [(target, if rs.toInt < signed.toInt then 1 else 0)]
  | .SLTIU => some [(target, if rs.toNat < signed.toNat then 1 else 0)]
  | .MULT => some (halves (.ofInt 64 (rs.toInt * rt.toInt)))
  | .MULTU => some (halves (.ofNat 64 (rs.toNat * rt.toNat)))
  | .DIV => some (if rt = 0 then [] else
      [(HiReg, .ofInt 32 (rs.toInt.tmod rt.toInt)), (LoReg, .ofInt 32 (rs.toInt.tdiv rt.toInt))])
  | .DIVU => some (if rt = 0 then [] else
      [(HiReg, .ofNat 32 (rs.toNat % rt.toNat)), (LoReg, .ofNat 32 (rs.toNat / rt.toNat))])
  | .MFHI => some [(rd, registers HiReg)]
  | .MFLO => some [(rd, registers LoReg)]
  | .MTHI => some [(HiReg, rs)]
  | .MTLO => some [(LoReg, rs)]
  | _ => none

/-- The instruction leaves these values, zero in `r0`, and the other general registers as they
were, unless it raises an exception. -/
def Obeys (registers : Registers) (sets : List (Nat × Word)) : Effects.Outcome Stop (Cpu M) Unit → Prop
  | .done () after => (∀ set ∈ sets, after.registers set.1 = set.2) ∧ after.registers 0 = 0 ∧
      ∀ i < NumGPRegs, (∀ set ∈ sets, set.1 ≠ i) → after.registers i = registers i
  | .stopped (.exception _) _ => True
  | .stopped _ _ => False

/-- Where the code does what the manual says: `OR` when `rt` has no bit that `rs` has not, the
logical shifts to the right when they shift nothing in or the sign is zero, and `DIV` but for the
quotient that is none of a word. -/
def Faithful (code : OpCode) (fields : Fields) (registers : Registers) : Prop :=
  let rs := registers fields.rs.toNat
  let rt := registers fields.rt.toNat
  match code with
  | .OR => rs &&& rt = rt
  | .SRL => fields.shift = 0 ∨ rt.msb = false
  | .SRLV => rs.toNat % 32 = 0 ∨ rt.msb = false
  | .DIV => ¬ (rs = 0x80000000 ∧ rt = -1)
  | _ => True

/-! ### Values -/

theorem zero_extended (imm : BitVec 16) : (imm.signExtend 32 : Word) &&& 0xffff = imm.setWidth 32 := by
  have mask : (0xffff : Word) = (BitVec.allOnes 16).setWidth 32 := by decide
  rw [mask]
  apply BitVec.eq_of_getLsbD_eq
  intro i inside
  rw [BitVec.getLsbD_and, BitVec.getLsbD_signExtend, BitVec.getLsbD_setWidth, BitVec.getLsbD_setWidth,
    BitVec.getLsbD_allOnes]
  by_cases low : i < 16
  · simp [low, inside]
  · have high : imm.getLsbD i = false := BitVec.getLsbD_of_ge imm i (not_lt.mp low)
    simp [low, high]

theorem upper_immediate (imm : BitVec 16) :
    (imm.signExtend 32 : Word) <<< 16 = (imm.setWidth 32 : Word) <<< 16 := by
  apply BitVec.eq_of_getLsbD_eq
  intro i inside
  rw [BitVec.getLsbD_shiftLeft, BitVec.getLsbD_shiftLeft, BitVec.getLsbD_signExtend, BitVec.getLsbD_setWidth]
  have rest : i - 16 < 16 := by omega
  have short : i - 16 < 32 := by omega
  simp [rest, short]

theorem toNat_low_five (value : Word) : (value &&& 0x1f).toNat = value.toNat % 32 :=
  toNat_mask value (show 5 ≤ 32 by decide)

theorem or_self_iff (a b : Word) : a ||| a = a ||| b ↔ a &&& b = b := by
  have bits : ∀ x y : Bool, (x = (x || y)) ↔ ((x && y) = y) := by decide
  rw [BitVec.or_self, BitVec.eq_of_getLsbD_eq_iff, BitVec.eq_of_getLsbD_eq_iff]
  refine forall₂_congr fun i _ => ?_
  rw [BitVec.getLsbD_or, BitVec.getLsbD_and]
  exact bits _ _

/-- Shifting in the sign or zeros is the same exactly if the sign is zero. -/
theorem sshiftRight_eq_iff {value : Word} {n : Nat} (few : n < 32) :
    value.sshiftRight n = value >>> n ↔ n = 0 ∨ value.msb = false := by
  constructor
  · intro same
    rw [or_iff_not_imp_left]
    intro shifts
    have top := congrArg (fun w => BitVec.getLsbD w 31) same
    rw [BitVec.getLsbD_sshiftRight, BitVec.getLsbD_ushiftRight, BitVec.getLsbD_of_ge value _ (by omega)] at top
    have beyond : ¬ n + 31 < 32 := by omega
    simpa [beyond] using top
  · rintro (rfl | positive)
    · rw [BitVec.sshiftRight_zero, BitVec.ushiftRight_zero]
    · exact BitVec.sshiftRight_eq_of_msb_false positive

theorem ofInt_tdiv {a b : Word} : BitVec.ofInt 32 (a.toInt.tdiv b.toInt) = a.sdiv b := by
  apply BitVec.eq_of_toInt_eq
  rw [BitVec.toInt_ofInt, BitVec.toInt_sdiv]

theorem ofInt_tmod {a b : Word} : BitVec.ofInt 32 (a.toInt.tmod b.toInt) = a.srem b := by
  rw [← BitVec.toInt_srem, BitVec.ofInt_toInt]

theorem ofNat_div {a b : Word} : BitVec.ofNat 32 (a.toNat / b.toNat) = a / b := by
  rw [← BitVec.toNat_udiv, BitVec.ofNat_toNat, BitVec.setWidth_eq]

theorem ofNat_mod {a b : Word} : BitVec.ofNat 32 (a.toNat % b.toNat) = a % b := by
  rw [← BitVec.toNat_umod, BitVec.ofNat_toNat, BitVec.setWidth_eq]

theorem halves_append (hi lo : Word) : halves (hi ++ lo) = [(HiReg, hi), (LoReg, lo)] := by
  have high : (hi ++ lo).extractLsb' 32 32 = hi := by
    apply BitVec.eq_of_getLsbD_eq
    intro i inside
    rw [BitVec.getLsbD_extractLsb', BitVec.getLsbD_append]
    simp [inside]
  have low : (hi ++ lo).setWidth 32 = lo := by
    rw [BitVec.setWidth_append, dif_pos le_rfl, BitVec.setWidth_eq]
  unfold halves
  rw [high, low]

/-! ### Runs -/

theorem obeys_get {i : Nat} {next : Word → Exec Unit} (inside : i < NumTotalRegs) :
    Obeys registers sets ((Program.request (.get i) next : Exec Unit).run (handle system) s) ↔
      Obeys registers sets ((next (s.registers i)).run (handle system) s) := by
  rw [run_get inside]

/-- What is left to show of an instruction that ends, with no load pending. -/
theorem obeys_finished {after : Registers} (zero : registers 0 = 0) (idle : after LoadReg = 0)
    (targets : ∀ set ∈ sets, set.1 ≠ 0 ∧ set.1 < PCReg) :
    Obeys registers sets (.done () (⟨after.finished (.to pcAfter), memory⟩ : Cpu M)) ↔
      (∀ set ∈ sets, after set.1 = set.2) ∧
        ∀ i < NumGPRegs, i ≠ 0 → (∀ set ∈ sets, set.1 ≠ i) → after i = registers i := by
  have final : ∀ i, i ≠ 0 → i < PCReg → after.finished (.to pcAfter) i = after i :=
    fun i notZero small => finished_idle idle notZero small
  constructor
  · rintro ⟨values, -, others⟩
    refine ⟨fun set member => ?_, fun i small notZero other => ?_⟩
    · obtain ⟨notZero, small⟩ := targets set member
      exact (final _ notZero small).symm.trans (values set member)
    · exact (final i notZero (small.trans (by decide))).symm.trans (others i small other)
  · rintro ⟨values, others⟩
    have first : after.finished (.to pcAfter) 0 = 0 := finished_zero
    refine ⟨fun set member => ?_, first, fun i small other => ?_⟩
    · obtain ⟨notZero, small⟩ := targets set member
      exact (final _ notZero small).trans (values set member)
    · by_cases notZero : i = 0
      · subst notZero
        exact first.trans zero.symm
      · exact (final i notZero (small.trans (by decide))).trans (others i small notZero other)

/-- An instruction that sets one register obeys exactly if the value is the one of the manual. -/
theorem obeys_set (zero : s.registers 0 = 0) (idle : s.registers LoadReg = 0) (notZero : dest ≠ 0)
    (small : dest < PCReg) :
    Obeys s.registers [(dest, value)]
      (((do setReg dest word; return .to pcAfter : Exec Commit) >>= finish).run (handle system) s) ↔ word = value := by
  have inside : (s.registers LoadReg).toNat < NumTotalRegs := by
    rw [idle]
    decide
  have kept : Function.update s.registers dest word LoadReg = 0 :=
    (Function.update_of_ne (ne_of_small small (by decide)).symm ..).trans idle
  rw [run_sets small inside, obeys_finished zero kept]
  · constructor
    · rintro ⟨values, -⟩
      have set := values _ (List.mem_singleton_self _)
      rwa [Function.update_self] at set
    · rintro rfl
      refine ⟨fun set member => ?_, fun i _ _ other => ?_⟩
      · rw [List.mem_singleton.mp member]
        exact Function.update_self ..
      · exact Function.update_of_ne (other _ (List.mem_singleton_self _)).symm ..
  · intro set member
    rw [List.mem_singleton.mp member]
    exact ⟨notZero, small⟩

theorem obeys_unary {f : Word → Word} (zero : s.registers 0 = 0) (idle : s.registers LoadReg = 0)
    (notZero : dest ≠ 0) (small : dest < PCReg) (source : first < NumTotalRegs) :
    Obeys s.registers [(dest, value)]
      (((do unary dest first f; return .to pcAfter : Exec Commit) >>= finish).run (handle system) s) ↔
        f (s.registers first) = value :=
  (obeys_get source).trans (obeys_set zero idle notZero small)

theorem obeys_binary {f : Word → Word → Word} (zero : s.registers 0 = 0) (idle : s.registers LoadReg = 0)
    (notZero : dest ≠ 0) (small : dest < PCReg) (one : first < NumTotalRegs) (two : second < NumTotalRegs) :
    Obeys s.registers [(dest, value)]
      (((do binary dest first second f; return .to pcAfter : Exec Commit) >>= finish).run
        (handle system) s) ↔ f (s.registers first) (s.registers second) = value :=
  (obeys_get one).trans ((obeys_get two).trans (obeys_set zero idle notZero small))

/-- An instruction that may raise an exception and else sets one register. -/
theorem obeys_checked {wrong : Prop} [Decidable wrong] (zero : s.registers 0 = 0)
    (idle : s.registers LoadReg = 0) (notZero : dest ≠ 0) (small : dest < PCReg) :
    Obeys s.registers [(dest, word)] (((do
      if wrong then RaiseException .OverflowException 0
      setReg dest word
      return .to pcAfter : Exec Commit) >>= finish).run (handle system) s) := by
  have inside : (s.registers LoadReg).toNat < NumTotalRegs := by
    rw [idle]
    decide
  by_cases raised : wrong
  · rw [if_pos raised]
    show Obeys s.registers _ ((RaiseException .OverflowException 0 : Exec Unit).run (handle system) s)
    rw [run_RaiseException inside]
    trivial
  · rw [if_neg raised]
    exact (obeys_set zero idle notZero small).mpr rfl

/-- An instruction that sets `Hi` and `Lo`, in some order. -/
theorem obeys_two {i j : Nat} (zero : s.registers 0 = 0) (idle : s.registers LoadReg = 0) (distinct : i ≠ j)
    (first : NumGPRegs ≤ i ∧ i < PCReg) (second : NumGPRegs ≤ j ∧ j < PCReg)
    (promised : ∀ set ∈ sets, set = (i, value) ∨ set = (j, word)) :
    Obeys s.registers sets
      (((do setReg i value; setReg j word; return .to pcAfter : Exec Commit) >>= finish).run
        (handle system) s) := by
  have inside : (s.registers LoadReg).toNat < NumTotalRegs := by
    rw [idle]
    decide
  have kept : Function.update (Function.update s.registers i value) j word LoadReg = 0 := by
    rw [Function.update_of_ne (ne_of_small second.2 (by decide)).symm,
      Function.update_of_ne (ne_of_small first.2 (by decide)).symm, idle]
  have target : Function.update s.registers i value LoadReg = s.registers LoadReg :=
    Function.update_of_ne (ne_of_small first.2 (by decide)).symm ..
  have runs : ((do setReg i value; setReg j word; return .to pcAfter : Exec Commit) >>= finish).run
      (handle system) s = .done () ⟨Registers.finished (Function.update (Function.update s.registers i value)
        j word) (.to pcAfter), s.memory⟩ := by
    refine (run_set (first.2.trans (by decide))).trans (run_sets second.2 ?_)
    dsimp only
    rw [target]
    exact inside
  rw [runs, obeys_finished zero kept]
  · refine ⟨fun set member => ?_, fun k small _ _ => ?_⟩
    · rcases promised set member with rfl | rfl
      · dsimp only
        rw [Function.update_of_ne distinct, Function.update_self]
      · exact Function.update_self ..
    · rw [Function.update_of_ne (small.trans_le second.1).ne, Function.update_of_ne (small.trans_le first.1).ne]
  · intro set member
    have positive : 0 < NumGPRegs := by decide
    rcases promised set member with rfl | rfl
    · exact ⟨(positive.trans_le first.1).ne', first.2⟩
    · exact ⟨(positive.trans_le second.1).ne', second.2⟩

theorem obeys_setHiLo {f : Word → Word → Word × Word} (zero : s.registers 0 = 0)
    (idle : s.registers LoadReg = 0) (one : first < NumTotalRegs) (two : second < NumTotalRegs)
    (promised : ∀ set ∈ sets, set = (HiReg, (f (s.registers first) (s.registers second)).1) ∨
      set = (LoReg, (f (s.registers first) (s.registers second)).2)) :
    Obeys s.registers sets
      (((do setHiLo first second f; return .to pcAfter : Exec Commit) >>= finish).run (handle system) s) := by
  refine (obeys_get one).mpr ((obeys_get two).mpr ?_)
  exact obeys_two zero idle (by decide) (by decide) (by decide) promised

/-- `DIV` obeys unless the host traps. -/
theorem obeys_divide (zero : s.registers 0 = 0) (idle : s.registers LoadReg = 0)
    (one : first < NumTotalRegs) (two : second < NumTotalRegs)
    (promised : ∀ set ∈ sets, s.registers second ≠ 0 ∧
      (set = (LoReg, (s.registers first).sdiv (s.registers second)) ∨
        set = (HiReg, (s.registers first).srem (s.registers second)))) :
    Obeys s.registers sets
      (((do divide first second; return .to pcAfter : Exec Commit) >>= finish).run (handle system) s) ↔
        ¬ (s.registers first = 0x80000000 ∧ s.registers second = -1) := by
  refine (obeys_get two).trans ?_
  by_cases nothing : s.registers second = 0
  · have sane : ¬ (s.registers first = 0x80000000 ∧ s.registers second = -1) := by
      rw [nothing]
      exact fun extreme => absurd extreme.2 (by decide)
    refine iff_of_true ?_ sane
    show Obeys _ _ ((((if s.registers second = 0 then _ else _) >>= fun _ => pure (.to pcAfter)) >>= finish).run
      (handle system) s)
    rw [if_pos nothing]
    exact obeys_two zero idle (by decide) (by decide) (by decide)
      fun set member => absurd nothing (promised set member).1
  · show Obeys _ _ ((((if s.registers second = 0 then _ else _) >>= fun _ => pure (.to pcAfter)) >>= finish).run
      (handle system) s) ↔ _
    rw [if_neg nothing]
    refine (obeys_get one).trans ?_
    show Obeys _ _ ((((if s.registers first = 0x80000000 ∧ s.registers second = -1 then _ else _) >>=
      fun _ => pure (.to pcAfter)) >>= finish).run (handle system) s) ↔ _
    by_cases extreme : s.registers first = 0x80000000 ∧ s.registers second = -1
    · refine iff_of_false ?_ (not_not_intro extreme)
      rw [if_pos extreme]
      exact id
    · refine iff_of_true ?_ extreme
      rw [if_neg extreme]
      exact obeys_two zero idle (by decide) (by decide) (by decide) fun set member => (promised set member).2

/-! ### Formats -/

variable {instr : Instruction} {funct op : BitVec 6}

/-- `rd` from `rs` and `rt`. -/
theorem obeys_registers {f : Word → Word → Word} (carries : (Encoding.special funct).Carries fields instr)
    (zero : s.registers 0 = 0) (idle : s.registers LoadReg = 0)
    (targets : ∀ set ∈ [(fields.rd.toNat, value)], set.1 ≠ 0) :
    Obeys s.registers [(fields.rd.toNat, value)]
      (((do binary instr.rd.toNat instr.rs.toNat instr.rt.toNat f; return .to pcAfter : Exec Commit) >>=
        finish).run (handle system) s) ↔
      f (s.registers fields.rs.toNat) (s.registers fields.rt.toNat) = value := by
  obtain ⟨rs, rt, rd, -⟩ := carries
  have notZero : fields.rd.toNat ≠ 0 := targets _ (List.mem_singleton_self _)
  rw [rs, rt, rd, toNat_field, toNat_field, toNat_field]
  exact obeys_binary zero idle notZero ((field_small _).trans (by decide))
    ((field_small _).trans (by decide)) ((field_small _).trans (by decide))

/-- `rd` from one other register. -/
theorem obeys_register {f : Word → Word} (carries : (Encoding.special funct).Carries fields instr)
    (zero : s.registers 0 = 0) (idle : s.registers LoadReg = 0) (source : first < NumTotalRegs)
    (targets : ∀ set ∈ [(fields.rd.toNat, value)], set.1 ≠ 0) :
    Obeys s.registers [(fields.rd.toNat, value)]
      (((do unary instr.rd.toNat first f; return .to pcAfter : Exec Commit) >>= finish).run
        (handle system) s) ↔ f (s.registers first) = value := by
  obtain ⟨-, -, rd, -⟩ := carries
  have notZero : fields.rd.toNat ≠ 0 := targets _ (List.mem_singleton_self _)
  rw [rd, toNat_field]
  exact obeys_unary zero idle notZero ((field_small _).trans (by decide)) source

/-- `rt` from `rs` and the immediate. -/
theorem obeys_immediate {f : Word → Word} (carries : (Encoding.immediate op).Carries fields instr)
    (zero : s.registers 0 = 0) (idle : s.registers LoadReg = 0)
    (targets : ∀ set ∈ [(fields.rt.toNat, value)], set.1 ≠ 0) :
    Obeys s.registers [(fields.rt.toNat, value)]
      (((do unary instr.rt.toNat instr.rs.toNat f; return .to pcAfter : Exec Commit) >>= finish).run
        (handle system) s) ↔ f (s.registers fields.rs.toNat) = value := by
  obtain ⟨rs, rt, -⟩ := carries
  have notZero : fields.rt.toNat ≠ 0 := targets _ (List.mem_singleton_self _)
  rw [rs, rt, toNat_field, toNat_field]
  exact obeys_unary zero idle notZero ((field_small _).trans (by decide)) ((field_small _).trans (by decide))

/-- The shifts by a constant. -/
theorem obeys_shift {f : Word → Nat → Word} (carries : (Encoding.special funct).Carries fields instr)
    (zero : s.registers 0 = 0) (idle : s.registers LoadReg = 0)
    (targets : ∀ set ∈ [(fields.rd.toNat, value)], set.1 ≠ 0) :
    Obeys s.registers [(fields.rd.toNat, value)]
      (((do unary instr.rd.toNat instr.rt.toNat (f · instr.extra.toNat); return .to pcAfter : Exec Commit) >>=
        finish).run (handle system) s) ↔ f (s.registers fields.rt.toNat) fields.shift.toNat = value := by
  have rt := carries.2.1
  have shift := carries.2.2.2
  rw [rt, shift, toNat_field, toNat_field]
  exact obeys_register carries zero idle ((field_small _).trans (by decide)) targets

/-- The shifts by the low five bits of `rs`. -/
theorem obeys_variable_shift {f : Word → Nat → Word} (carries : (Encoding.special funct).Carries fields instr)
    (zero : s.registers 0 = 0) (idle : s.registers LoadReg = 0)
    (targets : ∀ set ∈ [(fields.rd.toNat, value)], set.1 ≠ 0) :
    Obeys s.registers [(fields.rd.toNat, value)]
      (((do
        binary instr.rd.toNat instr.rs.toNat instr.rt.toNat fun a b => f b (a &&& 0x1f).toNat
        return .to pcAfter : Exec Commit) >>= finish).run (handle system) s) ↔
      f (s.registers fields.rt.toNat) ((s.registers fields.rs.toNat).toNat % 32) = value := by
  rw [← toNat_low_five]
  exact obeys_registers carries zero idle targets

/-- The condition of a comparison as the simulator has it. -/
theorem flag_eq {condition : Bool} {holds : Prop} [Decidable holds] (same : condition = decide holds) :
    (if condition then 1 else 0 : Word) = if holds then 1 else 0 := by
  subst same
  exact if_congr decide_eq_true_iff rfl rfl

theorem obeys_execute (opCode : instr.opCode = code) (encoded : encoding code = some place)
    (carries : place.Carries fields instr) (meant : manual code fields s.registers = some sets)
    (targets : ∀ set ∈ sets, set.1 ≠ 0) (zero : s.registers 0 = 0) (idle : s.registers LoadReg = 0) :
    Obeys s.registers sets ((execute instr pcAfter >>= finish).run (handle system) s) ↔
      Faithful code fields s.registers := by
  have below (field : BitVec 5) : field.toNat < NumTotalRegs := (field_small field).trans (by decide)
  have small (field : BitVec 5) : field.toNat < PCReg := (field_small field).trans (by decide)
  unfold execute
  rw [opCode]
  cases code
  case ADDU =>
    cases encoded
    cases meant
    exact (obeys_registers carries zero idle targets).trans (iff_of_true rfl trivial)
  case SUBU =>
    cases encoded
    cases meant
    exact (obeys_registers carries zero idle targets).trans (iff_of_true rfl trivial)
  case AND =>
    cases encoded
    cases meant
    exact (obeys_registers carries zero idle targets).trans (iff_of_true rfl trivial)
  case XOR =>
    cases encoded
    cases meant
    exact (obeys_registers carries zero idle targets).trans (iff_of_true rfl trivial)
  case NOR =>
    cases encoded
    cases meant
    exact (obeys_registers carries zero idle targets).trans (iff_of_true rfl trivial)
  case OR =>
    cases encoded
    cases meant
    obtain ⟨rs, -, rd, -⟩ := carries
    dsimp only
    rw [rs, rd, toNat_field, toNat_field]
    have notZero : fields.rd.toNat ≠ 0 := targets _ (List.mem_singleton_self _)
    exact (obeys_binary zero idle notZero (small _) (below _) (below _)).trans (or_self_iff _ _)
  case ADD =>
    cases encoded
    cases meant
    obtain ⟨rs, rt, rd, -⟩ := carries
    dsimp only
    rw [rs, rt, rd, toNat_field, toNat_field, toNat_field]
    have notZero : fields.rd.toNat ≠ 0 := targets _ (List.mem_singleton_self _)
    refine (obeys_get (below _)).trans ((obeys_get (below _)).trans (iff_of_true ?_ trivial))
    exact obeys_checked zero idle notZero (small _)
  case SUB =>
    cases encoded
    cases meant
    obtain ⟨rs, rt, rd, -⟩ := carries
    dsimp only
    rw [rs, rt, rd, toNat_field, toNat_field, toNat_field]
    have notZero : fields.rd.toNat ≠ 0 := targets _ (List.mem_singleton_self _)
    refine (obeys_get (below _)).trans ((obeys_get (below _)).trans (iff_of_true ?_ trivial))
    exact obeys_checked zero idle notZero (small _)
  case ADDI =>
    cases encoded
    cases meant
    obtain ⟨rs, rt, extra⟩ := carries
    dsimp only
    rw [rs, rt, extra, toNat_field, toNat_field]
    have notZero : fields.rt.toNat ≠ 0 := targets _ (List.mem_singleton_self _)
    refine (obeys_get (below _)).trans (iff_of_true ?_ trivial)
    exact obeys_checked zero idle notZero (small _)
  case ADDIU =>
    cases encoded
    cases meant
    refine (obeys_immediate carries zero idle targets).trans (iff_of_true ?_ trivial)
    rw [carries.2.2]
  case ANDI =>
    cases encoded
    cases meant
    refine (obeys_immediate carries zero idle targets).trans (iff_of_true ?_ trivial)
    rw [carries.2.2, zero_extended]
  case ORI =>
    cases encoded
    cases meant
    refine (obeys_immediate carries zero idle targets).trans (iff_of_true ?_ trivial)
    rw [carries.2.2, zero_extended]
  case XORI =>
    cases encoded
    cases meant
    refine (obeys_immediate carries zero idle targets).trans (iff_of_true ?_ trivial)
    rw [carries.2.2, zero_extended]
  case SLTI =>
    cases encoded
    cases meant
    refine (obeys_immediate carries zero idle targets).trans (iff_of_true ?_ trivial)
    rw [carries.2.2]
    exact flag_eq rfl
  case SLTIU =>
    cases encoded
    cases meant
    refine (obeys_immediate carries zero idle targets).trans (iff_of_true ?_ trivial)
    rw [carries.2.2]
    exact flag_eq rfl
  case SLT =>
    cases encoded
    cases meant
    refine (obeys_registers carries zero idle targets).trans (iff_of_true ?_ trivial)
    exact flag_eq rfl
  case SLTU =>
    cases encoded
    cases meant
    refine (obeys_registers carries zero idle targets).trans (iff_of_true ?_ trivial)
    exact flag_eq rfl
  case LUI =>
    cases encoded
    cases meant
    obtain ⟨-, rt, extra⟩ := carries
    dsimp only
    rw [rt, extra, toNat_field]
    have notZero : fields.rt.toNat ≠ 0 := targets _ (List.mem_singleton_self _)
    exact (obeys_set zero idle notZero (small _)).trans (iff_of_true (upper_immediate _) trivial)
  case SLL =>
    cases encoded
    cases meant
    exact (obeys_shift (f := fun a n => a <<< n) carries zero idle targets).trans (iff_of_true rfl trivial)
  case SRA =>
    cases encoded
    cases meant
    exact (obeys_shift carries zero idle targets).trans (iff_of_true rfl trivial)
  case SRL =>
    cases encoded
    cases meant
    refine (obeys_shift carries zero idle targets).trans ((sshiftRight_eq_iff fields.shift.isLt).trans ?_)
    refine or_congr_left ?_
    rw [← BitVec.toNat_inj]
    exact Iff.rfl
  case SLLV =>
    cases encoded
    cases meant
    exact (obeys_variable_shift (f := fun a n => a <<< n) carries zero idle targets).trans
      (iff_of_true rfl trivial)
  case SRAV =>
    cases encoded
    cases meant
    exact (obeys_variable_shift carries zero idle targets).trans (iff_of_true rfl trivial)
  case SRLV =>
    cases encoded
    cases meant
    exact (obeys_variable_shift carries zero idle targets).trans
      (sshiftRight_eq_iff (Nat.mod_lt _ (by decide)))
  case MFHI =>
    cases encoded
    cases meant
    exact (obeys_register carries zero idle (by decide) targets).trans (iff_of_true rfl trivial)
  case MFLO =>
    cases encoded
    cases meant
    exact (obeys_register carries zero idle (by decide) targets).trans (iff_of_true rfl trivial)
  case MTHI =>
    cases encoded
    cases meant
    obtain ⟨rs, -, -, -⟩ := carries
    dsimp only
    rw [rs, toNat_field]
    exact (obeys_unary zero idle (by decide) (by decide) (below _)).trans (iff_of_true rfl trivial)
  case MTLO =>
    cases encoded
    cases meant
    obtain ⟨rs, -, -, -⟩ := carries
    dsimp only
    rw [rs, toNat_field]
    exact (obeys_unary zero idle (by decide) (by decide) (below _)).trans (iff_of_true rfl trivial)
  case MULT =>
    cases encoded
    cases meant
    obtain ⟨rs, rt, -, -⟩ := carries
    dsimp only
    rw [rs, rt, toNat_field, toNat_field]
    refine iff_of_true (obeys_setHiLo zero idle (below _) (below _) fun set member => ?_) trivial
    rw [← mult_signed, halves_append] at member
    simpa using member
  case MULTU =>
    cases encoded
    cases meant
    obtain ⟨rs, rt, -, -⟩ := carries
    dsimp only
    rw [rs, rt, toNat_field, toNat_field]
    refine iff_of_true (obeys_setHiLo zero idle (below _) (below _) fun set member => ?_) trivial
    rw [← mult_unsigned, halves_append] at member
    simpa using member
  case DIVU =>
    cases encoded
    cases meant
    obtain ⟨rs, rt, -, -⟩ := carries
    dsimp only
    rw [rs, rt, toNat_field, toNat_field]
    refine iff_of_true (obeys_setHiLo zero idle (below _) (below _) fun set member => ?_) trivial
    split at member
    · exact absurd member List.not_mem_nil
    · rename_i nonzero
      rw [ofNat_mod, ofNat_div] at member
      rw [if_neg nonzero]
      simpa using member
  case DIV =>
    cases encoded
    cases meant
    obtain ⟨rs, rt, -, -⟩ := carries
    dsimp only
    rw [rs, rt, toNat_field, toNat_field]
    refine obeys_divide zero idle (below _) (below _) fun set member => ?_
    split at member
    · exact absurd member List.not_mem_nil
    · rename_i nonzero
      rw [ofInt_tdiv, ofInt_tmod] at member
      refine ⟨nonzero, Or.symm ?_⟩
      simpa using member
  all_goals cases meant

/-- The arithmetic instructions do what the manual says exactly where they are faithful. -/
theorem arithmetic_obeys_iff (code : OpCode) (encoded : encoding code = some place)
    (meant : manual code fields s.registers = some sets) (targets : ∀ set ∈ sets, set.1 ≠ 0)
    (zero : s.registers 0 = 0) (idle : s.registers LoadReg = 0)
    (fetched : Fetches system s (assemble place fields) memory) :
    Obeys s.registers sets (OneInstruction.run (handle system) s) ↔ Faithful code fields s.registers := by
  obtain ⟨opCode, carries⟩ := decode_assemble fields (encoding_row encoded)
  rw [run_fetched fetched]
  exact obeys_execute (s := { s with memory := memory }) opCode encoded carries meant targets zero idle

/-- `r1` is zero and `r2` is -1. -/
def minusOne : Registers := fun i => if i = 2 then -1 else 0

/-- `AND r3,r1,r2` does what it should. -/
theorem and_obeys : Obeys (about (assemble (.special 36) ⟨1, 2, 3, 0, 0, 0⟩) minusOne).registers [(3, 0)]
    (OneInstruction.run (handle UserMemory.system)
      (about (assemble (.special 36) ⟨1, 2, 3, 0, 0, 0⟩) minusOne)) := by
  obtain ⟨memory, fetched⟩ := about_fetched (assemble (.special 36) ⟨1, 2, 3, 0, 0, 0⟩) minusOne
  refine (arithmetic_obeys_iff .AND rfl rfl ?_ rfl rfl fetched).mpr trivial
  decide

theorem disobeys (code : OpCode) (encoded : encoding code = some place)
    (meant : manual code fields (about (assemble place fields) registers).registers = some sets)
    (targets : ∀ set ∈ sets, set.1 ≠ 0) (zero : registers 0 = 0)
    (unfaithful : ¬ Faithful code fields (about (assemble place fields) registers).registers) :
    ¬ Obeys (about (assemble place fields) registers).registers sets
      (OneInstruction.run (handle UserMemory.system) (about (assemble place fields) registers)) := by
  obtain ⟨memory, fetched⟩ := about_fetched (assemble place fields) registers
  obtain ⟨opCode, carries⟩ := decode_assemble fields (encoding_row encoded)
  have first : (about (assemble place fields) registers).registers 0 = 0 := zero
  rw [run_fetched fetched]
  intro obeys
  exact unfaithful ((obeys_execute (s := { about (assemble place fields) registers with memory := memory })
    opCode encoded carries meant targets first rfl).mp obeys)

/-- With 0 in `r1` and -1 in `r2`, `OR r3,r1,r2` does not leave -1, and `SRL r3,r2,1` does not leave the
largest `int`. -/
theorem or_and_shift_disobey :
    ¬ Obeys (about (assemble (.special 37) ⟨1, 2, 3, 0, 0, 0⟩) minusOne).registers [(3, -1)]
      (OneInstruction.run (handle UserMemory.system)
        (about (assemble (.special 37) ⟨1, 2, 3, 0, 0, 0⟩) minusOne)) ∧
    ¬ Obeys (about (assemble (.special 2) ⟨0, 2, 3, 1, 0, 0⟩) minusOne).registers [(3, 0x7fffffff)]
      (OneInstruction.run (handle UserMemory.system)
        (about (assemble (.special 2) ⟨0, 2, 3, 1, 0, 0⟩) minusOne)) := by
  constructor
  · refine disobeys .OR rfl rfl (by decide) rfl ?_
    unfold Faithful
    decide
  · refine disobeys .SRL rfl rfl (by decide) rfl ?_
    unfold Faithful
    decide

end Manual

end Nachos.Mips
