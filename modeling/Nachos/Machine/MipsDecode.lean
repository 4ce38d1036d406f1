import Mathlib.Algebra.Group.Nat.Defs
import Nachos.Machine.MipsFootprints

/-! Decoding against the encoding of MIPS-I.

An encoding is the place of an operation in the tables, and `assemble` puts the fields of its
format into a word. `Decode` gives the fields back, and every word has an operation that
`OneInstruction` implements. -/
namespace Nachos.Mips
open Effects Machine

/-! ## The encoding -/

/-- Where MIPS-I puts an operation: by the first field of the word, by the last one, or by the
register field of a branch on a condition. -/
inductive Encoding where
  | immediate (op : BitVec 6)
  | jump (op : BitVec 6)
  | special (funct : BitVec 6)
  | condition (selector : BitVec 5)
deriving DecidableEq, Repr

/-- The fields of a word; a format has some of them. -/
structure Fields where
  rs : BitVec 5
  rt : BitVec 5
  rd : BitVec 5
  shift : BitVec 5
  imm : BitVec 16
  target : BitVec 26

/-- The word of an operation. -/
def assemble : Encoding → Fields → Word
  | .immediate op, fields => op ++ fields.rs ++ fields.rt ++ fields.imm
  | .jump op, fields => op ++ fields.target
  | .special funct, fields => (0 : BitVec 6) ++ fields.rs ++ fields.rt ++ fields.rd ++ fields.shift ++ funct
  | .condition selector, fields => (1 : BitVec 6) ++ fields.rs ++ selector ++ fields.imm

/-- The instruction has the fields of the format. -/
def Encoding.Carries : Encoding → Fields → Instruction → Prop
  | .immediate _, fields, instr =>
    instr.rs = fields.rs.setWidth 32 ∧ instr.rt = fields.rt.setWidth 32 ∧
      instr.extra = fields.imm.signExtend 32
  | .jump _, fields, instr => instr.extra = fields.target.setWidth 32
  | .special _, fields, instr =>
    instr.rs = fields.rs.setWidth 32 ∧ instr.rt = fields.rt.setWidth 32 ∧
      instr.rd = fields.rd.setWidth 32 ∧ instr.extra = fields.shift.setWidth 32
  | .condition _, fields, instr =>
    instr.rs = fields.rs.setWidth 32 ∧ instr.extra = fields.imm.signExtend 32

/-- The branches on a condition. -/
def conditional (selector : BitVec 5) : OpCode :=
  if selector = 0 then .BLTZ else if selector = 1 then .BGEZ
  else if selector = 16 then .BLTZAL else if selector = 17 then .BGEZAL else .UNIMP

/-- The operation that the tables have for an encoding; for a branch on a condition it is the
one that `Decode` chooses. -/
inductive Encoding.Row : Encoding → OpCode → Prop where
  | immediate {op : BitVec 6} {code : OpCode} (row : opTable[op.toNat]? = some ⟨code, .IFMT⟩)
      (final : code ≠ .BCOND) : Row (.immediate op) code
  | jump {op : BitVec 6} {code : OpCode} (row : opTable[op.toNat]? = some ⟨code, .JFMT⟩) :
      Row (.jump op) code
  | special {funct : BitVec 6} {code : OpCode} (row : specialTable[funct.toNat]? = some code) :
      Row (.special funct) code
  | condition {selector : BitVec 5} : Row (.condition selector) (conditional selector)

/-- The encodings of MIPS-I, for the operations that `OneInstruction` executes. -/
def encoding : OpCode → Option Encoding
  | .J => some (.jump 2)
  | .JAL => some (.jump 3)
  | .BEQ => some (.immediate 4)
  | .BNE => some (.immediate 5)
  | .BLEZ => some (.immediate 6)
  | .BGTZ => some (.immediate 7)
  | .ADDI => some (.immediate 8)
  | .ADDIU => some (.immediate 9)
  | .SLTI => some (.immediate 10)
  | .SLTIU => some (.immediate 11)
  | .ANDI => some (.immediate 12)
  | .ORI => some (.immediate 13)
  | .XORI => some (.immediate 14)
  | .LUI => some (.immediate 15)
  | .LB => some (.immediate 32)
  | .LH => some (.immediate 33)
  | .LWL => some (.immediate 34)
  | .LW => some (.immediate 35)
  | .LBU => some (.immediate 36)
  | .LHU => some (.immediate 37)
  | .LWR => some (.immediate 38)
  | .SB => some (.immediate 40)
  | .SH => some (.immediate 41)
  | .SWL => some (.immediate 42)
  | .SW => some (.immediate 43)
  | .SWR => some (.immediate 46)
  | .BLTZ => some (.condition 0)
  | .BGEZ => some (.condition 1)
  | .BLTZAL => some (.condition 16)
  | .BGEZAL => some (.condition 17)
  | .SLL => some (.special 0)
  | .SRL => some (.special 2)
  | .SRA => some (.special 3)
  | .SLLV => some (.special 4)
  | .SRLV => some (.special 6)
  | .SRAV => some (.special 7)
  | .JR => some (.special 8)
  | .JALR => some (.special 9)
  | .SYSCALL => some (.special 12)
  | .MFHI => some (.special 16)
  | .MTHI => some (.special 17)
  | .MFLO => some (.special 18)
  | .MTLO => some (.special 19)
  | .MULT => some (.special 24)
  | .MULTU => some (.special 25)
  | .DIV => some (.special 26)
  | .DIVU => some (.special 27)
  | .ADD => some (.special 32)
  | .ADDU => some (.special 33)
  | .SUB => some (.special 34)
  | .SUBU => some (.special 35)
  | .AND => some (.special 36)
  | .OR => some (.special 37)
  | .XOR => some (.special 38)
  | .NOR => some (.special 39)
  | .SLT => some (.special 42)
  | .SLTU => some (.special 43)
  | .RFE | .UNIMP | .RES | .SPECIAL | .BCOND => none

/-! ## Fields of a word -/

theorem toNat_append_add {m n : Nat} (x : BitVec m) (y : BitVec n) :
    (x ++ y).toNat = 2 ^ n * x.toNat + y.toNat := by
  rw [BitVec.toNat_append, Nat.shiftLeft_eq, Nat.mul_comm, ← Nat.two_pow_add_eq_or_of_lt y.isLt]

theorem toNat_mask (value : Word) {bits : Nat} (few : bits ≤ 32) :
    (value &&& BitVec.ofNat 32 (2 ^ bits - 1)).toNat = value.toNat % 2 ^ bits := by
  have fits : 2 ^ bits ≤ 2 ^ 32 := Nat.pow_le_pow_right (by decide) few
  have positive := Nat.two_pow_pos bits
  rw [BitVec.toNat_and, BitVec.toNat_ofNat, Nat.mod_eq_of_lt (by omega), Nat.and_two_pow_sub_one_eq_mod]

/-- A shifted and masked word, where a field of some bits ends so many bits from the right. -/
theorem field_eq (bits start : Nat) {value : Word} {field : BitVec bits} (few : bits ≤ 32)
    (there : value.toNat / 2 ^ start % 2 ^ bits = field.toNat) :
    (value >>> start) &&& BitVec.ofNat 32 (2 ^ bits - 1) = field.setWidth 32 := by
  apply BitVec.eq_of_toNat_eq
  rw [toNat_mask _ few, BitVec.toNat_ushiftRight, Nat.shiftRight_eq_div_pow, there,
    BitVec.toNat_setWidth_of_le few]

theorem low_field_eq (bits : Nat) {value : Word} {field : BitVec bits} (few : bits ≤ 32)
    (there : value.toNat % 2 ^ bits = field.toNat) :
    value &&& BitVec.ofNat 32 (2 ^ bits - 1) = field.setWidth 32 := by
  apply BitVec.eq_of_toNat_eq
  rw [toNat_mask _ few, there, BitVec.toNat_setWidth_of_le few]

/-- What `Decode` does with the immediate is sign extension. -/
theorem sign_extended (imm : BitVec 16) :
    (if (imm.setWidth 32 : Word) &&& 0x8000 ≠ 0 then (imm.setWidth 32 : Word) ||| 0xffff0000
      else imm.setWidth 32) = imm.signExtend 32 := by
  have single : (0x8000 : Word) = BitVec.twoPow 32 15 := by decide
  have nonzero : BitVec.twoPow 32 15 ≠ 0#32 := by decide
  have high : (0xffff0000 : Word) = BitVec.allOnes 16 ++ (0 : BitVec 16) := by decide
  have top : (imm.setWidth 32 : Word) &&& 0x8000 ≠ 0 ↔ imm.msb = true := by
    rw [single, BitVec.and_twoPow, BitVec.msb_eq_getLsbD_last, BitVec.getLsbD_setWidth]
    cases imm.getLsbD 15 <;> simp [nonzero]
  by_cases negative : imm.msb = true
  · rw [if_pos (top.mpr negative), high]
    apply BitVec.eq_of_getLsbD_eq
    intro i inside
    rw [BitVec.getLsbD_or, BitVec.getLsbD_setWidth, BitVec.getLsbD_append, BitVec.getLsbD_allOnes,
      BitVec.getLsbD_signExtend, negative]
    by_cases low : i < 16
    · simp [low, inside]
    · have rest : i - 16 < 16 := by omega
      simp [low, inside, rest]
  · rw [if_neg fun set => negative (top.mp set),
      BitVec.signExtend_eq_setWidth_of_msb_false (Bool.eq_false_iff.mpr negative)]

theorem sixBits_eq {α : Type} {table : List α} (long : table.length = 64) {field : Word} {op : BitVec 6}
    {row : α} (found : table[op.toNat]? = some row) (there : field &&& (0x3f : Word) = op.setWidth 32) :
    sixBits table long field = row := by
  have index : (field &&& 0x3f).toNat = op.toNat := by
    rw [there, BitVec.toNat_setWidth_of_le (by decide)]
  unfold sixBits
  obtain ⟨inside, rfl⟩ := List.getElem?_eq_some_iff.mp found
  exact congrArg table.get (Fin.ext index)

/-- `extra` of a word, by the format of its operation. -/
def extraOf (value : Word) : Format → Word
  | .IFMT => if (value &&& 0xffff) &&& 0x8000 ≠ 0 then (value &&& 0xffff) ||| 0xffff0000 else value &&& 0xffff
  | .RFMT => (value >>> 6) &&& 0x1f
  | .JFMT => value &&& 0x3ffffff

/-- The operation of a word, by the row that its first field selects. -/
def codeOf (value : Word) : OpCode → OpCode
  | .SPECIAL => sixBits specialTable (by decide) value
  | .BCOND =>
    if value &&& 0x1f0000 = 0 then .BLTZ
    else if value &&& 0x1f0000 = 0x10000 then .BGEZ
    else if value &&& 0x1f0000 = 0x100000 then .BLTZAL
    else if value &&& 0x1f0000 = 0x110000 then .BGEZAL
    else .UNIMP
  | code => code

theorem decode_of_row {value : Word} {op : BitVec 6} {info : OpInfo} (row : opTable[op.toNat]? = some info)
    (there : (value >>> 26) &&& (0x3f : Word) = op.setWidth 32) :
    (Decode value).extra = extraOf value info.format ∧ (Decode value).opCode = codeOf value info.opCode := by
  have long : opTable.length = 64 := by decide
  rw [← sixBits_eq long row there]
  exact ⟨rfl, rfl⟩

/-- The bits that choose a branch on a condition. -/
theorem selector_bits (value : Word) :
    value &&& (0x1f0000 : Word) = ((value >>> 16) &&& (0x1f : Word)) <<< 16 := by
  have shifted : (0x1f0000 : Word) = (0x1f : Word) <<< 16 := by decide
  rw [shifted]
  apply BitVec.eq_of_getLsbD_eq
  intro i inside
  rw [BitVec.getLsbD_and, BitVec.getLsbD_shiftLeft, BitVec.getLsbD_shiftLeft, BitVec.getLsbD_and,
    BitVec.getLsbD_ushiftRight]
  by_cases low : i < 16
  · simp [low]
  · rw [Nat.add_sub_cancel' (not_lt.mp low)]
    simp [low, inside]

/-! ## Decoding what was assembled -/

section Assembled

variable {value : Word} {op funct : BitVec 6} {rs rt : BitVec 5} {low : BitVec 16} {fields : Fields}
  {code : OpCode}

/-- The word is an operation, two registers and sixteen bits more. -/
def Laid (value : Word) (op : BitVec 6) (rs rt : BitVec 5) (low : BitVec 16) : Prop :=
  value.toNat = 2 ^ 16 * (2 ^ 5 * (2 ^ 5 * op.toNat + rs.toNat) + rt.toNat) + low.toNat

theorem laid_append (op : BitVec 6) (rs rt : BitVec 5) (low : BitVec 16) :
    Laid (op ++ rs ++ rt ++ low) op rs rt low := by
  unfold Laid
  rw [toNat_append_add, toNat_append_add, toNat_append_add]

theorem Laid.operation (laid : Laid value op rs rt low) : (value >>> 26) &&& (0x3f : Word) = op.setWidth 32 := by
  have := rs.isLt
  have := rt.isLt
  have := low.isLt
  unfold Laid at laid
  exact field_eq 6 26 (by decide) (by omega)

theorem Laid.source (laid : Laid value op rs rt low) : (Decode value).rs = rs.setWidth 32 := by
  have := rt.isLt
  have := low.isLt
  have := rs.isLt
  unfold Laid at laid
  exact field_eq 5 21 (by decide) (by omega)

theorem Laid.second (laid : Laid value op rs rt low) : (Decode value).rt = rt.setWidth 32 := by
  have := low.isLt
  have := rt.isLt
  unfold Laid at laid
  exact field_eq 5 16 (by decide) (by omega)

theorem Laid.rest (laid : Laid value op rs rt low) : value &&& (0xffff : Word) = low.setWidth 32 := by
  have := low.isLt
  unfold Laid at laid
  exact low_field_eq 16 (by decide) (by omega)

/-- The immediate, for an operation of that format. -/
theorem Laid.extra (laid : Laid value op rs rt low) (row : opTable[op.toNat]? = some ⟨code, .IFMT⟩) :
    (Decode value).extra = low.signExtend 32 := by
  rw [(decode_of_row row laid.operation).1]
  unfold extraOf
  dsimp only
  rw [laid.rest]
  exact sign_extended low

theorem decode_immediate (row : opTable[op.toNat]? = some ⟨code, .IFMT⟩) (final : code ≠ .BCOND) :
    (Decode (assemble (.immediate op) fields)).opCode = code ∧
      (Encoding.immediate op).Carries fields (Decode (assemble (.immediate op) fields)) := by
  have laid : Laid (assemble (.immediate op) fields) op fields.rs fields.rt fields.imm := laid_append ..
  have format : ∀ info ∈ opTable, info.opCode = .SPECIAL → info.format = .RFMT := by decide
  refine ⟨?_, laid.source, laid.second, laid.extra row⟩
  rw [(decode_of_row row laid.operation).2]
  cases code with
  | SPECIAL => exact absurd (format _ (List.mem_of_getElem? row) rfl) fun impossible => by cases impossible
  | BCOND => exact absurd rfl final
  | _ => rfl

theorem decode_jump (row : opTable[op.toNat]? = some ⟨code, .JFMT⟩) :
    (Decode (assemble (.jump op) fields)).opCode = code ∧
      (Encoding.jump op).Carries fields (Decode (assemble (.jump op) fields)) := by
  have format : ∀ info ∈ opTable, info.opCode = .SPECIAL ∨ info.opCode = .BCOND → info.format ≠ .JFMT := by
    decide
  have value : (assemble (.jump op) fields).toNat = 2 ^ 26 * op.toNat + fields.target.toNat :=
    toNat_append_add op fields.target
  have := fields.target.isLt
  have first : (assemble (.jump op) fields >>> 26) &&& (0x3f : Word) = op.setWidth 32 :=
    field_eq 6 26 (by decide) (by omega)
  have rest : assemble (.jump op) fields &&& (0x3ffffff : Word) = fields.target.setWidth 32 :=
    low_field_eq 26 (by decide) (by omega)
  obtain ⟨extra, opCode⟩ := decode_of_row row first
  refine ⟨?_, extra.trans rest⟩
  rw [opCode]
  cases code with
  | SPECIAL => exact absurd rfl (format _ (List.mem_of_getElem? row) (.inl rfl))
  | BCOND => exact absurd rfl (format _ (List.mem_of_getElem? row) (.inr rfl))
  | _ => rfl

theorem decode_special (row : specialTable[funct.toNat]? = some code) :
    (Decode (assemble (.special funct) fields)).opCode = code ∧
      (Encoding.special funct).Carries fields (Decode (assemble (.special funct) fields)) := by
  have zero : (0 : BitVec 6).toNat = 0 := rfl
  have value : (assemble (.special funct) fields).toNat =
      2 ^ 6 * (2 ^ 5 * (2 ^ 5 * (2 ^ 5 * fields.rs.toNat + fields.rt.toNat) + fields.rd.toNat) +
        fields.shift.toNat) + funct.toNat := by
    show ((0 : BitVec 6) ++ fields.rs ++ fields.rt ++ fields.rd ++ fields.shift ++ funct).toNat = _
    rw [toNat_append_add, toNat_append_add, toNat_append_add, toNat_append_add, toNat_append_add, zero,
      Nat.mul_zero, Nat.zero_add]
  have := funct.isLt
  have := fields.shift.isLt
  have := fields.rd.isLt
  have := fields.rt.isLt
  have := fields.rs.isLt
  have first : (assemble (.special funct) fields >>> 26) &&& (0x3f : Word) = (0 : BitVec 6).setWidth 32 :=
    field_eq 6 26 (by decide) (by omega)
  have last : assemble (.special funct) fields &&& (0x3f : Word) = funct.setWidth 32 :=
    low_field_eq 6 (by decide) (by omega)
  have shift : (assemble (.special funct) fields >>> 6) &&& (0x1f : Word) = fields.shift.setWidth 32 :=
    field_eq 5 6 (by decide) (by omega)
  have rd : (assemble (.special funct) fields >>> 11) &&& (0x1f : Word) = fields.rd.setWidth 32 :=
    field_eq 5 11 (by decide) (by omega)
  have rt : (assemble (.special funct) fields >>> 16) &&& (0x1f : Word) = fields.rt.setWidth 32 :=
    field_eq 5 16 (by decide) (by omega)
  have rs : (assemble (.special funct) fields >>> 21) &&& (0x1f : Word) = fields.rs.setWidth 32 :=
    field_eq 5 21 (by decide) (by omega)
  have table : opTable[(0 : BitVec 6).toNat]? = some ⟨.SPECIAL, .RFMT⟩ := by decide
  obtain ⟨extra, opCode⟩ := decode_of_row table first
  exact ⟨opCode.trans (sixBits_eq rfl row last), rs, rt, rd, extra.trans shift⟩

theorem decode_condition {selector : BitVec 5} :
    (Decode (assemble (.condition selector) fields)).opCode = conditional selector ∧
      (Encoding.condition selector).Carries fields (Decode (assemble (.condition selector) fields)) := by
  have laid : Laid (assemble (.condition selector) fields) 1 fields.rs selector fields.imm := laid_append ..
  have row : opTable[(1 : BitVec 6).toNat]? = some ⟨.BCOND, .IFMT⟩ := by decide
  have field : (assemble (.condition selector) fields >>> 16) &&& (0x1f : Word) = selector.setWidth 32 := laid.second
  have codes : ∀ selector : BitVec 5, (if (selector.setWidth 32 : Word) <<< 16 = 0 then OpCode.BLTZ
      else if (selector.setWidth 32 : Word) <<< 16 = 0x10000 then .BGEZ
      else if (selector.setWidth 32 : Word) <<< 16 = 0x100000 then .BLTZAL
      else if (selector.setWidth 32 : Word) <<< 16 = 0x110000 then .BGEZAL
      else .UNIMP) = conditional selector := by decide
  refine ⟨?_, laid.source, laid.extra row⟩
  rw [(decode_of_row row laid.operation).2]
  unfold codeOf
  dsimp only
  rw [selector_bits, field]
  exact codes selector

theorem decode_assemble {place : Encoding} (fields : Fields) (row : place.Row code) :
    (Decode (assemble place fields)).opCode = code ∧
      place.Carries fields (Decode (assemble place fields)) := by
  cases row with
  | immediate row final => exact decode_immediate row final
  | jump row => exact decode_jump row
  | special row => exact decode_special row
  | condition => exact decode_condition

end Assembled

/-- The tables have the numbers of MIPS-I. -/
theorem encoding_row {code : OpCode} {place : Encoding} (encoded : encoding code = some place) :
    place.Row code := by
  cases code
  all_goals cases encoded
  all_goals first
    | exact .immediate (by decide) (by decide)
    | exact .jump (by decide)
    | exact .special (by decide)
    | exact .condition

/-- Only what `Decode` never gives gets to the last case of the `switch`. -/
theorem execute_known {instr : Instruction} {pcAfter : Word} (known : instr.Known) :
    execute instr pcAfter ≠ .stop .assertion := by
  obtain ⟨notRfe, notSpecial, notBcond⟩ := known
  unfold execute
  cases code : instr.opCode
  case RFE => exact absurd code notRfe
  case SPECIAL => exact absurd code notSpecial
  case BCOND => exact absurd code notBcond
  all_goals exact fun impossible => by cases impossible

/-- `Decode` inverts the encoding of every row of the tables, the rows are those of MIPS-I, and
the operation of a word always has its case in `OneInstruction`. -/
theorem decode_inverts_encoding :
    (∀ code place, encoding code = some place → place.Row code) ∧
    (∀ place code fields, place.Row code → (Decode (assemble place fields)).opCode = code ∧
      place.Carries fields (Decode (assemble place fields))) ∧
    ∀ word pcAfter, (Decode word).Known ∧ execute (Decode word) pcAfter ≠ .stop .assertion :=
  ⟨fun _ _ encoded => encoding_row encoded, fun _ _ fields row => decode_assemble fields row,
    fun word _ => ⟨decode_known word, execute_known (decode_known word)⟩⟩

/-- `ADDI r2,r1,-1`. -/
theorem decode_add_minus_one :
    (Decode (assemble (.immediate 8) ⟨1, 2, 0, 0, 0xffff, 0⟩)).opCode = .ADDI ∧
      (Decode (assemble (.immediate 8) ⟨1, 2, 0, 0, 0xffff, 0⟩)).extra = -1 := by
  obtain ⟨numbers, inverts, -⟩ := decode_inverts_encoding
  obtain ⟨code, -, -, extra⟩ := inverts (.immediate 8) .ADDI ⟨1, 2, 0, 0, 0xffff, 0⟩ (numbers _ _ rfl)
  exact ⟨code, extra.trans (by decide)⟩

end Nachos.Mips
