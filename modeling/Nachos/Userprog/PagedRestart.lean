import Nachos.Machine.Restart

/-! A program whose pages are brought in on demand: the memory of a machine with one address
space has logical contents, and the page fault handler services faults without changing
them. -/
namespace Nachos.Paging
open Effects Machine Mips

variable {m m' : Paged} {bytes : Memory} {addr : BitVec 32} {size : Nat}

/-- The byte of a page that is in memory is in its frame, any other one in the file. -/
def Paged.contents (m : Paged) : Memory := fun a =>
  if a < m.space.numPages.toNat * 128 then
    match m.space.pageTable.search (a / 128) with
    | some i => m.mainMemory (i * 128 + a % 128)
    | none => m.file.bytes a
  else 0

/-- `ReadMem` and `WriteMem`. -/
def pagedSystem : MemorySystem Paged where
  read m addr size :=
    match m.attempt (.read addr size) with
    | (.value value, m) => (.done value, m)
    | (.raised exception, m) => (.raises exception, m)
    | (_, m) => (.aborts, m)
  write m addr size value :=
    match m.attempt (.write addr size value) with
    | (.stored, m) => (.done (), m)
    | (.raised exception, m) => (.raises exception, m)
    | (_, m) => (.aborts, m)

/-! ## Contents -/

theorem Backs.contents_inside (backs : Backs m bytes) {a : Nat} (inside : a < m.space.numPages.toNat * 128) :
    m.contents a = bytes a := by
  have split : a / 128 * 128 + a % 128 = a := by omega
  have page : a / 128 < m.space.numPages.toNat := by omega
  unfold Paged.contents
  rw [if_pos inside]
  cases found : m.space.pageTable.search (a / 128) with
  | some i =>
    have here := search_some found
    have stored := backs.present i (backs.holds (here.trans_lt page)) (a % 128) (by omega)
    rw [here, split] at stored
    exact stored
  | none =>
    have stored := backs.absent (a / 128) page (search_none.mp found) (a % 128) (by omega)
    rw [split] at stored
    exact stored

theorem contents_outside {a : Nat} (outside : m.space.numPages.toNat * 128 ≤ a) : m.contents a = 0 :=
  if_neg (Nat.not_lt.mpr outside)

theorem Backs.contents (backs : Backs m bytes) : Backs m m.contents := by
  refine { backs with present := fun i holds o bound => ?_, absent := fun v inside missing o bound => ?_ }
  · have page := backs.pages i holds
    rw [backs.contents_inside (by omega)]
    exact backs.present i holds o bound
  · rw [backs.contents_inside (by omega)]
    exact backs.absent v inside missing o bound

/-- The contents of a memory that stands for those of another. -/
theorem Backs.contents_eq (backs : Backs m' m.contents)
    (pages : m'.space.numPages = m.space.numPages) : m'.contents = m.contents := by
  funext a
  by_cases inside : a < m'.space.numPages.toNat * 128
  · exact backs.contents_inside inside
  · have outside := Nat.le_of_not_lt inside
    rw [contents_outside outside, contents_outside (pages ▸ outside)]

/-! ## Accesses -/

/-- An access is refused, or does what it does to a flat memory. -/
theorem Backs.attempt_cases (backs : Backs m bytes) {access : Access} (sized : Sized access.size) :
    (∃ exception, m.attempt access = (.raised exception, m)) ∨
      ¬ access.Illegal (m.space.numPages.toNat * 128) ∧
        ∃ after, m.attempt access = ((flatAccess (m.space.numPages.toNat * 128) bytes access).1, after) ∧
          Backs after (flatAccess (m.space.numPages.toNat * 128) bytes access).2 ∧
          after.space.numPages = m.space.numPages := by
  by_cases illegal : access.Illegal (m.space.numPages.toNat * 128)
  · exact .inl ⟨_, attempt_raises fun writing => translate_illegal sized illegal⟩
  · obtain ⟨aligned, inside⟩ := not_or.mp illegal
    cases found : m.space.pageTable.search (access.addr.toNat / 128) with
    | some i => exact .inr ⟨illegal, backs.attempt_present sized illegal found⟩
    | none =>
      have missing := search_none.mp found
      exact .inl ⟨_, attempt_raises fun writing =>
        translate_absent sized (not_not.mp aligned) (Nat.lt_of_not_le inside) missing⟩

theorem paged_read_done (valid : Backs m m.contents) (sized : Sized size) {value : BitVec 32}
    (answered : pagedSystem.read m addr size = (.done value, m')) :
    fetch m.contents addr.toNat size = some value ∧ m'.contents = m.contents ∧ Backs m' m'.contents := by
  unfold pagedSystem at answered
  dsimp only at answered
  obtain ⟨exception, refused⟩ | ⟨legal, after, done, backs, pages⟩ :=
    valid.attempt_cases (show Sized (Access.read addr size).size from sized)
  · rw [refused] at answered
    cases answered
  · obtain ⟨word, fetched⟩ := exists_fetch sized m.contents addr.toNat
    unfold flatAccess at done backs
    rw [if_neg legal] at done backs
    dsimp only at done backs
    rw [fetched] at done backs
    rw [done] at answered
    cases answered
    exact ⟨fetched, backs.contents_eq pages, backs.contents⟩

theorem paged_write_done (valid : Backs m m.contents) (sized : Sized size) {value : BitVec 32}
    (answered : pagedSystem.write m addr size value = (.done (), m')) :
    Machine.store m.contents addr.toNat value size = some m'.contents ∧ Backs m' m'.contents := by
  unfold pagedSystem at answered
  dsimp only at answered
  obtain ⟨exception, refused⟩ | ⟨legal, after, done, backs, pages⟩ :=
    valid.attempt_cases (show Sized (Access.write addr size value).size from sized)
  · rw [refused] at answered
    cases answered
  · obtain ⟨aligned, inside⟩ := not_or.mp legal
    have aligned : addr.toNat % size = 0 := not_not.mp aligned
    have inside : addr.toNat < m.space.numPages.toNat * 128 := Nat.lt_of_not_le inside
    have offset := legal_offset sized aligned
    unfold flatAccess at done backs
    rw [if_neg legal] at done backs
    dsimp only at done backs
    rw [store_eq sized] at done backs ⊢
    rw [done] at answered
    cases answered
    refine ⟨congrArg some (funext fun a => ?_), backs.contents⟩
    by_cases small : a < m'.space.numPages.toNat * 128
    · exact (backs.contents_inside small).symm
    · have large := Nat.le_of_not_lt small
      rw [contents_outside large]
      rw [pages] at large
      rw [Memory.splice_outside (by omega), contents_outside large]

/-- An access that faults changes nothing, and the handler brings in its page. -/
theorem faulted_access (valid : Backs m m.contents) {access : Access}
    (faulted : m.attempt access = (.raised .PageFaultException, m')) (sized : Sized access.size) :
    m' = m ∧ Backs (m.PageFault access.addr) (m.PageFault access.addr).contents ∧
      (m.PageFault access.addr).contents = m.contents := by
  by_cases illegal : access.Illegal (m.space.numPages.toNat * 128)
  · rw [attempt_raises fun writing => translate_illegal sized illegal] at faulted
    cases faulted
  · have inside := Nat.lt_of_not_le (not_or.mp illegal).2
    cases found : m.space.pageTable.search (access.addr.toNat / 128) with
    | some i =>
      obtain ⟨after, answered, -⟩ := valid.attempt_present sized illegal found
      rw [answered] at faulted
      exact absurd (Prod.mk.inj faulted).1 (flatAccess_answers _ _ _)
    | none =>
      have missing := search_none.mp found
      have aligned := not_not.mp (not_or.mp illegal).1
      rw [attempt_raises fun writing => translate_absent sized aligned inside missing] at faulted
      obtain ⟨-, mapped, pages, -⟩ := valid.faults inside missing
      exact ⟨(Prod.mk.inj faulted).2.symm, mapped.contents, mapped.contents_eq pages⟩

theorem paged_read_faulted (faulted : pagedSystem.read m addr size = (.raises .PageFaultException, m')) :
    m.attempt (.read addr size) = (.raised .PageFaultException, m') := by
  unfold pagedSystem at faulted
  dsimp only at faulted
  rcases result : m.attempt (.read addr size) with ⟨value | _ | exception | _, after⟩
  · rw [result] at faulted
    cases faulted
  · rw [result] at faulted
    cases faulted
  · rw [result] at faulted
    cases faulted
    rfl
  · rw [result] at faulted
    cases faulted

theorem paged_write_faulted {value : BitVec 32}
    (faulted : pagedSystem.write m addr size value = (.raises .PageFaultException, m')) :
    m.attempt (.write addr size value) = (.raised .PageFaultException, m') := by
  unfold pagedSystem at faulted
  dsimp only at faulted
  rcases result : m.attempt (.write addr size value) with ⟨value | _ | exception | _, after⟩
  · rw [result] at faulted
    cases faulted
  · rw [result] at faulted
    cases faulted
  · rw [result] at faulted
    cases faulted
    rfl
  · rw [result] at faulted
    cases faulted

/-- The memory of a program that is paged in on demand. -/
def pagedMemory : LogicalMemory pagedSystem where
  contents := Paged.contents
  Valid m := Backs m m.contents
  read_done valid sized answered := paged_read_done valid sized answered
  read_fault valid sized faulted := by
    obtain ⟨rfl, -⟩ := faulted_access valid (paged_read_faulted faulted) sized
    exact ⟨rfl, valid⟩
  write_done valid sized answered := paged_write_done valid sized answered
  write_fault valid sized faulted := by
    obtain ⟨rfl, -⟩ := faulted_access valid (paged_write_faulted faulted) sized
    exact ⟨rfl, valid⟩

/-- The handler services every fault of an access. -/
theorem paged_serviced (valid : Backs m m.contents) (faults : Faults pagedSystem m addr m') :
    Backs (m'.PageFault addr) (m'.PageFault addr).contents ∧ (m'.PageFault addr).contents = m'.contents := by
  obtain ⟨size, sized, read | ⟨value, write⟩⟩ := faults
  · obtain ⟨rfl, mapped, same⟩ := faulted_access valid (paged_read_faulted read) sized
    exact ⟨mapped, same⟩
  · obtain ⟨rfl, mapped, same⟩ := faulted_access valid (paged_write_faulted write) sized
    exact ⟨mapped, same⟩

/-- So an instruction that faults goes on from what `ExceptionHandler` leaves. -/
theorem paged_restart {s after : Cpu Paged} {trace : List Observation} (ready : Ready pagedMemory s)
    (faulted : OneInstruction.run (handle pagedSystem) s = .stopped (.exception .PageFaultException) after)
    (rest : Run pagedMemory
      { after with memory := after.memory.PageFault (after.registers BadVAddrReg) } trace) :
    Run pagedMemory s trace := by
  have inside := ready.load.trans_le (show NumGPRegs ≤ NumTotalRegs by decide)
  obtain ⟨badVAddr, before, registers, valid, -, faults⟩ :=
    restarts_OneInstruction.fault pagedMemory ready.valid inside faulted
  have here : after.registers BadVAddrReg = badVAddr := by
    have target : BadVAddrReg ≠ (s.registers LoadReg).toNat :=
      fun same => absurd (same ▸ ready.load) (by decide)
    rw [registers, delayed_other (by decide) (by decide) (by decide), Function.update_self,
      Function.update_of_ne (by decide), if_neg target]
  obtain ⟨mapped, same⟩ := paged_serviced valid faults
  rw [← here] at mapped same
  exact .fault faulted mapped same rest

/-! ## One instruction that is not in memory -/

/-- A program of zeros, `SLL r0,r0,0`, that has not been paged in. -/
def zeros : Paged := { onePage with file := { length := 128, bytes := fun _ => 0 } }

theorem zeros_backs : Backs zeros fun _ => 0 := by
  have fresh : zeros.Fresh := ⟨fun _ => rfl, rfl, by decide, rfl⟩
  exact fresh.backs

theorem blank_missing (i : Fin NumPhysPages) : (blankTable i).virtualPage.toNat ≠ 0 := by
  show (-1 : BitVec 32).toNat ≠ 0
  decide

theorem zeros_faults : pagedSystem.read zeros 0 4 = (.raises .PageFaultException, zeros) := by
  have refused : zeros.attempt (.read 0 4) = (.raised .PageFaultException, zeros) :=
    attempt_raises fun writing => translate_absent (.inr (.inr rfl)) rfl (by decide) blank_missing
  unfold pagedSystem
  dsimp only
  rw [refused]

theorem zeros_fetched : ∃ m', pagedSystem.read (zeros.PageFault 0) 0 4 = (.done 0, m') := by
  have inside : (0 : BitVec 32).toNat < zeros.space.numPages.toNat * 128 := by decide
  obtain ⟨-, mapped, pages, i, page⟩ := zeros_backs.faults inside blank_missing
  have legal : ¬ (Access.read 0 4).Illegal ((zeros.PageFault 0).space.numPages.toNat * 128) := by
    rw [pages]
    decide
  have sized : Sized (Access.read 0 4).size := .inr (.inr rfl)
  obtain ⟨j, found⟩ : ∃ j, (zeros.PageFault 0).space.pageTable.search 0 = some j := by
    apply Option.ne_none_iff_exists'.mp
    exact fun none => search_none.mp none i page
  obtain ⟨after, answered, -⟩ := mapped.attempt_present sized legal found
  unfold flatAccess at answered
  rw [if_neg legal] at answered
  refine ⟨after, ?_⟩
  unfold pagedSystem
  dsimp only
  rw [answered]
  rfl

theorem zero_completes {s : Cpu Paged} {m' : Paged} (inside : (s.registers LoadReg).toNat < NumTotalRegs)
    (fetched : pagedSystem.read s.memory (s.registers PCReg) 4 = (.done 0, m')) :
    ∃ after, OneInstruction.run (handle pagedSystem) s = .done () after := by
  have shifts : ∀ pc, execute (Decode 0) pc = (do unary 0 0 (· <<< 0); return .to pc) := fun _ => rfl
  have run : ∀ (s : Cpu Paged) pc, (execute (Decode 0) pc).run (handle pagedSystem) s = .done (.to pc)
      { s with registers := Function.update s.registers 0 (s.registers 0 <<< 0) } := by
    intro s pc
    rw [shifts]
    exact (run_get (by decide)).trans (run_set (by decide))
  rw [run_OneInstruction, fetched]
  dsimp only
  rw [run_perform, Program.run_bind, run]
  refine ⟨_, run_finish ?_⟩
  dsimp only
  rw [Function.update_of_ne (by decide)]
  exact inside

/-- From there a fault and one instruction are observed as one instruction. -/
theorem zeros_run {s : Cpu Paged} (ready : Ready pagedMemory s) (memory : s.memory = zeros)
    (pc : s.registers PCReg = 0) : ∃ o, Run pagedMemory s [o] := by
  have inside := ready.load.trans_le (show NumGPRegs ≤ NumTotalRegs by decide)
  let registers := Registers.delayed (Function.update s.registers BadVAddrReg 0) 0 0
  have faulted : OneInstruction.run (handle pagedSystem) s =
      .stopped (.exception .PageFaultException) ⟨registers, zeros⟩ := by
    rw [run_OneInstruction, memory, pc, zeros_faults]
    exact run_RaiseException inside
  have kept : ∀ i, NumGPRegs ≤ i → i ≠ LoadReg → i ≠ LoadValueReg →
      registers i = Function.update s.registers BadVAddrReg 0 i := by
    intro i special notLoad notValue
    have target : i ≠ (Function.update s.registers BadVAddrReg 0 LoadReg).toNat := by
      rw [Function.update_of_ne (by decide)]
      exact fun same => absurd (same ▸ ready.load) (not_lt.mpr special)
    refine (delayed_other ?_ notLoad notValue).trans (if_neg target)
    rintro rfl
    exact absurd special (by decide)
  have bad : registers BadVAddrReg = 0 := kept BadVAddrReg (by decide) (by decide) (by decide)
  have same : registers PCReg = 0 := (kept PCReg (by decide) (by decide) (by decide)).trans pc
  have load : (registers LoadReg).toNat < NumTotalRegs := by
    rw [show registers LoadReg = 0 from delayed_LoadReg ..]
    decide
  obtain ⟨m', fetched⟩ := zeros_fetched
  have again : pagedSystem.read (zeros.PageFault 0) (registers PCReg) 4 = (.done 0, m') := by
    rw [same]
    exact fetched
  obtain ⟨after, done⟩ := zero_completes (s := ⟨registers, zeros.PageFault 0⟩) load again
  refine ⟨observe pagedMemory after, paged_restart ready faulted ?_⟩
  dsimp only
  rw [bad]
  exact .completes done (.stop after)

/-- A fetch that faults, with and without an interrupt before it. -/
theorem restarted_fetch_invisible : ∃ o o',
    Run pagedMemory { registers := fun _ => 0, memory := zeros } [o] ∧
      Run pagedMemory { registers := fun _ => 0, memory := zeros } [o'] ∧ [o'] <+: [o] := by
  have ready : Ready pagedMemory { registers := fun _ => 0, memory := zeros } :=
    ⟨rfl, by decide, zeros_backs.contents⟩
  obtain ⟨o, run⟩ := zeros_run ready rfl rfl
  have fired : (DelayedLoad 0 0 >>= Program.pure).run (handle pagedSystem) ⟨fun _ => 0, zeros⟩ = _ :=
    run_DelayedLoad (by decide)
  obtain ⟨o', run'⟩ := zeros_run (ready.interrupt fired).1 rfl rfl
  refine ⟨o, o', run, .interrupt fired run', ?_⟩
  exact interrupts_and_faults_invisible ready ready rfl rfl run (.interrupt fired run')
    ⟨fun nonzero => absurd rfl nonzero, trivial⟩ le_rfl

end Nachos.Paging
