import Nachos.Userprog.PagedRestart
import Nachos.Userprog.PagingAmongOthers

/-! `Machine::Run` for a program whose pages are brought in on demand: one instruction
after the other, and the page fault handler where a page is missing. Each instruction that
is completed does what it does to a flat memory. Whether it is ever completed depends on
the frames that are left. -/
namespace Nachos.Paging
open Effects Machine Mips

/-! ## Accesses and frames -/

namespace Paged

/-- The same pages are in the same frames. -/
structure SameFrames (m m' : Paged) : Prop where
  bitmap : m'.bitmap = m.bitmap
  numPages : m'.space.numPages = m.space.numPages
  pages (i : Fin NumPhysPages) : (m'.space.pageTable i).virtualPage = (m.space.pageTable i).virtualPage

theorem SameFrames.refl (m : Paged) : SameFrames m m := ⟨rfl, rfl, fun _ => rfl⟩

theorem SameFrames.trans {m m' m'' : Paged} (first : SameFrames m m') (second : SameFrames m' m'') :
    SameFrames m m'' :=
  ⟨second.bitmap.trans first.bitmap, second.numPages.trans first.numPages,
    fun i => (second.pages i).trans (first.pages i)⟩

theorem SameFrames.resident_iff {m m' : Paged} (same : SameFrames m m') (addr : BitVec 32) :
    m'.Resident addr ↔ m.Resident addr := by
  unfold Resident
  simp only [same.pages]

/-- The memory stands for its contents. -/
structure Kept (m : Paged) : Prop where
  keeps : Keeps m m.contents
  writable : m.Writable

end Paged

section Accesses
variable {m m' : Paged} {bytes : Memory} {access : Access}

theorem translate_touches {table table' : PageTable} {numPages addr : BitVec 32} {size p : Nat} {writing : Bool}
    (done : Translate table numPages addr size writing = .done (p, table')) :
    ∃ i dirty, table' = touched table i dirty := by
  unfold Translate at done
  dsimp only at done
  split at done
  · cases done
  split at done
  · cases done
  split at done
  · cases done
  split at done
  · cases done
  split at done
  · cases done
  split at done
  · cases done
    exact ⟨_, _, rfl⟩
  · cases done

theorem sameFrames_touched (table : PageTable) (i : Fin NumPhysPages) (dirty : Bool) {mainMemory : Memory}
    (same : table = m.space.pageTable) :
    m.SameFrames { m with mainMemory := mainMemory, space := { m.space with pageTable := touched table i dirty } } := by
  subst same
  exact ⟨rfl, rfl, fun j => (touched_entry _ i dirty j).1⟩

/-- An access leaves the pages where they are. -/
theorem attempt_sameFrames (m : Paged) (access : Access) : m.SameFrames (m.attempt access).2 := by
  cases access with
  | read addr size =>
    unfold Paged.attempt Machine.ReadMem
    dsimp only
    cases translated : Translate m.space.pageTable m.space.numPages addr size false with
    | raises exception => exact .refl m
    | aborts => exact .refl m
    | done result =>
      obtain ⟨i, dirty, same⟩ := translate_touches translated
      dsimp only
      cases fetch m.mainMemory result.1 size with
      | none => exact .refl m
      | some value =>
        dsimp only
        rw [same]
        exact sameFrames_touched _ i dirty rfl
  | write addr size value =>
    unfold Paged.attempt Machine.WriteMem
    dsimp only
    cases translated : Translate m.space.pageTable m.space.numPages addr size true with
    | raises exception => exact .refl m
    | aborts => exact .refl m
    | done result =>
      obtain ⟨i, dirty, same⟩ := translate_touches translated
      dsimp only
      cases Machine.store m.mainMemory result.1 value size with
      | none => exact .refl m
      | some mainMemory =>
        dsimp only
        rw [same]
        exact sameFrames_touched _ i dirty rfl

/-! ## Contents -/

theorem Keeps.contents_inside (keeps : Keeps m bytes) {a : Nat} (inside : a < m.space.numPages.toNat * 128) :
    m.contents a = bytes a := by
  have split : a / 128 * 128 + a % 128 = a := by omega
  have page : a / 128 < m.space.numPages.toNat := by omega
  unfold Paged.contents
  rw [if_pos inside]
  cases found : m.space.pageTable.search (a / 128) with
  | some i =>
    have here := search_some found
    have stored := keeps.present i (keeps.holds (here.trans_lt page)) (a % 128) (by omega)
    rw [here, split] at stored
    exact stored
  | none =>
    have missing := search_none.mp found
    have stored := keeps.stored (a / 128) page (fun i here => absurd here (missing i)) (a % 128) (by omega)
    rw [split] at stored
    exact stored

/-- A memory that stands for some bytes has them as its contents. -/
theorem Keeps.contents (keeps : Keeps m bytes) : Keeps m m.contents := by
  have same : ∀ v o, v < m.space.numPages.toNat → o < 128 → m.contents (v * 128 + o) = bytes (v * 128 + o) :=
    fun v o page offset => keeps.contents_inside (by omega)
  refine { keeps with present := fun i holds o bound => ?_, stored := fun v inside clean o bound => ?_ }
  · rw [same _ o (keeps.pages i holds) bound]
    exact keeps.present i holds o bound
  · rw [same v o inside bound]
    exact keeps.stored v inside clean o bound

theorem Keeps.contents_eq (keeps : Keeps m' m.contents) (pages : m'.space.numPages = m.space.numPages) :
    m'.contents = m.contents := by
  funext a
  by_cases inside : a < m'.space.numPages.toNat * 128
  · exact keeps.contents_inside inside
  · have outside := Nat.le_of_not_lt inside
    rw [contents_outside outside, contents_outside (pages ▸ outside)]

/-! ## One access -/

/-- A legal access does nothing to what lies behind the space. -/
theorem flatAccess_outside {length a : Nat} (sized : Sized access.size) (whole : length % 128 = 0)
    (outside : length ≤ a) : (flatAccess length bytes access).2 a = bytes a := by
  by_cases illegal : access.Illegal length
  · unfold flatAccess
    rw [if_pos illegal]
  · refine flatAccess_spares sized fun stores => ?_
    cases access with
    | read => exact stores
    | write addr size value =>
      obtain ⟨aligned, inside⟩ := not_or.mp illegal
      have aligned : addr.toNat % size = 0 := not_not.mp aligned
      have inside : addr.toNat < length := Nat.lt_of_not_le inside
      have sized : Sized size := sized
      have offset := legal_offset sized aligned
      obtain ⟨low, high⟩ := stores
      omega

/-- An access is refused, misses its page, or does what it does to the contents. -/
theorem Paged.Kept.attempt (kept : m.Kept) (sized : Sized access.size) :
    (access.Illegal (m.space.numPages.toNat * 128) ∧ m.attempt access = (.raised .AddressErrorException, m)) ∨
    (¬ access.Illegal (m.space.numPages.toNat * 128) ∧ ¬ m.Resident access.addr ∧
      m.attempt access = (.raised .PageFaultException, m)) ∨
    (¬ access.Illegal (m.space.numPages.toNat * 128) ∧ m.Resident access.addr ∧
      ∃ m', m.attempt access = ((flatAccess (m.space.numPages.toNat * 128) m.contents access).1, m') ∧
        m'.Kept ∧ m'.contents = (flatAccess (m.space.numPages.toNat * 128) m.contents access).2) := by
  by_cases illegal : access.Illegal (m.space.numPages.toNat * 128)
  · exact .inl ⟨illegal, attempt_raises fun writing => translate_illegal sized illegal⟩
  obtain ⟨aligned, inside⟩ := not_or.mp illegal
  by_cases resident : m.Resident access.addr
  · obtain ⟨m', answered, keeps, writable, pages⟩ := kept.keeps.attempt_legal kept.writable sized illegal resident
    refine .inr (.inr ⟨illegal, resident, m', answered, ⟨keeps.contents, writable⟩, funext fun a => ?_⟩)
    by_cases here : a < m'.space.numPages.toNat * 128
    · exact keeps.contents_inside here
    · have outside := Nat.le_of_not_lt here
      rw [contents_outside outside]
      rw [pages] at outside
      rw [flatAccess_outside sized (Nat.mul_mod_left ..) outside, contents_outside outside]
  · have missing : ∀ i, (m.space.pageTable i).virtualPage.toNat ≠ access.addr.toNat / 128 := fun i here =>
      resident ⟨i, here⟩
    exact .inr (.inl ⟨illegal, resident, attempt_raises fun writing =>
      translate_absent sized (not_not.mp aligned) (Nat.lt_of_not_le inside) missing⟩)

/-- The page fault handler brings in the page. -/
theorem Paged.Kept.faults (kept : m.Kept) {addr : BitVec 32} (inside : addr.toNat < m.space.numPages.toNat * 128)
    (missing : ¬ m.Resident addr) : (m.PageFault addr).Kept ∧ (m.PageFault addr).contents = m.contents ∧
      (m.PageFault addr).space.numPages = m.space.numPages := by
  obtain ⟨keeps, pages, -⟩ := kept.keeps.faults inside missing
  exact ⟨⟨keeps.contents, kept.writable.faults addr⟩, keeps.contents_eq pages, pages⟩

end Accesses

/-! ## The memory that the program sees -/

/-- `ReadMem` and `WriteMem` of a memory of so many bytes with nothing behind it. -/
def flatSystem (length : Nat) : MemorySystem Memory where
  read bytes addr size :=
    match flatAccess length bytes (.read addr size) with
    | (.value value, bytes) => (.done value, bytes)
    | (.raised exception, bytes) => (.raises exception, bytes)
    | (_, bytes) => (.aborts, bytes)
  write bytes addr size value :=
    match flatAccess length bytes (.write addr size value) with
    | (.stored, bytes) => (.done (), bytes)
    | (.raised exception, bytes) => (.raises exception, bytes)
    | (_, bytes) => (.aborts, bytes)

section Seen
variable {m m' : Paged} {bytes bytes' : Memory} {addr value : BitVec 32} {size length : Nat}

theorem flatSystem_read_done (done : (flatSystem length).read bytes addr size = (.done value, bytes')) :
    fetch bytes addr.toNat size = some value ∧ bytes' = bytes := by
  unfold flatSystem flatAccess at done
  dsimp only at done
  split_ifs at done
  · cases done
  · cases fetched : fetch bytes addr.toNat size with
    | none =>
      rw [fetched] at done
      cases done
    | some word =>
      rw [fetched] at done
      cases done
      exact ⟨rfl, rfl⟩

theorem flatSystem_write_done (done : (flatSystem length).write bytes addr size value = (.done (), bytes')) :
    Machine.store bytes addr.toNat value size = some bytes' := by
  unfold flatSystem flatAccess at done
  dsimp only at done
  split_ifs at done
  · cases done
  · cases stored : Machine.store bytes addr.toNat value size with
    | none =>
      rw [stored] at done
      cases done
    | some after =>
      rw [stored] at done
      cases done
      rfl

/-- No access to a bounded memory faults. -/
theorem flatSystem_read_raises {exception : ExceptionType}
    (raises : (flatSystem length).read bytes addr size = (.raises exception, bytes')) :
    exception = .AddressErrorException := by
  unfold flatSystem flatAccess at raises
  dsimp only at raises
  split_ifs at raises
  · cases raises
    rfl
  · cases fetched : fetch bytes addr.toNat size with
    | none =>
      rw [fetched] at raises
      cases raises
    | some word =>
      rw [fetched] at raises
      cases raises

theorem flatSystem_write_raises {exception : ExceptionType}
    (raises : (flatSystem length).write bytes addr size value = (.raises exception, bytes')) :
    exception = .AddressErrorException := by
  unfold flatSystem flatAccess at raises
  dsimp only at raises
  split_ifs at raises
  · cases raises
    rfl
  · cases stored : Machine.store bytes addr.toNat value size with
    | none =>
      rw [stored] at raises
      cases raises
    | some after =>
      rw [stored] at raises
      cases raises

/-- A read that does not miss its page is one of the contents. -/
theorem Paged.Kept.read (kept : m.Kept) (sized : Sized size) :
    (¬ (Access.read addr size).Illegal (m.space.numPages.toNat * 128) ∧ ¬ m.Resident addr ∧
      pagedSystem.read m addr size = (.raises .PageFaultException, m)) ∨
    ((¬ (Access.read addr size).Illegal (m.space.numPages.toNat * 128) → m.Resident addr) ∧
      ∃ m', pagedSystem.read m addr size =
          (((flatSystem (m.space.numPages.toNat * 128)).read m.contents addr size).1, m') ∧
        m'.Kept ∧ m.SameFrames m' ∧
        m'.contents = ((flatSystem (m.space.numPages.toNat * 128)).read m.contents addr size).2) := by
  have frames := attempt_sameFrames m (.read addr size)
  unfold pagedSystem flatSystem
  dsimp only
  obtain ⟨illegal, refused⟩ | ⟨legal, missing, refused⟩ | ⟨legal, resident, m', answered, kept', contents⟩ :=
    kept.attempt (show Sized (Access.read addr size).size from sized)
  · refine .inr ⟨fun legal => absurd illegal legal, m, ?_⟩
    unfold flatAccess
    rw [refused, if_pos illegal]
    exact ⟨rfl, kept, .refl m, rfl⟩
  · refine .inl ⟨legal, missing, ?_⟩
    rw [refused]
  · refine .inr ⟨fun _ => resident, m', ?_⟩
    rw [answered] at frames
    obtain ⟨word, fetched⟩ := exists_fetch sized m.contents addr.toNat
    unfold flatAccess at answered contents ⊢
    rw [if_neg legal] at answered contents ⊢
    dsimp only at answered contents ⊢
    rw [fetched] at answered contents ⊢
    rw [answered]
    exact ⟨rfl, kept', frames, contents⟩

theorem Paged.Kept.write (kept : m.Kept) (sized : Sized size) :
    (¬ (Access.write addr size value).Illegal (m.space.numPages.toNat * 128) ∧ ¬ m.Resident addr ∧
      pagedSystem.write m addr size value = (.raises .PageFaultException, m)) ∨
    ((¬ (Access.write addr size value).Illegal (m.space.numPages.toNat * 128) → m.Resident addr) ∧
      ∃ m', pagedSystem.write m addr size value =
          (((flatSystem (m.space.numPages.toNat * 128)).write m.contents addr size value).1, m') ∧
        m'.Kept ∧ m.SameFrames m' ∧
        m'.contents = ((flatSystem (m.space.numPages.toNat * 128)).write m.contents addr size value).2) := by
  have frames := attempt_sameFrames m (.write addr size value)
  unfold pagedSystem flatSystem
  dsimp only
  obtain ⟨illegal, refused⟩ | ⟨legal, missing, refused⟩ | ⟨legal, resident, m', answered, kept', contents⟩ :=
    kept.attempt (show Sized (Access.write addr size value).size from sized)
  · refine .inr ⟨fun legal => absurd illegal legal, m, ?_⟩
    unfold flatAccess
    rw [refused, if_pos illegal]
    exact ⟨rfl, kept, .refl m, rfl⟩
  · refine .inl ⟨legal, missing, ?_⟩
    rw [refused]
  · refine .inr ⟨fun _ => resident, m', ?_⟩
    rw [answered] at frames
    have stored := store_eq sized m.contents addr.toNat value
    unfold flatAccess at answered contents ⊢
    rw [if_neg legal] at answered contents ⊢
    dsimp only at answered contents ⊢
    rw [stored] at answered contents ⊢
    rw [answered]
    exact ⟨rfl, kept', frames, contents⟩

/-- The memory of a program that is paged in on demand, whichever frames others have. -/
def keptMemory : LogicalMemory pagedSystem where
  contents := Paged.contents
  Valid := Paged.Kept
  read_done valid sized answered := by
    obtain ⟨-, -, refused⟩ | ⟨-, m', same, kept, -, contents⟩ := valid.read sized
    · rw [refused] at answered
      cases answered
    · rw [same] at answered
      obtain ⟨first, rfl⟩ := Prod.mk.inj answered
      obtain ⟨fetched, unchanged⟩ := flatSystem_read_done (Prod.ext first rfl)
      exact ⟨fetched, contents.trans unchanged, kept⟩
  read_fault valid sized faulted := by
    obtain ⟨-, -, refused⟩ | ⟨-, m', same, -⟩ := valid.read sized
    · rw [refused] at faulted
      cases faulted
      exact ⟨rfl, valid⟩
    · rw [same] at faulted
      have raised := flatSystem_read_raises (Prod.ext (Prod.mk.inj faulted).1 rfl)
      cases raised
  write_done valid sized answered := by
    obtain ⟨-, -, refused⟩ | ⟨-, m', same, kept, -, contents⟩ := valid.write sized
    · rw [refused] at answered
      cases answered
    · rw [same] at answered
      obtain ⟨first, rfl⟩ := Prod.mk.inj answered
      have stored := flatSystem_write_done (Prod.ext first rfl)
      rw [contents]
      exact ⟨stored, kept⟩
  write_fault valid sized faulted := by
    obtain ⟨-, -, refused⟩ | ⟨-, m', same, -⟩ := valid.write sized
    · rw [refused] at faulted
      cases faulted
      exact ⟨rfl, valid⟩
    · rw [same] at faulted
      have raised := flatSystem_write_raises (Prod.ext (Prod.mk.inj faulted).1 rfl)
      cases raised

end Seen

/-! ## The pages of an instruction -/

/-- What follows an access that is answered. -/
def afterAnswer {A : Type} (next : A → Memory → List Access) : Machine.Outcome A × Memory → List Access
  | (.done value, bytes) => next value bytes
  | _ => []

/-- The accesses that a program makes on a bounded memory. -/
def accesses {A : Type} (length : Nat) : Exec A → Cpu Memory → List Access
  | .pure _, _ => []
  | .stop _, _ => []
  | .request (.get i) next, o =>
    if i < NumTotalRegs then accesses length (next (o.registers i)) o else []
  | .request (.set i value) next, o =>
    if i < NumTotalRegs then
      accesses length (next ()) { o with registers := Function.update o.registers i value }
    else []
  | .request (.read addr size) next, o =>
    .read addr size :: afterAnswer
      (fun value bytes => accesses length (next (.ok value)) { o with memory := bytes })
      ((flatSystem length).read o.memory addr size)
  | .request (.write addr size value) next, o =>
    .write addr size value :: afterAnswer
      (fun _ bytes => accesses length (next (.ok ())) { o with memory := bytes })
      ((flatSystem length).write o.memory addr size value)

/-- The machine has the registers and the contents of the flat one; the address of an
exception is of no account. -/
structure Alike (s : Cpu Paged) (o : Cpu Memory) : Prop where
  kept : s.memory.Kept
  memory : o.memory = s.memory.contents
  registers (i : Nat) : i ≠ BadVAddrReg → s.registers i = o.registers i

/-- Both end in the same way, and the frames are as they were. -/
inductive Together {A : Type} (m : Paged) :
    Effects.Outcome Stop (Cpu Paged) A → Effects.Outcome Stop (Cpu Memory) A → Prop where
  | done {value : A} {s : Cpu Paged} {o : Cpu Memory} (alike : Alike s o) (frames : m.SameFrames s.memory) :
      Together m (.done value s) (.done value o)
  | stopped {reason : Stop} {s : Cpu Paged} {o : Cpu Memory} (alike : Alike s o)
      (frames : m.SameFrames s.memory) : Together m (.stopped reason s) (.stopped reason o)

/-- An access of the program misses its page. -/
def Misses {A : Type} (program : Exec A) (s : Cpu Paged) (o : Cpu Memory) : Prop :=
  ∃ access ∈ accesses (s.memory.space.numPages.toNat * 128) program o,
    ¬ access.Illegal (s.memory.space.numPages.toNat * 128) ∧ ¬ s.memory.Resident access.addr ∧
      ∃ after, program.run (handle pagedSystem) s = .stopped (.exception .PageFaultException) after ∧
        after.registers BadVAddrReg = access.addr ∧ s.memory.SameFrames after.memory

/-- The pages of all accesses of the program are there, and it does what it does on the
flat memory. -/
def Meets {A : Type} (program : Exec A) (s : Cpu Paged) (o : Cpu Memory) : Prop :=
  (∀ access ∈ accesses (s.memory.space.numPages.toNat * 128) program o,
    ¬ access.Illegal (s.memory.space.numPages.toNat * 128) → s.memory.Resident access.addr) ∧
  Together s.memory (program.run (handle pagedSystem) s)
    (program.run (handle (flatSystem (s.memory.space.numPages.toNat * 128))) o)

section Programs
variable {A B : Type} {s : Cpu Paged} {o : Cpu Memory} {i size length : Nat} {addr value : Word}

theorem Alike.set (alike : Alike s o) :
    Alike { s with registers := Function.update s.registers i value }
      { o with registers := Function.update o.registers i value } := by
  refine ⟨alike.kept, alike.memory, fun j seen => ?_⟩
  dsimp only
  by_cases here : j = i
  · rw [here, Function.update_self, Function.update_self]
  · rw [Function.update_of_ne here, Function.update_of_ne here]
    exact alike.registers j seen

theorem Together.of_sameFrames {m m' : Paged} {r : Effects.Outcome Stop (Cpu Paged) A}
    {r' : Effects.Outcome Stop (Cpu Memory) A} (together : Together m' r r') (frames : m.SameFrames m') :
    Together m r r' := by
  cases together with
  | done alike own => exact .done alike (frames.trans own)
  | stopped alike own => exact .stopped alike (frames.trans own)

theorem accesses_read {next : Except ExceptionType Word → Exec A} :
    accesses length (.request (.read addr size) next) o = .read addr size :: afterAnswer
      (fun value bytes => accesses length (next (.ok value)) { o with memory := bytes })
      ((flatSystem length).read o.memory addr size) := by
  rw [accesses]

theorem accesses_write {next : Except ExceptionType Unit → Exec A} :
    accesses length (.request (.write addr size value) next) o = .write addr size value :: afterAnswer
      (fun _ bytes => accesses length (next (.ok ())) { o with memory := bytes })
      ((flatSystem length).write o.memory addr size value) := by
  rw [accesses]

theorem accesses_quiet {program : Exec A} (quiet : Mips.Quiet program) (o : Cpu Memory) :
    accesses length program o = [] := by
  induction quiet generalizing o with
  | pure => rfl
  | stop => rfl
  | @get i next rest ih =>
    unfold accesses
    split
    · exact ih _ o
    · rfl
  | @set i value next rest ih =>
    unfold accesses
    split
    · exact ih _
    · rfl

/-- What makes no accesses adds none. -/
theorem accesses_bind {next : A → Exec B} (none : ∀ value o, accesses length (next value) o = [])
    (program : Exec A) (o : Cpu Memory) : accesses length (program >>= next) o = accesses length program o := by
  induction program generalizing o with
  | pure value => exact none value o
  | stop => rfl
  | request e k ih =>
    cases e with
    | get i =>
      show (if i < NumTotalRegs then accesses length (k (o.registers i) >>= next) o else []) = _
      rw [ih]
      rfl
    | set i value =>
      show (if i < NumTotalRegs then accesses length (k () >>= next) _ else []) = _
      rw [ih]
      rfl
    | read addr size =>
      show _ :: afterAnswer (fun value _ => accesses length (k (.ok value) >>= next) _) _ = _
      simp only [ih]
      rfl
    | write addr size value =>
      show _ :: afterAnswer (fun _ _ => accesses length (k (.ok ()) >>= next) _) _ = _
      simp only [ih]
      rfl

/-- A program that returns has written no other registers. -/
theorem uses_keeps {M : Type} {system : MemorySystem M} {print : Footprint} {post : A → Prop} {program : Exec A}
    {result : A} {s after : Cpu M} (uses : Uses print post program) (other : ¬ print.writes i)
    (done : program.run (handle system) s = .done result after) :
    post result ∧ after.registers i = s.registers i := by
  induction uses generalizing s with
  | pure holds =>
    cases done
    exact ⟨holds, rfl⟩
  | raise => exact absurd done raise_not_done
  | stop => cases done
  | @get j next may rest ih =>
    by_cases there : j < NumTotalRegs
    · rw [run_get there] at done
      exact ih _ done
    · simp only [Program.run, handle, if_neg there] at done
      cases done
  | @set j value next may rest ih =>
    by_cases there : j < NumTotalRegs
    · rw [run_set there] at done
      have differ : i ≠ j := fun same => other (same ▸ may)
      obtain ⟨holds, kept⟩ := ih done
      exact ⟨holds, kept.trans (Function.update_of_ne differ ..)⟩
    · simp only [Program.run, handle, if_neg there] at done
      cases done
  | @read addr size next sized rest refused ih =>
    rw [run_read] at done
    rcases answered : system.read s.memory addr size with ⟨value | which | _, memory⟩
    · rw [answered] at done
      exact ih value (s := { s with memory := memory }) done
    · rw [answered] at done
      dsimp only at done
      rw [refused] at done
      exact absurd done raise_not_done
    · rw [answered] at done
      cases done
  | @write addr size value next sized rest refused ih =>
    rw [run_write] at done
    rcases answered : system.write s.memory addr size value with ⟨_ | which | _, memory⟩
    · rw [answered] at done
      exact ih (s := { s with memory := memory }) done
    · rw [answered] at done
      dsimp only at done
      rw [refused] at done
      exact absurd done raise_not_done
    · rw [answered] at done
      cases done

theorem accesses_raise {which : ExceptionType} {badVAddr : Word} (o : Cpu Memory) :
    accesses length (RaiseException which badVAddr : Exec A) o = [] := by
  have split : (RaiseException which badVAddr : Exec A) =
      (setReg BadVAddrReg badVAddr >>= fun _ => DelayedLoad 0 0) >>= fun _ => .stop (.exception which) := rfl
  rw [split, accesses_bind fun _ _ => rfl]
  exact accesses_quiet (quiet_setReg.bind fun _ => quiet_DelayedLoad) o

/-- The exception handler is called alike on both machines. -/
theorem meets_raise {which : ExceptionType} {badVAddr : Word} (alike : Alike s o)
    (general : (s.registers LoadReg).toNat < NumGPRegs) : Meets (RaiseException which badVAddr : Exec A) s o := by
  have same : Function.update s.registers BadVAddrReg badVAddr = Function.update o.registers BadVAddrReg badVAddr := by
    funext i
    by_cases here : i = BadVAddrReg
    · rw [here, Function.update_self, Function.update_self]
    · rw [Function.update_of_ne here, Function.update_of_ne here]
      exact alike.registers i here
  have inside : (s.registers LoadReg).toNat < NumTotalRegs := general.trans_le (by decide)
  have load := alike.registers LoadReg (by decide)
  refine ⟨fun access member => ?_, ?_⟩
  · rw [accesses_raise] at member
    cases member
  · rw [run_RaiseException inside, run_RaiseException (by rwa [← load]), same]
    exact .stopped ⟨alike.kept, alike.memory, fun _ _ => rfl⟩ (.refl _)

theorem meets_stop {reason : Stop} (alike : Alike s o) : Meets (.stop reason : Exec A) s o :=
  ⟨fun _ impossible => (by cases impossible), .stopped alike (.refl _)⟩

/-- An access is made, and the program goes on with `later`. -/
theorem goes_on {program later : Exec A} {s' : Cpu Paged} {o' : Cpu Memory} {access : Access}
    (frames : s.memory.SameFrames s'.memory)
    (there : ¬ access.Illegal (s.memory.space.numPages.toNat * 128) → s.memory.Resident access.addr)
    (log : accesses (s.memory.space.numPages.toNat * 128) program o =
      access :: accesses (s.memory.space.numPages.toNat * 128) later o')
    (ran : program.run (handle pagedSystem) s = later.run (handle pagedSystem) s')
    (ran' : program.run (handle (flatSystem (s.memory.space.numPages.toNat * 128))) o =
      later.run (handle (flatSystem (s.memory.space.numPages.toNat * 128))) o')
    (rest : Misses later s' o' ∨ Meets later s' o') : Misses program s o ∨ Meets program s o := by
  unfold Misses Meets at rest ⊢
  rw [frames.numPages] at rest
  rw [log, ran, ran']
  rcases rest with ⟨missed, member, legal, missing, after, faulted, bad, own⟩ | ⟨resident, together⟩
  · refine .inl ⟨missed, List.mem_cons_of_mem _ member, legal, ?_, after, faulted, bad, frames.trans own⟩
    rwa [← frames.resident_iff]
  · refine .inr ⟨fun one member legal => ?_, together.of_sameFrames frames⟩
    rcases List.mem_cons.mp member with rfl | later
    · exact there legal
    · exact (frames.resident_iff _).mp (resident one later legal)

/-- The first access misses its page. -/
theorem misses_first {program : Exec A} {access : Access} {log : List Access}
    (legal : ¬ access.Illegal (s.memory.space.numPages.toNat * 128)) (missing : ¬ s.memory.Resident access.addr)
    (first : accesses (s.memory.space.numPages.toNat * 128) program o = access :: log)
    (general : (s.registers LoadReg).toNat < NumGPRegs)
    (ran : program.run (handle pagedSystem) s =
      (RaiseException .PageFaultException access.addr : Exec A).run (handle pagedSystem) s) : Misses program s o := by
  have inside : (s.registers LoadReg).toNat < NumTotalRegs := general.trans_le (by decide)
  refine ⟨access, ?_, legal, missing, _, ran.trans (run_RaiseException inside), ?_, .refl _⟩
  · rw [first]
    exact List.mem_cons_self ..
  · dsimp only
    rw [delayed_other (by decide) (by decide) (by decide), Function.update_self, Function.update_of_ne (by decide)]
    refine if_neg fun same => ?_
    rw [← same] at general
    exact absurd general (by decide)

/-- A program that does not look at the address of an exception runs alike on both
machines, as long as the pages are there. -/
theorem uses_together {print : Footprint} {post : A → Prop} {program : Exec A} (uses : Uses print post program)
    (reads : ∀ i, print.reads i → i ≠ BadVAddrReg) (writes : ∀ i, print.writes i → i ≠ LoadReg)
    (alike : Alike s o) (general : (s.registers LoadReg).toNat < NumGPRegs) :
    Misses program s o ∨ Meets program s o := by
  induction uses generalizing s o with
  | pure => exact .inr ⟨fun _ impossible => (by cases impossible), .done alike (.refl _)⟩
  | raise which badVAddr => exact .inr (meets_raise alike general)
  | stop => exact .inr (meets_stop alike)
  | @get i next may rest ih =>
    have same := alike.registers i (reads i may)
    by_cases there : i < NumTotalRegs
    · have unfolded : accesses (s.memory.space.numPages.toNat * 128) (.request (.get i) next) o =
          accesses (s.memory.space.numPages.toNat * 128) (next (s.registers i)) o := by
        rw [accesses, if_pos there, same]
      unfold Misses Meets
      rw [unfolded, run_get there, run_get there, ← same]
      exact ih _ alike general
    · refine .inr ⟨fun _ impossible => ?_, ?_⟩
      · rw [accesses, if_neg there] at impossible
        cases impossible
      · simp only [Program.run, handle, if_neg there]
        exact .stopped alike (.refl _)
  | @set i value next may rest ih =>
    by_cases there : i < NumTotalRegs
    · have unfolded : accesses (s.memory.space.numPages.toNat * 128) (.request (.set i value) next) o =
          accesses (s.memory.space.numPages.toNat * 128) (next ())
            { o with registers := Function.update o.registers i value } := by
        rw [accesses, if_pos there]
      have load : (Function.update s.registers i value LoadReg).toNat < NumGPRegs := by
        rwa [Function.update_of_ne (writes i may).symm]
      unfold Misses Meets
      rw [unfolded, run_set there, run_set there]
      exact ih alike.set load
    · refine .inr ⟨fun _ impossible => ?_, ?_⟩
      · rw [accesses, if_neg there] at impossible
        cases impossible
      · simp only [Program.run, handle, if_neg there]
        exact .stopped alike (.refl _)
  | @read addr size next sized rest refused ih =>
    obtain ⟨legal, missing, faulted⟩ | ⟨there, m', answered, kept, frames, contents⟩ := alike.kept.read sized
    · refine .inl (@misses_first _ s o _ (.read addr size) _ legal missing rfl general ?_)
      rw [run_read, faulted]
      dsimp only
      rw [refused]
      rfl
    · rw [← alike.memory] at answered contents
      rcases expected : (flatSystem (s.memory.space.numPages.toNat * 128)).read o.memory addr size with
        ⟨value | which | _, bytes⟩
      all_goals
        rw [expected] at answered contents
        dsimp only at answered contents
        have alike' : Alike { s with memory := m' } { o with memory := bytes } :=
          ⟨kept, contents.symm, alike.registers⟩
      · refine @goes_on _ s o _ (next (.ok value)) _ _ (.read addr size) frames there ?_ ?_ ?_ (ih value alike' general)
        · rw [accesses_read, expected]
          rfl
        · rw [run_read, answered]
        · rw [run_read, expected]
      · refine @goes_on _ s o _ (RaiseException which addr) _ _ (.read addr size) frames there ?_ ?_ ?_
          (.inr (meets_raise alike' general))
        · rw [accesses_read, expected, accesses_raise]
          rfl
        · rw [run_read, answered]
          dsimp only
          rw [refused]
        · rw [run_read, expected]
          dsimp only
          rw [refused]
      · refine @goes_on _ s o _ (.stop .assertion) _ _ (.read addr size) frames there ?_ ?_ ?_
          (.inr (meets_stop alike'))
        · rw [accesses_read, expected]
          rfl
        · rw [run_read, answered]
          rfl
        · rw [run_read, expected]
          rfl
  | @write addr size value next sized rest refused ih =>
    obtain ⟨legal, missing, faulted⟩ | ⟨there, m', answered, kept, frames, contents⟩ :=
      @Paged.Kept.write _ addr value _ alike.kept sized
    · refine .inl (@misses_first _ s o _ (.write addr size value) _ legal missing rfl general ?_)
      rw [run_write, faulted]
      dsimp only
      rw [refused]
      rfl
    · rw [← alike.memory] at answered contents
      rcases expected : (flatSystem (s.memory.space.numPages.toNat * 128)).write o.memory addr size value with
        ⟨_ | which | _, bytes⟩
      all_goals
        rw [expected] at answered contents
        dsimp only at answered contents
        have alike' : Alike { s with memory := m' } { o with memory := bytes } :=
          ⟨kept, contents.symm, alike.registers⟩
      · refine @goes_on _ s o _ (next (.ok ())) _ _ (.write addr size value) frames there ?_ ?_ ?_ (ih alike' general)
        · rw [accesses_write, expected]
          rfl
        · rw [run_write, answered]
        · rw [run_write, expected]
      · refine @goes_on _ s o _ (RaiseException which addr) _ _ (.write addr size value) frames there ?_ ?_ ?_
          (.inr (meets_raise alike' general))
        · rw [accesses_write, expected, accesses_raise]
          rfl
        · rw [run_write, answered]
          dsimp only
          rw [refused]
        · rw [run_write, expected]
          dsimp only
          rw [refused]
      · refine @goes_on _ s o _ (.stop .assertion) _ _ (.write addr size value) frames there ?_ ?_ ?_
          (.inr (meets_stop alike'))
        · rw [accesses_write, expected]
          rfl
        · rw [run_write, answered]
          rfl
        · rw [run_write, expected]
          rfl

theorem Alike.delayed {nextReg nextValue : Word} (alike : Alike s o) :
    Alike { s with registers := s.registers.delayed nextReg nextValue }
      { o with registers := o.registers.delayed nextReg nextValue } := by
  unfold Registers.delayed
  rw [alike.registers LoadReg (by decide), alike.registers LoadValueReg (by decide)]
  exact alike.set.set.set.set

theorem Alike.finished {commit : Commit} (alike : Alike s o) :
    Alike { s with registers := s.registers.finished commit }
      { o with registers := o.registers.finished commit } := by
  have same := @Alike.delayed _ _ commit.nextLoadReg commit.nextLoadValue alike
  have pc := same.registers PCReg (by decide)
  have next := same.registers NextPCReg (by decide)
  dsimp only at pc next
  unfold Registers.finished
  dsimp only
  rw [pc, next]
  exact same.set.set.set

/-- `Machine::OneInstruction` up to the end of the `switch`. -/
def fetchExecute : Exec Commit := do
  let raw ← Mips.ReadMem (← getReg PCReg) 4
  let pcAfter := (← getReg NextPCReg) + 4
  execute (Decode raw) pcAfter

theorem OneInstruction_eq : OneInstruction = fetchExecute >>= finish := by
  unfold OneInstruction fetchExecute perform
  simp only [Program.bind_assoc]

/-- What an instruction looks at and what it leaves alone. -/
def sight : Footprint where
  reads i := i ≠ BadVAddrReg
  writes i := i ≠ LoadReg
  stops _ := True

theorem uses_imp {print : Footprint} {post post' : A → Prop} {program : Exec A} (uses : Uses print post program)
    (implies : ∀ value, post value → post' value) : Uses print post' program := by
  induction uses with
  | pure holds => exact .pure (implies _ holds)
  | raise which badVAddr => exact .raise which badVAddr
  | stop may => exact .stop may
  | get may _ ih => exact .get may ih
  | set may _ ih => exact .set may ih
  | read sized _ refused ih => exact .read sized ih refused
  | write sized _ refused ih => exact .write sized ih refused

theorem decode_sees {raw : Word} (read : (Decode raw).footprint.reads i) : i ≠ BadVAddrReg := by
  have general : ∀ {field : Word}, (field &&& 0x1f).toNat ≠ BadVAddrReg := fun {field} same => by
    have less : (field &&& 0x1f).toNat < NumGPRegs := masked_lt
    rw [same] at less
    exact absurd less (by decide)
  rcases read with operand | rfl | rfl | rfl | ⟨-, rfl | rfl | rfl⟩
  · rcases Instruction.mem_reads operand with rfl | rfl
    · exact general
    · exact general
  · decide
  · decide
  · decide
  · decide
  · decide
  · exact general

/-- Only a load into a general register is delayed. -/
theorem uses_fetchExecute : Uses sight (fun commit => commit.nextLoadReg.toNat < NumGPRegs) fetchExecute := by
  refine .get (show PCReg ≠ BadVAddrReg by decide) fun pc => .read (.inr (.inr rfl)) (fun raw => ?_) fun _ => rfl
  refine .get (show NextPCReg ≠ BadVAddrReg by decide) fun next => ?_
  refine Uses.mono (uses_imp (uses_execute (Decode raw) (next + 4)) fun commit delays => ?_) (fun i => decode_sees)
    (fun i written => ?_) fun _ _ => trivial
  · rcases delays with none | ⟨-, own⟩
    · rw [none]
      decide
    · rw [own]
      exact masked_lt
  · rintro rfl
    exact absurd (decode_writes written) (lt_irrefl _)

/-- One instruction, when both machines have the same registers and contents: it misses a
page, or it is what it is on the flat memory. -/
theorem together_OneInstruction (alike : Alike s o) (general : (s.registers LoadReg).toNat < NumGPRegs) :
    Misses OneInstruction s o ∨ Meets OneInstruction s o := by
  have log : accesses (s.memory.space.numPages.toNat * 128) OneInstruction o =
      accesses (s.memory.space.numPages.toNat * 128) fetchExecute o := by
    rw [OneInstruction_eq]
    exact accesses_bind (fun commit => accesses_quiet quiet_finish) _ o
  have first := uses_together uses_fetchExecute (fun _ read => read) (fun _ written => written) alike general
  unfold Misses Meets at first ⊢
  rw [log, OneInstruction_eq, Program.run_bind, Program.run_bind]
  rcases first with ⟨missed, member, legal, missing, after, faulted, rest⟩ | ⟨there, together⟩
  · refine .inl ⟨missed, member, legal, missing, after, ?_, rest⟩
    rw [faulted]
  · refine .inr ⟨there, ?_⟩
    generalize ran : fetchExecute.run (handle pagedSystem) s = result at together ⊢
    generalize fetchExecute.run (handle (flatSystem (s.memory.space.numPages.toNat * 128))) o = result' at together ⊢
    cases together with
    | @done commit mid mid' alike' frames =>
      have load : mid.registers LoadReg = s.registers LoadReg :=
        (uses_keeps uses_fetchExecute (fun other => other rfl) ran).2
      have inside : (mid.registers LoadReg).toNat < NumTotalRegs := by
        rw [load]
        exact general.trans_le (by decide)
      have inside' : (mid'.registers LoadReg).toNat < NumTotalRegs := by
        rwa [← alike'.registers LoadReg (by decide)]
      dsimp only
      rw [run_finish inside, run_finish inside']
      exact .done alike'.finished frames
    | stopped alike' frames => exact .stopped alike' frames

end Programs

/-! ## Frames and missing pages -/

namespace Paged

/-- The pages of the program that are in no frame. -/
def missing (m : Paged) : Finset Nat :=
  (Finset.range m.space.numPages.toNat).filter fun v => ∀ i, (m.space.pageTable i).virtualPage.toNat ≠ v

/-- The frames that nobody has. -/
def free (m : Paged) : Finset (Fin NumPhysPages) := Finset.univ.filter fun i => m.bitmap i = false

/-- There is a frame for every page that is missing. -/
def Ample (m : Paged) : Prop := m.missing.card ≤ m.free.card

end Paged

section Frames
variable {m m' : Paged} {addr : BitVec 32}

theorem Paged.SameFrames.missing (same : m.SameFrames m') : m'.missing = m.missing := by
  unfold Paged.missing
  simp only [same.pages, same.numPages]

theorem Paged.SameFrames.free (same : m.SameFrames m') : m'.free = m.free := by
  unfold Paged.free
  rw [same.bitmap]

/-- The handler puts the page into a free frame or, when there is none, into frame 0. -/
theorem Paged.Kept.pageFault (kept : m.Kept) (inside : addr.toNat < m.space.numPages.toNat * 128) :
    ∃ pos, (m.bitmap pos = false ∧ (m.PageFault addr).bitmap = Function.update m.bitmap pos true ∨
        pos = 0 ∧ (∀ i, m.bitmap i = true) ∧ (m.PageFault addr).bitmap = m.bitmap) ∧
      (m.PageFault addr).space.numPages = m.space.numPages ∧
      ∀ j, ((m.PageFault addr).space.pageTable j).virtualPage.toNat =
        if j = pos then addr.toNat / 128 else (m.space.pageTable j).virtualPage.toNat := by
  have fits : m.space.numPages.toNat ≤ 64 := kept.keeps.fits
  have number : (BitVec.ofNat 32 (addr.toNat / 128)).toNat = addr.toNat / 128 := by
    rw [BitVec.toNat_ofNat]
    exact Nat.mod_eq_of_lt (by omega)
  have mapped : ∀ (space : AddrSpace) (pos j : Fin NumPhysPages),
      (space.pageTable j).virtualPage = (m.space.pageTable j).virtualPage →
      ((space.mapPage (addr.toNat / 128) pos).pageTable j).virtualPage.toNat =
        if j = pos then addr.toNat / 128 else (m.space.pageTable j).virtualPage.toNat := by
    intro space pos j same
    unfold AddrSpace.mapPage
    dsimp only
    by_cases here : j = pos
    · rw [here, Function.update_self, if_pos rfl]
      exact number
    · rw [Function.update_of_ne here, if_neg here, same]
  by_cases some_free : ∃ i, m.bitmap i = false
  · obtain ⟨i, clear⟩ := some_free
    obtain ⟨out, clear, found⟩ := find_some clear
    rw [PageFault_eq found]
    exact ⟨out, .inl ⟨clear, rfl⟩, rfl, fun j => mapped _ _ j rfl⟩
  · have full : ∀ i, m.bitmap i = true := by
      intro i
      by_contra clear
      exact some_free ⟨i, by simpa using clear⟩
    have none : m.bitmap.find = (none, m.bitmap) := by
      have nobody : (List.finRange NumPhysPages).find? (fun i => !m.bitmap i) = Option.none := by
        apply List.find?_eq_none.mpr
        intro i _
        simp [full i]
      unfold Bitmap.find
      rw [nobody]
    have evicted : (evict m.space m.mainMemory m.file).1.numPages = m.space.numPages ∧
        ∀ j, ((evict m.space m.mainMemory m.file).1.pageTable j).virtualPage =
          (m.space.pageTable j).virtualPage := by
      unfold evict
      cases m.space.victim with
      | none => exact ⟨rfl, fun _ => rfl⟩
      | some v =>
        refine ⟨rfl, fun j => ?_⟩
        dsimp only
        by_cases here : j = v
        · rw [here, Function.update_self]
        · rw [Function.update_of_ne here]
    unfold Paged.PageFault
    rw [none]
    exact ⟨0, .inr ⟨rfl, full, rfl⟩, evicted.1, fun j => mapped _ _ j (evicted.2 j)⟩

/-- With a frame for every missing page, a fault takes one of either. -/
theorem Paged.Kept.fault_ample (kept : m.Kept) (inside : addr.toNat < m.space.numPages.toNat * 128)
    (absent : ¬ m.Resident addr) (ample : m.Ample) :
    (m.PageFault addr).Ample ∧ (m.PageFault addr).missing.card + 1 = m.missing.card := by
  have here : addr.toNat / 128 ∈ m.missing := by
    refine Finset.mem_filter.mpr ⟨Finset.mem_range.mpr (by omega), fun i page => ?_⟩
    exact absent ⟨i, page⟩
  have some_free : 0 < m.free.card := (Finset.card_pos.mpr ⟨_, here⟩).trans_le ample
  obtain ⟨pos, ⟨clear, bitmap⟩ | ⟨-, full, -⟩, numPages, pages⟩ := kept.pageFault inside
  · have unheld : ¬ m.space.Holds pos := by
      intro holds
      rw [kept.keeps.taken pos holds] at clear
      cases clear
    have missing : (m.PageFault addr).missing = m.missing.erase (addr.toNat / 128) := by
      ext w
      unfold Paged.missing
      simp only [Finset.mem_erase, Finset.mem_filter, Finset.mem_range, numPages]
      constructor
      · rintro ⟨bound, gone⟩
        have own := gone pos
        rw [pages, if_pos rfl] at own
        refine ⟨own.symm, bound, fun j page => ?_⟩
        by_cases here : j = pos
        · subst here
          exact unheld (kept.keeps.holds (page.trans_lt bound))
        · have other := gone j
          rw [pages, if_neg here] at other
          exact other page
      · rintro ⟨other, bound, gone⟩
        refine ⟨bound, fun j => ?_⟩
        rw [pages]
        split
        · exact other.symm
        · exact gone j
    have free : (m.PageFault addr).free = m.free.erase pos := by
      ext i
      unfold Paged.free
      rw [Finset.mem_erase, Finset.mem_filter, Finset.mem_filter, bitmap]
      by_cases here : i = pos
      · subst here
        rw [Function.update_self]
        simp
      · rw [Function.update_of_ne here]
        simp [here]
    have one : pos ∈ m.free := Finset.mem_filter.mpr ⟨Finset.mem_univ _, clear⟩
    have fewer := Finset.card_erase_add_one here
    have left := Finset.card_erase_add_one one
    unfold Paged.Ample at ample ⊢
    rw [missing, free]
    exact ⟨by omega, fewer⟩
  · obtain ⟨i, clear⟩ := Finset.card_pos.mp some_free
    have clear := (Finset.mem_filter.mp clear).2
    rw [full i] at clear
    cases clear

end Frames

/-! ## `Machine::Run` -/

/-- A round of the loop: an instruction, and `ExceptionHandler` if it misses a page.
It returns whether the instruction was completed. -/
def round (s : Cpu Paged) : Effects.Outcome Stop (Cpu Paged) Bool :=
  match OneInstruction.run (handle pagedSystem) s with
  | .done () after => .done true after
  | .stopped (.exception .PageFaultException) after =>
    .done false { after with memory := after.memory.PageFault (after.registers BadVAddrReg) }
  | .stopped reason after => .stopped reason after

/-- `OneTick`: an interrupt that is due finishes the pending load. -/
def tick (due : Bool) (s : Cpu Paged) : Cpu Paged :=
  if due then
    match (DelayedLoad 0 0).run (handle pagedSystem) s with
    | .done () after | .stopped _ after => after
  else s

/-- What a run comes to: what is observed behind each instruction that is completed, the
number of page faults, the machine before the next instruction, and what that instruction
stops with, if it is not a page fault. -/
structure Ran where
  trace : List Observation
  faults : Nat
  final : Cpu Paged
  stopped : Option Stop

/-- `Machine::Run`, so many rounds of it, with the ticks in which an interrupt is due. -/
def MachineRun : List Bool → Cpu Paged → Ran
  | [], s => ⟨[], 0, s, none⟩
  | due :: rest, s =>
    match round s with
    | .stopped reason _ => ⟨[], 0, s, some reason⟩
    | .done completed after =>
      let ran := MachineRun rest (tick due after)
      if completed then { ran with trace := observe keptMemory after :: ran.trace }
      else { ran with faults := ran.faults + 1 }

section Rounds
variable {s after : Cpu Paged} {length : Nat}

/-- The flat machine with the same contents and registers, but for the address of the
last exception. -/
def seen (s : Cpu Paged) : Cpu Memory where
  registers := Function.update s.registers BadVAddrReg 0
  memory := s.memory.contents

theorem seen_other {i : Nat} (other : i ≠ BadVAddrReg) : (seen s).registers i = s.registers i :=
  Function.update_of_ne other ..

theorem alike_seen (kept : s.memory.Kept) : Alike s (seen s) := ⟨kept, rfl, fun _ other => (seen_other other).symm⟩

def flatMemory (length : Nat) : LogicalMemory (flatSystem length) where
  contents := id
  Valid _ := True
  read_done _ _ answered := by
    obtain ⟨fetched, same⟩ := flatSystem_read_done answered
    exact ⟨fetched, same, trivial⟩
  read_fault _ _ faulted := by
    have raised := flatSystem_read_raises faulted
    cases raised
  write_done _ _ answered := ⟨flatSystem_write_done answered, trivial⟩
  write_fault _ _ faulted := by
    have raised := flatSystem_write_raises faulted
    cases raised

/-- On the flat memory nothing faults. -/
theorem flat_never_faults {o o' : Cpu Memory} (general : (o.registers LoadReg).toNat < NumGPRegs) :
    OneInstruction.run (handle (flatSystem length)) o ≠ .stopped (.exception .PageFaultException) o' := by
  intro faulted
  obtain ⟨badVAddr, before, -, -, -, size, -, read | ⟨value, write⟩⟩ :=
    restarts_OneInstruction.fault (flatMemory length) trivial (general.trans_le (by decide)) faulted
  · have raised := flatSystem_read_raises read
    cases raised
  · have raised := flatSystem_write_raises write
    cases raised

/-- An instruction that is completed leaves the machine ready for the next one. -/
theorem ready_completed (ready : Ready keptMemory s) (kept : after.memory.Kept)
    (done : OneInstruction.run (handle pagedSystem) s = .done () after) : Ready keptMemory after := by
  rw [OneInstruction_eq] at done
  obtain ⟨commit, mid, ran, finished⟩ := done_bind done
  obtain ⟨small, load⟩ := uses_keeps uses_fetchExecute (fun other => other rfl) ran
  have inside : (mid.registers LoadReg).toNat < NumTotalRegs := by
    rw [load]
    exact ready.load.trans_le (by decide)
  rw [run_finish inside] at finished
  cases finished
  refine ⟨?_, ?_, kept⟩
  · show mid.registers.finished commit 0 = 0
    rw [finished_other (by decide) (by decide) (by decide), delayed_zero]
  · show (mid.registers.finished commit LoadReg).toNat < NumGPRegs
    rw [finished_other (by decide) (by decide) (by decide), delayed_LoadReg]
    exact small

/-- A round that misses a page: nothing has happened but that the pending load is
finished, and the page is there. -/
structure Faulted (s : Cpu Paged) (access : Access) (after : Cpu Paged) : Prop where
  member : access ∈ accesses (s.memory.space.numPages.toNat * 128) OneInstruction (seen s)
  legal : ¬ access.Illegal (s.memory.space.numPages.toNat * 128)
  missing : ¬ s.memory.Resident access.addr
  faulted : OneInstruction.run (handle pagedSystem) s = .stopped (.exception .PageFaultException) after
  registers : after.registers = Registers.delayed (Function.update s.registers BadVAddrReg access.addr) 0 0
  frames : s.memory.SameFrames after.memory
  kept : after.memory.Kept
  contents : after.memory.contents = s.memory.contents
  round : round s = .done false { after with memory := after.memory.PageFault access.addr }

/-- A round whose pages are all there. -/
inductive Undisturbed (s : Cpu Paged) : Prop where
  | completed (after : Cpu Paged) (done : OneInstruction.run (handle pagedSystem) s = .done () after)
      (kept : after.memory.Kept) (frames : s.memory.SameFrames after.memory) (round : round s = .done true after)
  | stopped (reason : Stop) (after : Cpu Paged) (o : Cpu Memory) (alike : Alike after o)
      (flat : OneInstruction.run (handle (flatSystem (s.memory.space.numPages.toNat * 128))) (seen s) =
        .stopped reason o) (round : round s = .stopped reason after)

/-- What a round can come to. -/
theorem round_cases (ready : Ready keptMemory s) :
    (∃ access after, Faulted s access after) ∨
    (∀ access ∈ accesses (s.memory.space.numPages.toNat * 128) OneInstruction (seen s),
      ¬ access.Illegal (s.memory.space.numPages.toNat * 128) → s.memory.Resident access.addr) ∧ Undisturbed s := by
  have kept : s.memory.Kept := ready.valid
  rcases together_OneInstruction (alike_seen kept) ready.load with
    ⟨access, member, legal, missing, after, faulted, bad, frames⟩ | ⟨there, together⟩
  · have inside := ready.load.trans_le (show NumGPRegs ≤ NumTotalRegs by decide)
    obtain ⟨badVAddr, before, registers, valid, contents, faults⟩ :=
      restarts_OneInstruction.fault keptMemory kept inside faulted
    obtain ⟨same, valid'⟩ := faults.keeps keptMemory valid
    have here : after.registers BadVAddrReg = badVAddr := by
      have target : BadVAddrReg ≠ (s.registers LoadReg).toNat :=
        fun same => absurd (same ▸ ready.load) (by decide)
      rw [registers, delayed_other (by decide) (by decide) (by decide), Function.update_self,
        Function.update_of_ne (by decide), if_neg target]
    rw [← here, bad] at registers
    refine .inl ⟨access, after, member, legal, missing, faulted, registers, frames, valid', same.trans contents, ?_⟩
    unfold round
    rw [faulted]
    dsimp only
    rw [bad]
  · refine .inr ⟨there, ?_⟩
    have general : ((seen s).registers LoadReg).toNat < NumGPRegs := by
      rw [seen_other (by decide)]
      exact ready.load
    have never := fun o => @flat_never_faults (s.memory.space.numPages.toNat * 128) (seen s) o general
    generalize ran : OneInstruction.run (handle pagedSystem) s = result at together
    generalize ran' : OneInstruction.run (handle (flatSystem (s.memory.space.numPages.toNat * 128))) (seen s) =
      result' at together never
    cases together with
    | done alike frames =>
      refine .completed _ ran alike.kept frames ?_
      unfold round
      rw [ran]
    | @stopped reason mid o alike frames =>
      refine .stopped reason mid o alike ran' ?_
      unfold round
      rw [ran]
      split
      · rename_i same
        cases same
      · rename_i same
        cases same
        exact absurd rfl (never o)
      · rename_i same
        cases same
        rfl

theorem inside_of_legal {access : Access} {length : Nat} (legal : ¬ access.Illegal length) :
    access.addr.toNat < length := Nat.lt_of_not_le (not_or.mp legal).2

namespace Faulted
variable {access : Access}

theorem inside (faulted : Faulted s access after) : access.addr.toNat < after.memory.space.numPages.toNat * 128 := by
  rw [faulted.frames.numPages]
  exact inside_of_legal faulted.legal

theorem absent (faulted : Faulted s access after) : ¬ after.memory.Resident access.addr := by
  rw [faulted.frames.resident_iff]
  exact faulted.missing

/-- The handler leaves the contents alone. -/
theorem brought (faulted : Faulted s access after) :
    (after.memory.PageFault access.addr).Kept ∧
      (after.memory.PageFault access.addr).contents = after.memory.contents ∧
      (after.memory.PageFault access.addr).space.numPages = s.memory.space.numPages := by
  obtain ⟨kept, contents, numPages⟩ := faulted.kept.faults faulted.inside faulted.absent
  exact ⟨kept, contents, numPages.trans faulted.frames.numPages⟩

theorem ready (faulted : Faulted s access after) (ready : Ready keptMemory s) :
    Ready keptMemory { after with memory := after.memory.PageFault access.addr } ∧
      observe keptMemory { after with memory := after.memory.PageFault access.addr } = observe keptMemory s ∧
      after.registers LoadReg = 0 := by
  obtain ⟨kept, contents, -⟩ := faulted.brought
  exact ready.fault faulted.faulted kept contents

/-- A fault leaves one page less to bring in. -/
theorem ample (faulted : Faulted s access after) (ample : s.memory.Ample) :
    (after.memory.PageFault access.addr).Ample ∧
      (after.memory.PageFault access.addr).missing.card + 1 = s.memory.missing.card := by
  rw [← faulted.frames.missing]
  refine faulted.kept.fault_ample faulted.inside faulted.absent ?_
  unfold Paged.Ample
  rwa [faulted.frames.missing, faulted.frames.free]

end Faulted

theorem ready_tick (due : Bool) (ready : Ready keptMemory s) :
    Ready keptMemory (tick due s) ∧ observe keptMemory (tick due s) = observe keptMemory s ∧
      (tick due s).memory = s.memory ∧
      (due = true → (DelayedLoad 0 0).run (handle pagedSystem) s = .done () (tick due s)) := by
  cases due with
  | false => exact ⟨ready, rfl, rfl, fun impossible => by cases impossible⟩
  | true =>
    have fired : (DelayedLoad 0 0 >>= Program.pure).run (handle pagedSystem) s =
        .done () { s with registers := s.registers.delayed 0 0 } :=
      run_DelayedLoad (ready.load.trans_le (by decide))
    have fired : (DelayedLoad 0 0).run (handle pagedSystem) s = _ := fired
    obtain ⟨ready', same, -⟩ := ready.interrupt fired
    have ticked : tick true s = { s with registers := s.registers.delayed 0 0 } := by
      unfold tick
      rw [if_pos rfl, fired]
    rw [ticked]
    exact ⟨ready', same, rfl, fun _ => fired⟩

/-- What is known of a run. -/
structure Goes (s : Cpu Paged) (rounds : Nat) (ran : Ran) : Prop where
  run : Run keptMemory s ran.trace
  ready : Ready keptMemory ran.final
  last : observe keptMemory ran.final = ran.trace.getLast?.getD (observe keptMemory s)
  most : ran.trace.length + ran.faults ≤ rounds
  all : ran.stopped = none → ran.trace.length + ran.faults = rounds
  numPages : ran.final.memory.space.numPages = s.memory.space.numPages
  stops : ∀ reason, ran.stopped = some reason → ∃ o,
    OneInstruction.run (handle (flatSystem (s.memory.space.numPages.toNat * 128))) (seen ran.final) =
      .stopped reason o
  pages : s.memory.Ample → ran.faults + ran.final.memory.missing.card = s.memory.missing.card

/-- An interrupt between two rounds changes nothing of this. -/
theorem Goes.ticked {rounds : Nat} {ran : Ran} {due : Bool} (goes : Goes (tick due s) rounds ran)
    (ready : Ready keptMemory s) : Goes s rounds ran := by
  obtain ⟨-, same, memory, fired⟩ := ready_tick due ready
  refine { goes with run := ?_, last := ?_, numPages := ?_, stops := ?_, pages := ?_ }
  · cases due with
    | false => exact goes.run
    | true => exact .interrupt (fired rfl) goes.run
  · rw [← same]
    exact goes.last
  · rw [← memory]
    exact goes.numPages
  · rw [← memory]
    exact goes.stops
  · rw [← memory]
    exact goes.pages

/-- The fault comes before the rest of the run. -/
theorem Goes.faulted {access : Access} {rounds : Nat} {ran : Ran} (ready : Ready keptMemory s)
    (faulted : Faulted s access after)
    (goes : Goes { after with memory := after.memory.PageFault access.addr } rounds ran) :
    Goes s (rounds + 1) { ran with faults := ran.faults + 1 } := by
  obtain ⟨kept, contents, numPages⟩ := faulted.brought
  obtain ⟨-, same, -⟩ := faulted.ready ready
  have most := goes.most
  refine ⟨.fault faulted.faulted kept contents goes.run, goes.ready, ?_, ?_, fun whole => ?_,
    goes.numPages.trans numPages, ?_, fun ample => ?_⟩
  · rw [← same]
    exact goes.last
  · show ran.trace.length + (ran.faults + 1) ≤ rounds + 1
    omega
  · have all := goes.all whole
    show ran.trace.length + (ran.faults + 1) = rounds + 1
    omega
  · rw [← numPages]
    exact goes.stops
  · obtain ⟨ample', fewer⟩ := faulted.ample ample
    have pages := goes.pages ample'
    dsimp only at pages ⊢
    omega

/-- The completed instruction comes before the rest of the run. -/
theorem Goes.completed {rounds : Nat} {ran : Ran} (done : OneInstruction.run (handle pagedSystem) s = .done () after)
    (frames : s.memory.SameFrames after.memory) (goes : Goes after rounds ran) :
    Goes s (rounds + 1) { ran with trace := observe keptMemory after :: ran.trace } := by
  have most := goes.most
  refine ⟨.completes done goes.run, goes.ready, ?_, ?_, fun whole => ?_, goes.numPages.trans frames.numPages, ?_,
    fun ample => ?_⟩
  · rw [goes.last]
    dsimp only
    rw [List.getLast?_cons, Option.getD_some]
  · show (ran.trace.length + 1) + ran.faults ≤ rounds + 1
    omega
  · have all := goes.all whole
    show (ran.trace.length + 1) + ran.faults = rounds + 1
    omega
  · rw [← frames.numPages]
    exact goes.stops
  · rw [← frames.missing]
    refine goes.pages ?_
    unfold Paged.Ample
    rwa [frames.missing, frames.free]

theorem MachineRun_goes (ready : Ready keptMemory s) (ticks : List Bool) :
    Goes s ticks.length (MachineRun ticks s) := by
  induction ticks generalizing s with
  | nil =>
    exact ⟨.stop s, ready, rfl, le_rfl, fun _ => rfl, rfl, fun _ impossible => (by cases impossible),
      fun _ => Nat.zero_add _⟩
  | cons due rest ih =>
    rw [MachineRun]
    obtain ⟨access, after, faulted⟩ | ⟨-, undisturbed⟩ := round_cases ready
    · obtain ⟨ready', -⟩ := faulted.ready ready
      rw [faulted.round]
      exact .faulted ready faulted ((ih (ready_tick due ready').1).ticked ready')
    · cases undisturbed with
      | completed after done kept frames round =>
        have ready' := ready_completed ready kept done
        rw [round]
        exact .completed done frames ((ih (ready_tick due ready').1).ticked ready')
      | stopped reason after o alike flat round =>
        rw [round]
        refine ⟨.stop s, ready, rfl, Nat.zero_le _, fun impossible => (by cases impossible), rfl, fun other same => ?_,
          fun _ => Nat.zero_add _⟩
        cases same
        exact ⟨o, flat⟩

/-- A well scheduled program is observed as on a flat memory where nothing is interrupted. -/
theorem MachineRun_undisturbed (ready : Ready keptMemory s) {ticks : List Bool}
    (scheduled : WellScheduled (s.registers LoadReg).toNat (observe keptMemory s)
      (undisturbed ticks.length (observe keptMemory s))) :
    (MachineRun ticks s).trace = undisturbed (MachineRun ticks s).trace.length (observe keptMemory s) := by
  have goes := MachineRun_goes ready ticks
  have short : (MachineRun ticks s).trace.length ≤ ticks.length := (Nat.le_add_right _ _).trans goes.most
  have early := wellScheduled_mono scheduled (undisturbed_mono (observe keptMemory s) short)
  exact goes.run.undisturbed ready (.inr rfl) (.inr early)

/-- A program that is paged in on demand, in any run of `Machine::Run`, whichever frames
others have and whenever interrupts come: its instructions do what they do, well
scheduled, to a flat memory where nothing is interrupted, and the one that ends the run
ends it there, too; every round completes an instruction or brings in a page, and with a
frame for each of them no page is brought in twice. -/
theorem demand_paged_program_runs (ready : Ready keptMemory s) {ticks : List Bool}
    (scheduled : WellScheduled (s.registers LoadReg).toNat (observe keptMemory s)
      (undisturbed ticks.length (observe keptMemory s))) :
    (MachineRun ticks s).trace = undisturbed (MachineRun ticks s).trace.length (observe keptMemory s) ∧
      observe keptMemory (MachineRun ticks s).final =
        (MachineRun ticks s).trace.getLast?.getD (observe keptMemory s) ∧
      (∀ reason, (MachineRun ticks s).stopped = some reason → ∃ o,
        OneInstruction.run (handle (flatSystem (s.memory.space.numPages.toNat * 128)))
          (seen (MachineRun ticks s).final) = .stopped reason o) ∧
      ((MachineRun ticks s).stopped = none →
        (MachineRun ticks s).trace.length + (MachineRun ticks s).faults = ticks.length) ∧
      (s.memory.Ample → (MachineRun ticks s).faults + (MachineRun ticks s).final.memory.missing.card =
        s.memory.missing.card) := by
  have goes := MachineRun_goes ready ticks
  exact ⟨MachineRun_undisturbed ready scheduled, goes.last, goes.stops, goes.all, goes.pages⟩

/-- The program of zeros: its page is brought in, and its first instruction completed. -/
theorem zeros_page_brought_in : ∃ s : Cpu Paged, s.memory = zeros ∧
    (MachineRun [false, true] s).trace =
      undisturbed (MachineRun [false, true] s).trace.length (observe keptMemory s) ∧
    (MachineRun [false, true] s).faults + (MachineRun [false, true] s).final.memory.missing.card = 1 := by
  let s : Cpu Paged := { registers := fun _ => 0, memory := zeros }
  have started : zeros.Started := ⟨rfl, by decide, by decide⟩
  have ready : Ready keptMemory s := ⟨rfl, by decide, started.keeps.contents, started.writable⟩
  have idle : (observe keptMemory s).instruction = Decode 0 := by
    have word : fetch zeros.contents 0 4 = some 0 := by
      have same : fetch zeros.contents 0 4 = fetch (fun _ => 0) 0 4 :=
        fetch_congr fun k less => started.keeps.contents_inside (show 0 + k < 128 by omega)
      exact same.trans (by decide)
    exact congrArg (fun word => Decode (word.getD 0)) word
  have scheduled : WellScheduled (s.registers LoadReg).toNat (observe keptMemory s)
      (undisturbed 2 (observe keptMemory s)) := by
    refine ⟨fun nonzero => absurd rfl nonzero, ?_, trivial⟩
    rw [idle]
    exact fun nonzero => absurd rfl nonzero
  obtain ⟨trace, -, -, -, pages⟩ := @demand_paged_program_runs s ready [false, true] scheduled
  have missing : zeros.missing.card = 1 := by decide
  have ample : zeros.Ample := by
    unfold Paged.Ample
    rw [missing]
    exact Finset.card_pos.mpr ⟨0, Finset.mem_filter.mpr ⟨Finset.mem_univ _, rfl⟩⟩
  exact ⟨s, rfl, trace, (pages ample).trans missing⟩

end Rounds

end Nachos.Paging
