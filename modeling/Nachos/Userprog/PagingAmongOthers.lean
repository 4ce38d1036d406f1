import Nachos.Userprog.UserReads

/-! Demand paging for a program that starts when other programs have frames. It takes
the frames that are still free and then uses frame 0 for every page that it misses; as
long as it runs alone, it sees a flat memory that holds what the file does. -/
namespace Nachos.Paging
open Effects Machine

namespace Paged

/-- The program is about to run. -/
structure Started (m : Paged) : Prop where
  table : m.space.pageTable = blankTable
  fits : m.space.numPages.toNat ≤ NumPhysPages
  file : m.space.numPages.toNat * PageSize ≤ m.file.length

end Paged

section
variable {m : Paged} {bytes : Memory}

theorem Paged.Started.keeps (started : m.Started) : Keeps m m.file.bytes := by
  have blank : ∀ i, ¬ m.space.Holds i := by
    intro i holds
    rw [AddrSpace.Holds, started.table] at holds
    exact holds rfl
  refine ⟨fun i holds => absurd holds (blank i), fun i holds => absurd holds (blank i),
    fun i _ holds => absurd holds (blank i), fun i => ?_, fun i _ => ?_, started.fits, started.file,
    fun i holds => absurd holds (blank i), fun _ _ _ _ _ => rfl⟩
  · rw [started.table]
    exact blank_frame i
  · rw [started.table]
    rfl

theorem Paged.Started.writable (started : m.Started) : m.Writable := by
  intro i
  rw [started.table]
  rfl

/-! ## One access -/

/-- An access to a page that is in memory. -/
theorem Keeps.attempt_legal (keeps : Keeps m bytes) (writable : m.Writable) {access : Access}
    (sized : Sized access.size) (legal : ¬ access.Illegal (m.space.numPages.toNat * 128))
    (resident : m.Resident access.addr) :
    ∃ m', m.attempt access = ((flatAccess (m.space.numPages.toNat * 128) bytes access).1, m') ∧
      Keeps m' (flatAccess (m.space.numPages.toNat * 128) bytes access).2 ∧ m'.Writable ∧
      m'.space.numPages = m.space.numPages := by
  obtain ⟨aligned, inside⟩ := not_or.mp legal
  have aligned := not_not.mp aligned
  have inside := Nat.lt_of_not_le inside
  obtain ⟨i, found⟩ : ∃ i, m.space.pageTable.search (access.addr.toNat / 128) = some i := by
    obtain ⟨i, page⟩ := resident
    exact Option.ne_none_iff_exists'.mp fun none => search_none.mp none i page
  have page := search_some found
  have entry := touched_entry m.space.pageTable i
  have holds : m.space.Holds i := keeps.holds (by omega)
  have offset := legal_offset sized aligned
  have allowed : ∀ writing, ((m.space.pageTable i).readOnly && writing) = false := fun writing => by
    rw [writable i, Bool.false_and]
  unfold flatAccess
  rw [if_neg legal]
  cases access with
  | read addr size =>
    have sized : Sized size := sized
    obtain ⟨value, fetched⟩ := exists_fetch sized bytes addr.toNat
    simp only [Access.addr, Access.size] at aligned inside page found offset
    have same : fetch m.mainMemory (i * 128 + addr.toNat % 128) size = some value := by
      rw [← fetched]
      refine fetch_congr fun k bound => ?_
      rw [Nat.add_assoc, keeps.present i holds _ (by omega), page]
      congr 1
      omega
    have translated := translate_present sized aligned inside found (keeps.frame i) (allowed false)
    rw [Bool.or_false] at translated
    simp only [Paged.attempt, ReadMem, translated, same, fetched]
    exact ⟨_, rfl, keeps.touches i, fun j => (entry _ j).2.2.1.trans (writable j), rfl⟩
  | write addr size value =>
    have sized : Sized size := sized
    simp only [Access.addr, Access.size] at aligned inside page found
    have translated := translate_present sized aligned inside found (keeps.frame i) (allowed true)
    rw [Bool.or_true] at translated
    simp only [Paged.attempt, WriteMem, translated, store_eq sized]
    exact ⟨_, rfl, keeps.splices sized aligned inside page _, fun j => (entry _ j).2.2.1.trans (writable j), rfl⟩

/-- An access is answered as by the flat memory, and tried at most twice. -/
theorem Keeps.perform (keeps : Keeps m bytes) (writable : m.Writable) {access : Access}
    (sized : Sized access.size) :
    ∃ m', m.perform access 2 = some ((flatAccess (m.space.numPages.toNat * 128) bytes access).1, m') ∧
      Keeps m' (flatAccess (m.space.numPages.toNat * 128) bytes access).2 ∧ m'.Writable ∧
      m'.space.numPages = m.space.numPages := by
  have final := flatAccess_answers (m.space.numPages.toNat * 128) bytes access
  by_cases illegal : access.Illegal (m.space.numPages.toNat * 128)
  · have raised := attempt_raises fun writing => translate_illegal sized illegal
    refine ⟨m, ?_, ?_, writable, rfl⟩
    · rw [perform_answered raised (by decide)]
      unfold flatAccess
      rw [if_pos illegal]
    · unfold flatAccess
      rw [if_pos illegal]
      exact keeps
  · obtain ⟨aligned, inside⟩ := not_or.mp illegal
    have aligned := not_not.mp aligned
    have inside := Nat.lt_of_not_le inside
    by_cases resident : m.Resident access.addr
    · obtain ⟨m', answered, rest⟩ := keeps.attempt_legal writable sized illegal resident
      exact ⟨m', perform_answered answered final 1, rest⟩
    · have missing : ∀ i, (m.space.pageTable i).virtualPage.toNat ≠ access.addr.toNat / 128 := fun i here =>
        resident ⟨i, here⟩
      have faulted := attempt_raises (m := m) fun writing => translate_absent sized aligned inside missing
      obtain ⟨mapped, pages, here⟩ := keeps.faults inside resident
      rw [← pages] at illegal final ⊢
      rw [perform_faulted faulted]
      obtain ⟨m', answered, rest⟩ := mapped.attempt_legal (writable.faults _) sized illegal here
      exact ⟨m', perform_answered answered final 0, rest⟩

/-! ## Runs -/

theorem Keeps.performAll (keeps : Keeps m bytes) (writable : m.Writable) {accesses : List Access}
    (sized : ∀ access ∈ accesses, Sized access.size) :
    ∃ m', m.performAll 2 accesses =
        some ((flatAccesses (m.space.numPages.toNat * 128) bytes accesses).1, m') ∧
      Keeps m' (flatAccesses (m.space.numPages.toNat * 128) bytes accesses).2 ∧
      m'.space.numPages = m.space.numPages := by
  induction accesses generalizing m bytes with
  | nil => exact ⟨m, rfl, keeps, rfl⟩
  | cons access rest ih =>
    obtain ⟨m₁, performed, keeps₁, writable₁, pages⟩ := keeps.perform writable (sized access (by simp))
    obtain ⟨m₂, others, keeps₂, pages'⟩ := ih keeps₁ writable₁ fun access inside =>
      sized access (List.mem_cons_of_mem _ inside)
    rw [pages] at others keeps₂
    refine ⟨m₂, ?_, keeps₂, pages'.trans pages⟩
    simp only [Paged.performAll, performed, Option.bind_eq_bind, Option.bind_some, others, flatAccesses]
    rfl

/-! ## Bytes that were never stored -/

/-- The access stores in a byte. -/
def Access.StoresAt : Access → Nat → Prop
  | .read _ _, _ => False
  | .write addr size _, o => addr.toNat ≤ o ∧ o < addr.toNat + size

theorem flatAccess_spares {length o : Nat} {access : Access} (sized : Sized access.size)
    (spares : ¬ access.StoresAt o) : (flatAccess length bytes access).2 o = bytes o := by
  unfold flatAccess
  split
  · rfl
  · cases access with
    | read addr size =>
      dsimp only
      split <;> rfl
    | write addr size value =>
      have sized : Sized size := sized
      simp only [Access.StoresAt] at spares
      simp only [store_eq sized]
      exact Memory.splice_outside (by omega)

theorem flatAccesses_spares {length o : Nat} {accesses : List Access}
    (sized : ∀ access ∈ accesses, Sized access.size) (spares : ∀ access ∈ accesses, ¬ access.StoresAt o) :
    (flatAccesses length bytes accesses).2 o = bytes o := by
  induction accesses generalizing bytes with
  | nil => rfl
  | cons access rest ih =>
    have first := @flatAccess_spares bytes length o access (sized access (by simp)) (spares access (by simp))
    rw [← first]
    exact ih (fun access inside => sized access (List.mem_cons_of_mem _ inside))
      fun access inside => spares access (List.mem_cons_of_mem _ inside)

theorem flatAccesses_append (length : Nat) (first second : List Access) :
    (flatAccesses length bytes (first ++ second)).1 = (flatAccesses length bytes first).1 ++
      (flatAccesses length (flatAccesses length bytes first).2 second).1 := by
  induction first generalizing bytes with
  | nil => rfl
  | cons access rest ih => exact congrArg _ ih

/-- Whatever the program did before, what it reads in the region is 0, unless it stored
there. -/
def Paged.ReadsZero (m : Paged) (region : Nat → Prop) : Prop :=
  ∀ (before : List Access) (addr : BitVec 32) (size : Nat), (∀ access ∈ before, Sized access.size) →
    Sized size → addr.toNat % size = 0 → addr.toNat < m.space.numPages.toNat * PageSize →
    (∀ k, k < size → region (addr.toNat + k) ∧ ∀ access ∈ before, ¬ access.StoresAt (addr.toNat + k)) →
    ∃ replies m', m.performAll 2 (before ++ [.read addr size]) = some (replies ++ [.value 0], m')

/-- A legal read of the flat memory. -/
theorem flatAccess_read {length size : Nat} {addr value : BitVec 32} (aligned : addr.toNat % size = 0)
    (inside : addr.toNat < length) (fetched : fetch bytes addr.toNat size = some value) :
    flatAccess length bytes (.read addr size) = (.value value, bytes) := by
  have legal : ¬ (Access.read addr size).Illegal length := not_or.mpr ⟨not_not.mpr aligned, not_le.mpr inside⟩
  unfold flatAccess
  rw [if_neg legal]
  simp only [fetched]

theorem fetch_zero {size : Nat} (sized : Sized size) : fetch (fun _ => 0) 0 size = some 0 := by
  obtain rfl | rfl | rfl := sized <;> decide

/-- What a program reads first is what the file holds. -/
theorem Paged.Started.readsZero_iff (started : m.Started) {region : Nat → Prop} :
    m.ReadsZero region ↔
      ∀ o, o < m.space.numPages.toNat * PageSize → region o → m.file.bytes o = 0 := by
  have fits : m.space.numPages.toNat ≤ 64 := started.fits
  simp only [PageSize]
  constructor
  · intro zero o bound here
    have number : (BitVec.ofNat 32 o).toNat = o := by
      rw [BitVec.toNat_ofNat]
      exact Nat.mod_eq_of_lt (by omega)
    have sized : ∀ access ∈ [Access.read (BitVec.ofNat 32 o) 1], Sized access.size := by
      simp [Access.size, Sized]
    obtain ⟨replies, m', performed⟩ := zero [] (BitVec.ofNat 32 o) 1 (by simp) (.inl rfl) (Nat.mod_one _)
      (by rw [number]; exact bound) fun k less => by
        obtain rfl : k = 0 := by omega
        rw [number]
        exact ⟨here, by simp⟩
    obtain ⟨m₂, answered, -⟩ := started.keeps.performAll started.writable sized
    have read : flatAccess (m.space.numPages.toNat * 128) m.file.bytes (.read (BitVec.ofNat 32 o) 1) =
        (.value (extended (m.file.bytes o)), m.file.bytes) :=
      flatAccess_read (Nat.mod_one _) (by rw [number]; exact bound) (by rw [number]; rfl)
    rw [List.nil_append, answered, flatAccesses, read] at performed
    have same := congrArg (fun result => result.map (·.1.getLast?)) performed
    simp only [flatAccesses, Option.map_some, List.getLast?_singleton, List.getLast?_append,
      Option.some_or, Option.some.injEq, Reply.value.injEq] at same
    exact (extended_eq_zero _).mp same
  · intro zero before addr size sized legal aligned inside untouched
    have inside : addr.toNat < m.space.numPages.toNat * 128 := inside
    have all : ∀ access ∈ before ++ [.read addr size], Sized access.size := by
      intro access member
      rcases List.mem_append.mp member with old | new
      · exact sized access old
      · rw [List.mem_singleton.mp new]
        exact legal
    obtain ⟨m', performed, -⟩ := started.keeps.performAll started.writable all
    have offset := legal_offset legal aligned
    have fetched : fetch (flatAccesses (m.space.numPages.toNat * 128) m.file.bytes before).2 addr.toNat size =
        some 0 := by
      rw [← fetch_zero legal]
      refine fetch_congr fun k less => ?_
      obtain ⟨here, spares⟩ := untouched k less
      rw [flatAccesses_spares sized spares]
      exact zero _ (by omega) here
    refine ⟨(flatAccesses (m.space.numPages.toNat * 128) m.file.bytes before).1, m', performed.trans ?_⟩
    rw [flatAccesses_append, flatAccesses, flatAccess_read aligned inside fetched]
    rfl

/-! ## A file that is too short -/

/-- The first page fault of a program: a frame is filled and mapped. -/
theorem PageFault_blank (table : m.space.pageTable = blankTable) (badVAddr : BitVec 32) :
    ∃ pos, (m.PageFault badVAddr).mainMemory = fill m.mainMemory m.file (badVAddr.toNat / 128) pos ∧
      (m.PageFault badVAddr).space = m.space.mapPage (badVAddr.toNat / 128) pos := by
  cases found : m.bitmap.find with
  | mk free bitmap =>
    cases free with
    | some pos =>
      refine ⟨pos, ?_, ?_⟩ <;> simp only [Paged.PageFault, found, PageSize]
    | none =>
      have clean : m.space.victim = none := by
        refine List.find?_eq_none.mpr fun j _ => ?_
        rw [table]
        simp [blankTable]
      refine ⟨0, ?_, ?_⟩ <;> simp only [Paged.PageFault, found, evict, clean, PageSize]

/-- The first byte that a program reads is the one that is in the frame. -/
theorem perform_first (table : m.space.pageTable = blankTable) (fits : m.space.numPages.toNat ≤ 64)
    {addr : BitVec 32} (inside : addr.toNat < m.space.numPages.toNat * 128) :
    ∃ pos m', m.perform (.read addr 1) 2 = some (.value (extended
      (fill m.mainMemory m.file (addr.toNat / 128) pos (pos * 128 + addr.toNat % 128))), m') := by
  have absent : ∀ i, (m.space.pageTable i).virtualPage.toNat ≠ addr.toNat / 128 := by
    intro i
    rw [table]
    show (4294967295 : Nat) ≠ _
    omega
  have faulted : m.attempt (.read addr 1) = (.raised .PageFaultException, m) :=
    attempt_raises fun writing => translate_absent (.inl rfl) (Nat.mod_one _) inside absent
  obtain ⟨pos, memory, space⟩ := PageFault_blank table addr
  have entry : (m.PageFault addr).space.pageTable pos = { blankTable pos with
      valid := true, virtualPage := BitVec.ofNat 32 (addr.toNat / 128), use := false, dirty := false
      readOnly := false } := by
    rw [space, ← table]
    exact Function.update_self _ _ _
  have page : (BitVec.ofNat 32 (addr.toNat / 128)).toNat = addr.toNat / 128 := by
    rw [BitVec.toNat_ofNat]
    exact Nat.mod_eq_of_lt (by omega)
  have found : (m.PageFault addr).space.pageTable.search (addr.toNat / 128) = some pos := by
    cases missing : (m.PageFault addr).space.pageTable.search (addr.toNat / 128) with
    | none =>
      refine absurd ?_ (search_none.mp missing pos)
      rw [entry]
      exact page
    | some i =>
      by_cases here : i = pos
      · rw [here]
      · have other := search_some missing
        refine absurd ?_ (absent i)
        rw [← other, space]
        exact congrArg (fun entry : TranslationEntry => entry.virtualPage.toNat)
          (Function.update_of_ne here _ _).symm
  have translated := @translate_present addr 1 _ (m.PageFault addr).space.numPages false (.inl rfl)
    (Nat.mod_one _) (by rw [space]; exact inside) pos found (by rw [entry]; exact blank_frame pos)
    (by rw [entry]; rfl)
  obtain ⟨m', read⟩ : ∃ m', (m.PageFault addr).attempt (.read addr 1) = (.value (extended
      (fill m.mainMemory m.file (addr.toNat / 128) pos (pos * 128 + addr.toNat % 128))), m') := by
    rw [← memory]
    simp only [Paged.attempt, ReadMem, translated, fetch]
    exact ⟨_, rfl⟩
  refine ⟨pos, m', ?_⟩
  rw [perform_faulted faulted]
  exact perform_answered read (by simp) 0

/-- A byte behind the end of the file is whatever the frame held. -/
theorem Paged.not_readsZero_of_short (table : m.space.pageTable = blankTable)
    (fits : m.space.numPages.toNat ≤ 64) {region : Nat → Prop} {o : Nat}
    (inside : o < m.space.numPages.toNat * 128) (short : m.file.length ≤ o) (here : region o)
    (dirty : ∀ i, m.mainMemory i ≠ 0) : ¬ m.ReadsZero region := by
  intro zero
  have number : (BitVec.ofNat 32 o).toNat = o := by
    rw [BitVec.toNat_ofNat]
    exact Nat.mod_eq_of_lt (by omega)
  obtain ⟨replies, m', performed⟩ := zero [] (BitVec.ofNat 32 o) 1 (by simp) (.inl rfl) (Nat.mod_one _)
    (by rw [number]; exact inside) fun k less => by
      obtain rfl : k = 0 := by omega
      rw [number]
      exact ⟨here, by simp⟩
  obtain ⟨pos, m₁, first⟩ := perform_first table fits (number.trans_lt inside)
  rw [number] at first
  simp only [List.nil_append, Paged.performAll, first, Option.bind_eq_bind, Option.bind_some] at performed
  have last := congrArg (fun result => result.map (·.1.getLast?)) performed
  simp only [Option.pure_def, Option.map_some, List.getLast?_singleton, List.getLast?_append, Option.some_or,
    Option.some.injEq, Reply.value.injEq] at last
  have kept : fill m.mainMemory m.file (o / 128) pos (pos * 128 + o % 128) = m.mainMemory (pos * 128 + o % 128) := by
    unfold fill BackingFile.ReadAt
    simp only [PageSize]
    split
    · rfl
    · exact Memory.splice_outside (by omega)
  rw [kept] at last
  exact dirty _ ((extended_eq_zero _).mp last)

end

end Nachos.Paging
