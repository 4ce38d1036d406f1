import Mathlib.Logic.Function.Basic
import Mathlib.Data.Finset.Card
import Mathlib.Data.Finset.Range
import Mathlib.Data.List.FinRange
import Nachos.Effects.Runs

/-! The tables of threads (`threads/thread.h`, `threads/thread.cc`): how many there
are, which ids are taken and which thread has each, through every way a thread is
made (`createThread`, `SC_Exec`, `SC_Fork`) and ends (`Finish`, `SC_Exit`).

The tables are right after every run. The two system calls, though, make their
thread before they look for a slot in `child`, and without asking how many threads
there are. -/
namespace Nachos.ThreadTable
open Effects

/-! ## The tables -/

def max_thread : Nat := 128

/-- Where a thread object is; a `Thread *` that may be `NULL` is an `Option Address`. -/
abbrev Address := Nat

structure Thread where
  tid : Nat
  child : Fin 10 → Option Address
  father : Address

/-- The static members of `Thread`, the table `thread_pointer` and the objects. The
last field only records the run. -/
structure State where
  thread_cnt : Int
  valid_id : Nat → Int
  thread_pointer : Nat → Option Address
  thread : Address → Thread
  /-- The threads that were constructed and have not called `Finish`. -/
  unfinished : List Address

/-- `Thread::init`. -/
def init (s : State) : State :=
  { s with valid_id := fun i => if i < max_thread then 0 else s.valid_id i }

/-- `Thread::getNewId`; with all ids taken it ends without a `return`, and nothing is
known of what follows. -/
def getNewId (s : State) : Option (Nat × State) :=
  match (List.range max_thread).find? fun i => decide (s.valid_id i = 0) with
  | some i => some (i, { s with valid_id := Function.update s.valid_id i 1 })
  | none => none

/-- `new Thread`, at an address the allocator chose. -/
def construct (s : State) (this : Address) : Option State :=
  match getNewId { s with thread_cnt := s.thread_cnt + 1 } with
  | some (tid, s) =>
    some { s with
      thread_pointer := Function.update s.thread_pointer tid (some this)
      thread := Function.update s.thread this { tid := tid, child := fun _ => none, father := this }
      unfinished := s.unfinished ++ [this] }
  | none => none

/-- `Thread::createThread`, with the pointer it returns. -/
def createThread (s : State) (this : Address) : Option (Option Address × State) :=
  if s.thread_cnt ≥ max_thread then some (none, s)
  else match construct s this with
    | some s => some (some this, s)
    | none => none

/-- The first free slot of `child`. -/
def freeSlot (thread : Thread) : Option (Fin 10) :=
  (List.finRange 10).find? fun i => (thread.child i).isNone

/-- The new thread in `child[i]`, with its `father`. -/
def adopt (s : State) (currentThread new_thread : Address) (i : Fin 10) : State :=
  let parent := s.thread currentThread
  let listed := Function.update s.thread currentThread
    { parent with child := Function.update parent.child i (some new_thread) }
  let child := { listed new_thread with father := currentThread }
  { s with thread := Function.update listed new_thread child }

/-- `SC_Exec` and `SC_Fork` up to `Thread::Fork`, with what register 2 gets when the
call does not fail. -/
def spawn (s : State) (currentThread new_thread : Address) : Option (Option Address × State) :=
  match construct s new_thread with
  | none => none
  | some s =>
    match freeSlot (s.thread currentThread) with
    | none => some (none, s)
    | some i => some (some new_thread, adopt s currentThread new_thread i)

/-- `Thread::Finish` up to `Sleep`. -/
def Finish (s : State) (this : Address) : State :=
  { s with
    thread_cnt := s.thread_cnt - 1
    valid_id := Function.update s.valid_id (s.thread this).tid 0
    thread_pointer := Function.update s.thread_pointer (s.thread this).tid none
    unfinished := s.unfinished.erase this }

/-- `SC_Exit`. -/
def exit (s : State) (currentThread : Address) : State :=
  let father := (s.thread currentThread).father
  if father = currentThread then s
  else match (List.finRange 10).find? fun i =>
      decide ((s.thread father).child i = some currentThread) with
    | some i =>
      let slots := Function.update (s.thread father).child i none
      Finish { s with
        thread := Function.update s.thread father { s.thread father with child := slots } }
        currentThread
    | none => Finish s currentThread

/-! ## Runs -/

inductive Call where
  | createThread (this : Address)
  | Exec (new_thread : Address)
  | Fork (new_thread : Address)
  | Finish
  | Exit
deriving DecidableEq

/-- The thread that a call would make. -/
def Call.makes : Call → Option Address
  | .createThread this | .Exec this | .Fork this => some this
  | .Finish | .Exit => none

/-- What a call of a thread returns and leads to, if anything is known of it. -/
def perform (s : State) (currentThread : Address) : Call → Option (Option Address × State)
  | .createThread this => createThread s this
  | .Exec new_thread => spawn s currentThread new_thread
  | .Fork new_thread => spawn s currentThread new_thread
  | .Finish => some (none, Finish s currentThread)
  | .Exit => some (none, exit s currentThread)

/-- A call by an unfinished thread; a new object is not put over one in use. -/
def Possible (s : State) (currentThread : Address) (call : Call) : Prop :=
  currentThread ∈ s.unfinished ∧ ∀ this, call.makes = some this → this ∉ s.unfinished

/-- One call, reported with the thread that makes it. -/
def Step (s : State) (events : List (Address × Call)) (s' : State) : Prop :=
  ∃ currentThread call result, events = [(currentThread, call)] ∧ Possible s currentThread call ∧
    perform s currentThread call = some (result, s')

/-- The memory before `Initialize`. -/
def blank : State where
  thread_cnt := 0
  valid_id := fun _ => 0
  thread_pointer := fun _ => none
  thread := fun this => { tid := 0, child := fun _ => none, father := this }
  unfinished := []

/-! ## What is asked of the tables -/

/-- The tables describe the unfinished threads. -/
structure Right (s : State) : Prop where
  nodup : s.unfinished.Nodup
  inside (t : Address) : t ∈ s.unfinished → (s.thread t).tid < max_thread
  distinct (t t' : Address) : t ∈ s.unfinished → t' ∈ s.unfinished →
    (s.thread t).tid = (s.thread t').tid → t = t'
  pointer (t : Address) : t ∈ s.unfinished → s.thread_pointer (s.thread t).tid = some t
  marked (i : Nat) : i < max_thread →
    (s.valid_id i ≠ 0 ↔ ∃ t ∈ s.unfinished, (s.thread t).tid = i)
  count : s.thread_cnt = s.unfinished.length

/-- `thread_cnt`, `valid_id` and `thread_pointer` are as they were. -/
def SameTables (s s' : State) : Prop :=
  s'.thread_cnt = s.thread_cnt ∧ s'.valid_id = s.valid_id ∧ s'.thread_pointer = s.thread_pointer

/-- The thread has ten children. -/
def Full (thread : Thread) : Prop := ∀ i, thread.child i ≠ none

/-- A call does what it should: the tables stay right, with 128 threads no other is
made, and a system call that finds no slot for its thread leaves the tables alone. -/
def Proper (s : State) (currentThread : Address) (call : Call) : Prop :=
  ∃ result s', perform s currentThread call = some (result, s') ∧ Right s' ∧
    (call.makes ≠ none → s.unfinished.length = max_thread →
      result = none ∧ SameTables s s' ∧ s'.unfinished = s.unfinished) ∧
    (∀ new_thread, call = .Exec new_thread ∨ call = .Fork new_thread →
      Full (s.thread currentThread) → result = none ∧ SameTables s s')

/-- The system calls have what they do not check: less than 128 threads and a free slot. -/
def HasRoom (s : State) (currentThread : Address) : Call → Prop
  | .Exec _ | .Fork _ => s.unfinished.length < max_thread ∧ ¬ Full (s.thread currentThread)
  | _ => True

/-! ## Free ids -/

variable {s s' : State} {t this currentThread new_thread : Address}

/-- The ids of the unfinished threads, as a set. -/
theorem Right.ids (right : Right s) :
    (s.unfinished.toFinset.image fun t => (s.thread t).tid) ⊆ Finset.range max_thread ∧
      (s.unfinished.toFinset.image fun t => (s.thread t).tid).card = s.unfinished.length := by
  constructor
  · intro i taken
    obtain ⟨t, listed, rfl⟩ := Finset.mem_image.mp taken
    exact Finset.mem_range.mpr (right.inside t (List.mem_toFinset.mp listed))
  · rw [Finset.card_image_of_injOn, List.toFinset_card_of_nodup right.nodup]
    intro t listed t' listed' same
    exact right.distinct t t' (List.mem_toFinset.mp listed) (List.mem_toFinset.mp listed') same

theorem Right.bounded (right : Right s) : s.unfinished.length ≤ max_thread := by
  have most := Finset.card_le_card right.ids.1
  rwa [right.ids.2, Finset.card_range] at most

/-- With 128 threads every id is taken. -/
theorem Right.all_taken (right : Right s) (many : s.unfinished.length = max_thread) {i : Nat}
    (inside : i < max_thread) : s.valid_id i ≠ 0 := by
  have all := Finset.eq_of_subset_of_card_le right.ids.1 (by rw [right.ids.2, many, Finset.card_range])
  have taken : i ∈ s.unfinished.toFinset.image fun t => (s.thread t).tid := by
    rw [all]
    exact Finset.mem_range.mpr inside
  obtain ⟨t, listed, same⟩ := Finset.mem_image.mp taken
  exact (right.marked i inside).mpr ⟨t, List.mem_toFinset.mp listed, same⟩

/-- With fewer an id is free. -/
theorem Right.some_free (right : Right s) (few : s.unfinished.length < max_thread) :
    ∃ i, i < max_thread ∧ s.valid_id i = 0 := by
  by_contra none
  have all : Finset.range max_thread ⊆ s.unfinished.toFinset.image fun t => (s.thread t).tid := by
    intro i inside
    have below := Finset.mem_range.mp inside
    obtain ⟨t, listed, same⟩ := (right.marked i below).mp fun free => none ⟨i, below, free⟩
    exact Finset.mem_image.mpr ⟨t, List.mem_toFinset.mpr listed, same⟩
  have least := Finset.card_le_card all
  rw [right.ids.2, Finset.card_range] at least
  omega

/-! ## Construction -/

/-- What the constructor does to the tables. -/
structure Constructed (s s' : State) (this : Address) (tid : Nat) : Prop where
  inside : tid < max_thread
  free : s.valid_id tid = 0
  count : s'.thread_cnt = s.thread_cnt + 1
  valid : s'.valid_id = Function.update s.valid_id tid 1
  pointer : s'.thread_pointer = Function.update s.thread_pointer tid (some this)
  thread : s'.thread = Function.update s.thread this ⟨tid, fun _ => none, this⟩
  unfinished : s'.unfinished = s.unfinished ++ [this]

theorem construct_cases (s : State) (this : Address) :
    (construct s this = none ∧ ∀ i, i < max_thread → s.valid_id i ≠ 0) ∨
      ∃ s' tid, construct s this = some s' ∧ Constructed s s' this tid := by
  unfold construct getNewId
  cases found : (List.range max_thread).find? fun i => decide (s.valid_id i = 0) with
  | none =>
    refine .inl ⟨rfl, fun i inside => ?_⟩
    simpa using List.find?_eq_none.mp found i (List.mem_range.mpr inside)
  | some tid =>
    refine .inr ⟨_, tid, rfl, ?_⟩
    exact ⟨List.mem_range.mp (List.mem_of_find?_eq_some found),
      by simpa using List.find?_some found, rfl, rfl, rfl, rfl, rfl⟩

/-- The tables describe the threads with the new one among them. -/
theorem Right.construct {tid : Nat} (right : Right s) (fresh : this ∉ s.unfinished)
    (made : Constructed s s' this tid) : Right s' := by
  have old : ∀ t ∈ s.unfinished, s'.thread t = s.thread t := by
    intro t listed
    rw [made.thread, Function.update_of_ne]
    rintro rfl
    exact fresh listed
  have new : (s'.thread this).tid = tid := by rw [made.thread, Function.update_self]
  have apart : ∀ t ∈ s.unfinished, (s.thread t).tid ≠ tid := by
    intro t listed same
    exact (right.marked tid made.inside).mpr ⟨t, listed, same⟩ made.free
  have members : ∀ t, t ∈ s'.unfinished ↔ t ∈ s.unfinished ∨ t = this := by
    intro t
    rw [made.unfinished, List.mem_append, List.mem_singleton]
  refine ⟨?_, fun t listed => ?_, fun t t' listed listed' same => ?_, fun t listed => ?_,
    fun i inside => ?_, ?_⟩
  · rw [made.unfinished]
    exact right.nodup.append (List.nodup_singleton this) (by simpa using fresh)
  · obtain before | rfl := (members t).mp listed
    · rw [old t before]
      exact right.inside t before
    · rw [new]
      exact made.inside
  · obtain before | rfl := (members t).mp listed <;> obtain before' | rfl := (members t').mp listed'
    · rw [old t before, old t' before'] at same
      exact right.distinct t t' before before' same
    · rw [old t before, new] at same
      exact absurd same (apart t before)
    · rw [old t' before', new] at same
      exact absurd same.symm (apart t' before')
    · rfl
  · rw [made.pointer]
    obtain before | rfl := (members t).mp listed
    · rw [old t before, Function.update_of_ne (apart t before)]
      exact right.pointer t before
    · rw [new, Function.update_self]
  · rw [made.valid]
    by_cases taken : i = tid
    · subst taken
      rw [Function.update_self]
      exact iff_of_true one_ne_zero ⟨this, (members this).mpr (.inr rfl), new⟩
    · rw [Function.update_of_ne taken, right.marked i inside]
      constructor
      · rintro ⟨t, before, same⟩
        exact ⟨t, (members t).mpr (.inl before), by rw [old t before, same]⟩
      · rintro ⟨t, listed, same⟩
        obtain before | rfl := (members t).mp listed
        · exact ⟨t, before, by rw [← old t before, same]⟩
        · exact absurd (same.symm.trans new) taken
  · rw [made.count, right.count, made.unfinished, List.length_append, List.length_singleton]
    push_cast
    rfl

/-- Only `child` and `father` change. -/
theorem Right.relink (right : Right s) (count : s'.thread_cnt = s.thread_cnt)
    (valid : s'.valid_id = s.valid_id) (pointer : s'.thread_pointer = s.thread_pointer)
    (unfinished : s'.unfinished = s.unfinished)
    (tids : ∀ t, (s'.thread t).tid = (s.thread t).tid) : Right s' := by
  refine ⟨?_, fun t => ?_, fun t t' => ?_, fun t => ?_, fun i inside => ?_, ?_⟩
  · rw [unfinished]
    exact right.nodup
  · rw [unfinished, tids]
    exact right.inside t
  · rw [unfinished, tids, tids]
    exact right.distinct t t'
  · rw [unfinished, tids, pointer]
    exact right.pointer t
  · rw [valid, unfinished, right.marked i inside]
    simp only [tids]
  · rw [count, unfinished]
    exact right.count

/-! ## The calls -/

theorem adopt_tid (apart : new_thread ≠ currentThread) (i : Fin 10) (t : Address) :
    ((adopt s currentThread new_thread i).thread t).tid = (s.thread t).tid := by
  simp only [adopt]
  by_cases child : t = new_thread
  · rw [child, Function.update_self, Function.update_of_ne apart]
  · rw [Function.update_of_ne child]
    by_cases parent : t = currentThread
    · rw [parent, Function.update_self]
    · rw [Function.update_of_ne parent]

/-- What `SC_Exec` and `SC_Fork` do: nothing is known with all ids taken, and with or
without a slot the new thread is in the tables. -/
theorem spawn_cases (s : State) (apart : new_thread ≠ currentThread) :
    (spawn s currentThread new_thread = none ∧ ∀ i, i < max_thread → s.valid_id i ≠ 0) ∨
      ∃ result s' made tid, spawn s currentThread new_thread = some (result, s') ∧
        Constructed s made new_thread tid ∧
        s'.thread_cnt = made.thread_cnt ∧ s'.valid_id = made.valid_id ∧
        s'.thread_pointer = made.thread_pointer ∧ s'.unfinished = made.unfinished ∧
        ∀ t, (s'.thread t).tid = (made.thread t).tid := by
  obtain ⟨stuck, taken⟩ | ⟨made, tid, constructs, what⟩ := construct_cases s new_thread
  · exact .inl ⟨by simp only [spawn, stuck], taken⟩
  · right
    cases slot : freeSlot (made.thread currentThread) with
    | none =>
      refine ⟨none, made, made, tid, ?_, what, rfl, rfl, rfl, rfl, fun t => rfl⟩
      simp only [spawn, constructs, slot]
    | some i =>
      refine ⟨some new_thread, adopt made currentThread new_thread i, made, tid, ?_, what,
        rfl, rfl, rfl, rfl, adopt_tid apart i⟩
      simp only [spawn, constructs, slot]

/-- The tables without the thread that finishes. -/
theorem Right.Finish (right : Right s) (listed : this ∈ s.unfinished) :
    Right (ThreadTable.Finish s this) := by
  have members : ∀ t, t ∈ (ThreadTable.Finish s this).unfinished ↔ t ≠ this ∧ t ∈ s.unfinished :=
    fun t => right.nodup.mem_erase_iff
  have apart : ∀ t, t ≠ this → t ∈ s.unfinished → (s.thread t).tid ≠ (s.thread this).tid :=
    fun t other present same => other (right.distinct t this present listed same)
  refine ⟨right.nodup.erase this, fun t still => right.inside t ((members t).mp still).2,
    fun t t' still still' => right.distinct t t' ((members t).mp still).2 ((members t').mp still').2,
    fun t still => ?_, fun i inside => ?_, ?_⟩
  · obtain ⟨other, present⟩ := (members t).mp still
    exact (Function.update_of_ne (apart t other present) _ _).trans (right.pointer t present)
  · by_cases freed : i = (s.thread this).tid
    · subst freed
      refine iff_of_false ?_ ?_
      · exact fun nonzero => nonzero (Function.update_self _ _ _)
      · rintro ⟨t, still, same⟩
        obtain ⟨other, present⟩ := (members t).mp still
        exact apart t other present same
    · have kept : (ThreadTable.Finish s this).valid_id i = s.valid_id i :=
        Function.update_of_ne freed _ _
      rw [kept, right.marked i inside]
      constructor
      · rintro ⟨t, present, same⟩
        refine ⟨t, (members t).mpr ⟨?_, present⟩, same⟩
        rintro rfl
        exact freed same.symm
      · rintro ⟨t, still, same⟩
        exact ⟨t, ((members t).mp still).2, same⟩
  · have one : 0 < s.unfinished.length := List.length_pos_of_mem listed
    have fewer : (ThreadTable.Finish s this).unfinished.length = s.unfinished.length - 1 :=
      List.length_erase_of_mem listed
    have lowered : (ThreadTable.Finish s this).thread_cnt = s.thread_cnt - 1 := rfl
    rw [lowered, fewer, right.count]
    omega

theorem Right.exit (right : Right s) (listed : currentThread ∈ s.unfinished) :
    Right (ThreadTable.exit s currentThread) := by
  simp only [ThreadTable.exit]
  split
  · exact right
  · split
    · refine Right.Finish (right.relink rfl rfl rfl rfl fun t => ?_) listed
      by_cases father : t = (s.thread currentThread).father
      · subst father
        simp only [Function.update_self]
      · simp only [Function.update_of_ne father]
    · exact right.Finish listed

/-- `createThread` makes a thread or, with 128 of them, does nothing. -/
theorem createThread_cases (this : Address) (right : Right s) :
    (s.unfinished.length = max_thread ∧ createThread s this = some (none, s)) ∨
      s.unfinished.length < max_thread ∧ ∃ s' tid,
        createThread s this = some (some this, s') ∧ Constructed s s' this tid := by
  unfold createThread
  by_cases many : s.unfinished.length = max_thread
  · exact .inl ⟨many, if_pos (by rw [right.count, many])⟩
  · have few := Nat.lt_of_le_of_ne right.bounded many
    rw [if_neg (by rw [right.count]; omega)]
    obtain ⟨-, taken⟩ | ⟨s', tid, constructs, what⟩ := construct_cases s this
    · obtain ⟨i, inside, free⟩ := right.some_free few
      exact absurd free (taken i inside)
    · exact .inr ⟨few, s', tid, by simp only [constructs], what⟩

/-- The tables are right after every call of which anything is known. -/
theorem Right.step {result : Option Address} {call : Call} (right : Right s)
    (possible : Possible s currentThread call)
    (performed : perform s currentThread call = some (result, s')) : Right s' := by
  have spawned : ∀ new_thread, call.makes = some new_thread →
      spawn s currentThread new_thread = some (result, s') → Right s' := by
    intro new_thread makes spawns
    have fresh := possible.2 new_thread makes
    have apart : new_thread ≠ currentThread := by
      rintro rfl
      exact fresh possible.1
    obtain ⟨stuck, -⟩ | ⟨_, _, made, tid, same, what, count, valid, pointer, unfinished, tids⟩ :=
      spawn_cases s apart
    · cases stuck.symm.trans spawns
    · cases same.symm.trans spawns
      exact (right.construct fresh what).relink count valid pointer unfinished tids
  cases call with
  | createThread this =>
    obtain ⟨-, refused⟩ | ⟨-, made, tid, creates, what⟩ := createThread_cases this right
    · cases refused.symm.trans performed
      exact right
    · cases creates.symm.trans performed
      exact right.construct (possible.2 this rfl) what
  | Exec new_thread => exact spawned new_thread rfl performed
  | Fork new_thread => exact spawned new_thread rfl performed
  | Finish =>
    cases performed
    exact right.Finish possible.1
  | Exit =>
    cases performed
    exact right.exit possible.1

/-- A system call that makes a thread is proper when there is room for the thread, and
only then. -/
theorem Right.proper_spawn {call : Call} (right : Right s)
    (possible : Possible s currentThread call)
    (spawns : call = .Exec new_thread ∨ call = .Fork new_thread) :
    Proper s currentThread call ↔
      s.unfinished.length < max_thread ∧ ¬ Full (s.thread currentThread) := by
  have makes : call.makes = some new_thread := by obtain rfl | rfl := spawns <;> rfl
  have performs : perform s currentThread call = spawn s currentThread new_thread := by
    obtain rfl | rfl := spawns <;> rfl
  have apart : new_thread ≠ currentThread := by
    rintro rfl
    exact possible.2 _ makes possible.1
  obtain ⟨stuck, taken⟩ | ⟨result, s', made, tid, same, what, count, -⟩ := spawn_cases s apart
  · refine iff_of_false ?_ ?_
    · rintro ⟨result, s', performed, -⟩
      cases stuck.symm.trans (performs.symm.trans performed)
    · rintro ⟨few, -⟩
      obtain ⟨i, inside, free⟩ := right.some_free few
      exact taken i inside free
  · have changed : ¬ SameTables s s' := by
      rintro ⟨kept, -⟩
      have more := count.symm.trans kept
      rw [what.count] at more
      omega
    have free : s.unfinished.length ≠ max_thread := fun many =>
      right.all_taken many what.inside what.free
    constructor
    · rintro ⟨_, _, performed, -, -, unlisted⟩
      cases same.symm.trans (performs.symm.trans performed)
      exact ⟨Nat.lt_of_le_of_ne right.bounded free, fun full =>
        changed (unlisted new_thread spawns full).2⟩
    · rintro ⟨-, slot⟩
      exact ⟨result, s', performs.trans same, right.step possible (performs.trans same),
        fun _ many => absurd many free, fun _ _ full => absurd full slot⟩

/-- The other calls always are. -/
theorem Right.proper {call : Call} (right : Right s) (possible : Possible s currentThread call) :
    Proper s currentThread call ↔ HasRoom s currentThread call := by
  cases call with
  | createThread this =>
    refine iff_of_true ?_ trivial
    obtain ⟨many, refused⟩ | ⟨few, s', tid, creates, what⟩ := createThread_cases this right
    · exact ⟨none, s, refused, right, fun _ _ => ⟨rfl, ⟨rfl, rfl, rfl⟩, rfl⟩, by simp⟩
    · exact ⟨some this, s', creates, right.construct (possible.2 this rfl) what,
        fun _ many => absurd many few.ne, by simp⟩
  | Exec new_thread => exact right.proper_spawn possible (.inl rfl)
  | Fork new_thread => exact right.proper_spawn possible (.inr rfl)
  | Finish =>
    refine iff_of_true ⟨none, _, rfl, right.Finish possible.1, ?_, by simp⟩ trivial
    exact fun makes => absurd rfl makes
  | Exit =>
    refine iff_of_true ⟨none, _, rfl, right.exit possible.1, ?_, by simp⟩ trivial
    exact fun makes => absurd rfl makes

/-! ## Whole runs -/

theorem right_init : Right (init blank) := by
  refine ⟨List.nodup_nil, ?_, ?_, ?_, fun i inside => ?_, rfl⟩
  · exact fun t listed => absurd listed List.not_mem_nil
  · exact fun t _ listed => absurd listed List.not_mem_nil
  · exact fun t listed => absurd listed List.not_mem_nil
  · refine iff_of_false (fun marked => marked (if_pos inside)) ?_
    rintro ⟨t, listed, -⟩
    exact List.not_mem_nil listed

/-- `Initialize` has made the main thread. -/
theorem right_start {main : Address} {start : State}
    (boots : createThread (init blank) main = some (some main, start)) : Right start := by
  obtain ⟨-, refused⟩ | ⟨-, s', tid, creates, what⟩ := createThread_cases main right_init
  · cases refused.symm.trans boots
  · cases creates.symm.trans boots
    exact right_init.construct List.not_mem_nil what

theorem right_of_run {main : Address} {start : State}
    (boots : createThread (init blank) main = some (some main, start))
    {trace : List (Address × Call)} (run : Runs Step start trace s) : Right s :=
  run.invariant_state (right_start boots) fun right ⟨_, _, _, _, possible, performed⟩ =>
    right.step possible performed

/-- After every run the tables describe the unfinished threads, and a call does what it
should exactly when it is no `SC_Exec` or `SC_Fork` that lacks room for its thread. -/
theorem thread_tables_right_iff (main : Address) (start : State)
    (boots : createThread (init blank) main = some (some main, start))
    (trace : List (Address × Call)) (s : State) (run : Runs Step start trace s) :
    Right s ∧ ∀ currentThread call, Possible s currentThread call →
      (Proper s currentThread call ↔ HasRoom s currentThread call) :=
  ⟨right_of_run boots run, fun _ _ possible => (right_of_run boots run).proper possible⟩

/-! ## Carrying out a list of calls -/

instance (s : State) (currentThread : Address) (call : Call) :
    Decidable (Possible s currentThread call) :=
  decidable_of_iff
    (currentThread ∈ s.unfinished ∧ ∀ this ∈ call.makes, this ∉ s.unfinished) Iff.rfl

instance (thread : Thread) : Decidable (Full thread) :=
  inferInstanceAs (Decidable (∀ i, thread.child i ≠ none))

/-- The calls one after the other, if each is possible and something is known of it. -/
def performAll (s : State) : List (Address × Call) → Option State
  | [] => some s
  | (currentThread, call) :: rest =>
    if Possible s currentThread call then
      match perform s currentThread call with
      | some (_, s) => performAll s rest
      | none => none
    else none

theorem runs_of_performAll {calls : List (Address × Call)} (performs : performAll s calls = some s') :
    Runs Step s calls s' := by
  induction calls generalizing s with
  | nil =>
    cases performs
    exact .start
  | cons head rest ih =>
    obtain ⟨currentThread, call⟩ := head
    by_cases possible : Possible s currentThread call
    · rw [performAll, if_pos possible] at performs
      cases performed : perform s currentThread call with
      | none =>
        rw [performed] at performs
        cases performs
      | some outcome =>
        rw [performed] at performs
        exact (Runs.single ⟨currentThread, call, outcome.1, rfl, possible, performed⟩).append
          (ih performs)
    · rw [performAll, if_neg possible] at performs
      cases performs

/-- The main thread is at address 0 and makes these calls. -/
def afterCalls (calls : List Call) : Option State :=
  (createThread (init blank) 0).bind fun outcome =>
    performAll outcome.2 (calls.map fun call => (0, call))

theorem run_of_afterCalls {c : List Call} {p : State → Bool}
    (checked : (afterCalls c).any p = true) :
    ∃ start s, createThread (init blank) 0 = some (some 0, start) ∧
      Runs Step start (c.map fun call => (0, call)) s ∧ p s = true := by
  obtain ⟨s, reached, holds⟩ := Option.any_eq_true _ _ |>.mp checked
  obtain ⟨⟨result, start⟩, boots, performs⟩ := Option.bind_eq_some_iff.mp reached
  obtain ⟨many, -⟩ | ⟨-, s', tid, creates, -⟩ := createThread_cases 0 right_init
  · cases many
  · cases creates.symm.trans boots
    exact ⟨_, s, creates, runs_of_performAll performs, holds⟩

theorem thread_tables_right_one :
    ∃ start s, createThread (init blank) 0 = some (some 0, start) ∧
      Runs Step start [(0, .Exec 1)] s ∧ s.thread_cnt = 2 ∧
      Right s ∧ ∀ currentThread call, Possible s currentThread call →
        (Proper s currentThread call ↔ HasRoom s currentThread call) := by
  obtain ⟨start, s, boots, run, two⟩ := run_of_afterCalls
    (c := [.Exec 1]) (p := fun s => decide (s.thread_cnt = 2)) (by decide)
  exact ⟨start, s, boots, run, of_decide_eq_true two,
    thread_tables_right_iff 0 start boots _ s run⟩

/-- Ten times `SC_Exec`. -/
def tenExecs : List Call := (List.range 10).map fun i => .Exec (i + 1)

/-- The eleventh `SC_Exec` of the main thread fails and leaves its thread in the tables. -/
theorem failed_exec_changes_tables :
    ∃ start s, createThread (init blank) 0 = some (some 0, start) ∧
      Runs Step start (tenExecs.map fun call => (0, call)) s ∧
      Possible s 0 (.Exec 11) ∧ Full (s.thread 0) ∧ ¬ Proper s 0 (.Exec 11) ∧
      ∃ s', perform s 0 (.Exec 11) = some (none, s') ∧ s'.thread_cnt = s.thread_cnt + 1 := by
  have checked : (afterCalls tenExecs).any (fun s =>
      decide (Possible s 0 (.Exec 11) ∧ Full (s.thread 0)) &&
        (perform s 0 (.Exec 11)).any fun outcome =>
          decide (outcome.1 = none ∧ outcome.2.thread_cnt = s.thread_cnt + 1)) = true := by decide
  obtain ⟨start, s, boots, run, holds⟩ := run_of_afterCalls checked
  obtain ⟨before, after⟩ := Bool.and_eq_true_iff.mp holds
  obtain ⟨possible, full⟩ := of_decide_eq_true before
  obtain ⟨⟨result, s'⟩, performed, leaves⟩ := (Option.any_eq_true _ _).mp after
  obtain ⟨rfl, more⟩ := of_decide_eq_true leaves
  refine ⟨start, s, boots, run, possible, full, fun proper => ?_, s', performed, more⟩
  exact (((right_of_run boots run).proper possible).mp proper).2 full

end Nachos.ThreadTable
