import Nachos.Userprog.ContextSwitch

/-! Parents and children: `child` holds the unfinished children of a thread, and
`father` leads to an unfinished thread, as long as a thread started by `SC_Exec`
can open its program and a thread calls `SC_Exit` only when its children have
finished. `SC_Join` then waits for the child it is called with, unless the
uninitialised `found` happens to be set. -/
namespace Nachos.Userprog.System
open Effects

variable {s s' : System}

/-- The steps that keep families together. A program cannot fail to open except that of
the main thread, nobody exits before its children, and `found` is clear where the
handler does not set it. -/
def Allowed (s : System) : Event → Prop
  | .fails t => (s.thread t).father = t
  | .exits t => ∀ i, (s.thread t).child i = 0
  | .strays _ found => found = false
  | _ => True

/-- A step of a run that keeps families together. -/
def AllowedStep (s : System) (events : List Event) (s' : System) : Prop :=
  Step s events s' ∧ ∀ event ∈ events, s.Allowed event

/-- The links between the threads. -/
structure Family (s : System) : Prop where
  null : ¬ s.Runnable 0
  children (p : Address) (i : Fin 10) : (s.thread p).child i ≠ 0 →
    s.Runnable ((s.thread p).child i) ∧ (s.thread ((s.thread p).child i)).father = p
  distinct (p : Address) (i j : Fin 10) : (s.thread p).child i ≠ 0 →
    (s.thread p).child i = (s.thread p).child j → i = j
  listed (t : Address) : s.Runnable t → (s.thread t).father ≠ t →
    ∃ i, (s.thread (s.thread t).father).child i = t
  fathers (t : Address) : s.Runnable t → s.Runnable (s.thread t).father
  joins (t : Address) (i : Nat) (id : Address) : (s.thread t).point = .joining i id →
    ∃ inside : i < 10, (s.thread t).child ⟨i, inside⟩ = id ∨
      (s.thread t).child ⟨i, inside⟩ = 0 ∧ (s.thread id).point = .finished
  fresh (t : Address) : (s.thread t).point = .exec → ∀ i, (s.thread t).child i = 0

theorem Boots.family (boots : Boots s) : Family s := by
  have empty : ∀ p i, (s.thread p).child i = 0 := fun p => (boots.unborn p).2.1
  have self : ∀ t, (s.thread t).father = t := fun t => (boots.unborn t).2.2
  refine ⟨fun runnable => ?_, fun p i listed => ?_, fun p i _ listed => ?_, fun t _ child => ?_,
    fun t runnable => ?_, fun t i id joining => ?_, fun t _ => empty t⟩
  · exact runnable.1 (boots.alone 0 (Ne.symm boots.nonnull))
  · exact absurd (empty p i) listed
  · exact absurd (empty p i) listed
  · exact absurd (self t) child
  · rw [self t]
    exact runnable
  · by_cases main : t = s.currentThread
    · rw [main, show (s.thread s.currentThread).point = _ from boots.main] at joining
      cases joining
    · rw [boots.alone t main] at joining
      cases joining

/-! ## Steps that leave the links alone -/

/-- No thread is started or ends, and `SC_Join` begins only for a listed thread. -/
structure Keeps (s s' : System) : Prop where
  child (t : Address) : (s'.thread t).child = (s.thread t).child
  father (t : Address) : (s'.thread t).father = (s.thread t).father
  unborn (t : Address) : (s'.thread t).point = .unborn ↔ (s.thread t).point = .unborn
  finished (t : Address) : (s'.thread t).point = .finished ↔ (s.thread t).point = .finished
  exec (t : Address) : (s'.thread t).point = .exec → (s.thread t).point = .exec
  joins (t : Address) (i : Nat) (id : Address) : (s'.thread t).point = .joining i id →
    (s.thread t).point = .joining i id ∨ ∃ inside : i < 10, (s.thread t).child ⟨i, inside⟩ = id

theorem Keeps.runnable (keeps : Keeps s s') (t : Address) : s'.Runnable t ↔ s.Runnable t := by
  unfold Runnable
  rw [Ne, Ne, keeps.unborn t, keeps.finished t]

theorem Family.keeps (family : Family s) (keeps : Keeps s s') : Family s' := by
  refine ⟨?_, fun p i => ?_, fun p i j => ?_, fun t => ?_, fun t => ?_, fun t i id joining => ?_,
    fun t exec => ?_⟩
  · rw [keeps.runnable]
    exact family.null
  · rw [keeps.child, keeps.runnable, keeps.father]
    exact family.children p i
  · rw [keeps.child]
    exact family.distinct p i j
  · rw [keeps.runnable, keeps.father, keeps.child]
    exact family.listed t
  · rw [keeps.runnable, keeps.father, keeps.runnable]
    exact family.fathers t
  · rw [keeps.child, keeps.finished]
    obtain before | ⟨inside, listed⟩ := keeps.joins t i id joining
    · exact family.joins t i id before
    · exact ⟨inside, .inl listed⟩
  · rw [keeps.child]
    exact family.fresh t (keeps.exec t exec)

theorem Keeps.trans {s'' : System} (first : Keeps s s') (second : Keeps s' s'') : Keeps s s'' where
  child t := (second.child t).trans (first.child t)
  father t := (second.father t).trans (first.father t)
  unborn t := (second.unborn t).trans (first.unborn t)
  finished t := (second.finished t).trans (first.finished t)
  exec t now := first.exec t (second.exec t now)
  joins t i id joining := by
    obtain before | listed := second.joins t i id joining
    · exact first.joins t i id before
    · rw [first.child t] at listed
      exact .inr listed

theorem keeps_Run (s : System) (next : Address) : Keeps s (s.Run next) where
  child t := by rw [Run_thread, SaveUserState_thread]
  father t := by rw [Run_thread, SaveUserState_thread]
  unborn t := by rw [Run_point]
  finished t := by rw [Run_point]
  exec t now := by rwa [Run_point] at now
  joins t i id joining := by
    rw [Run_point] at joining
    exact .inl joining

/-- The current thread moves from one point to another. -/
theorem keeps_current {thread : Thread} (same : s'.thread = Function.update s.thread s.currentThread thread)
    (child : thread.child = s.current.child) (father : thread.father = s.current.father)
    (born : thread.point = .unborn ↔ s.current.point = .unborn)
    (ends : thread.point = .finished ↔ s.current.point = .finished)
    (exec : thread.point = .exec → s.current.point = .exec)
    (joins : ∀ i id, thread.point = .joining i id → s.current.point = .joining i id ∨
      ∃ inside : i < 10, s.current.child ⟨i, inside⟩ = id) : Keeps s s' := by
  have threads : ∀ t, t = s.currentThread ∧ s'.thread t = thread ∨ s'.thread t = s.thread t := by
    intro t
    rw [same]
    by_cases self : t = s.currentThread
    · exact .inl ⟨self, by rw [self, Function.update_self]⟩
    · exact .inr (Function.update_of_ne self _ _)
  refine ⟨fun t => ?_, fun t => ?_, fun t => ?_, fun t => ?_, fun t => ?_, fun t i id => ?_⟩ <;>
    obtain ⟨rfl, now⟩ | now := threads t <;> rw [now]
  · exact child
  · exact father
  · exact born
  · exact ends
  · exact exec
  · exact id
  · exact joins i id
  · exact .inl

/-- The thread runs a user program before and after. -/
theorem keeps_act {change : Registers → Registers} {point : Point}
    (live : s.current.point.live = true) (stays : point.live = true)
    (joins : ∀ i id, point = .joining i id → s.current.point = .joining i id ∨
      ∃ inside : i < 10, s.current.child ⟨i, inside⟩ = id) : Keeps s (s.act change point) := by
  have apart : ∀ {p : Point}, p.live = true → p ≠ .unborn ∧ p ≠ .finished := by
    intro p alive
    refine ⟨?_, ?_⟩ <;>
    · rintro rfl
      cases alive
  refine keeps_current rfl rfl rfl ?_ ?_ (fun now => ?_) joins
  · exact iff_of_false (apart stays).1 (apart live).1
  · exact iff_of_false (apart stays).2 (apart live).2
  · rw [show point = .exec from now] at stays
    cases stays

/-- The thread changes nothing but registers. -/
theorem keeps_stays (change : Registers → Registers) : Keeps s (s.act change s.current.point) :=
  keeps_current rfl rfl rfl Iff.rfl Iff.rfl id fun _ _ => .inl

/-! ## Births -/

/-- The current thread has got a child, in `child[i]`. -/
structure Bears (s s' : System) (i : Fin 10) (child : Address) : Prop where
  runnable : s'.Runnable child
  outside (j : Nat) (id : Address) : (s'.thread child).point ≠ .joining j id
  childless (j : Fin 10) : (s'.thread child).child j = 0
  father : (s'.thread child).father = s.currentThread
  points (t : Address) : t ≠ child → (s'.thread t).point = (s.thread t).point
  fathers (t : Address) : t ≠ child → (s'.thread t).father = (s.thread t).father
  parent : (s'.thread s.currentThread).child = Function.update s.current.child i child
  tables (t : Address) : t ≠ child → t ≠ s.currentThread →
    (s'.thread t).child = (s.thread t).child

theorem bears_spawn {i : Fin 10} {child : Address} {point : Point} (apart : child ≠ s.currentThread)
    (born : point ≠ .unborn ∧ point ≠ .finished) (outside : ∀ j id, point ≠ .joining j id)
    (same : s'.thread = (s.spawn i child point).thread) : Bears s s' i child := by
  have here : s'.thread child =
      ⟨point, (s.thread child).userRegisters, none, fun _ => 0, s.currentThread⟩ := by
    rw [same]
    exact setThread_same _ _
  have parent : s'.thread s.currentThread =
      { s.current with child := Function.update s.current.child i child } := by
    rw [same, spawn, setThread_other _ (Ne.symm apart)]
    exact setThread_same _ _
  have others : ∀ t, t ≠ child → t ≠ s.currentThread → s'.thread t = s.thread t := by
    intro t old other
    rw [same, spawn, setThread_other _ old, setThread_other _ other]
  refine ⟨?_, fun j id => ?_, fun j => ?_, ?_, fun t old => ?_, fun t old => ?_, ?_, fun t old other => ?_⟩
  · unfold Runnable
    rw [here]
    exact born
  · rw [here]
    exact outside j id
  · rw [here]
  · rw [here]
  · by_cases self : t = s.currentThread
    · rw [self, parent]
      rfl
    · rw [others t old self]
  · by_cases self : t = s.currentThread
    · rw [self, parent]
      rfl
    · rw [others t old self]
  · rw [parent]
  · rw [others t old other]

theorem Bears.runs {i : Fin 10} {child t : Address} (bears : Bears s s' i child) (old : t ≠ child) :
    s'.Runnable t ↔ s.Runnable t := by
  unfold Runnable
  rw [bears.points t old]

/-- What stands in the tables after a birth: what stood there, or the child. -/
theorem Bears.slot {i : Fin 10} {child p : Address} {j : Fin 10} (bears : Bears s s' i child)
    (filled : (s'.thread p).child j ≠ 0) :
    (p = s.currentThread ∧ j = i ∧ (s'.thread p).child j = child) ∨
      ((s'.thread p).child j = (s.thread p).child j ∧ ¬ (p = s.currentThread ∧ j = i)) := by
  by_cases self : p = s.currentThread
  · subst self
    rw [bears.parent] at filled ⊢
    by_cases at_i : j = i
    · rw [at_i, Function.update_self]
      exact .inl ⟨rfl, rfl, rfl⟩
    · rw [Function.update_of_ne at_i]
      exact .inr ⟨rfl, fun both => at_i both.2⟩
  · have old : p ≠ child := by
      rintro rfl
      exact filled (bears.childless j)
    rw [bears.tables p old self]
    exact .inr ⟨rfl, fun both => self both.1⟩

theorem Family.bears (family : Family s) {i : Fin 10} {child : Address} (bears : Bears s s' i child)
    (running : s.Runnable s.currentThread) (stands : s.current.point = .yielding)
    (free : s.current.child i = 0) (nonnull : child ≠ 0) (new : (s.thread child).point = .unborn) :
    Family s' := by
  have stillborn : ¬ s.Runnable child := fun runnable => runnable.1 new
  have old : ∀ {t}, s.Runnable t → t ≠ child := by
    rintro t runnable rfl
    exact stillborn runnable
  have apart := old running
  have runs : ∀ {t}, s.Runnable t → s'.Runnable t := fun runnable =>
    (bears.runs (old runnable)).mpr runnable
  have before : ∀ {t}, s'.Runnable t → t ≠ child → s.Runnable t := fun runnable other =>
    (bears.runs other).mp runnable
  refine ⟨fun runnable => ?_, fun p j filled => ?_, fun p j k filled equal => ?_, fun t runnable child' => ?_,
    fun t runnable => ?_, fun t j id joining => ?_, fun t exec => ?_⟩
  · exact family.null (before runnable (Ne.symm nonnull))
  · obtain ⟨rfl, rfl, is⟩ | ⟨is, -⟩ := bears.slot filled
    · rw [is]
      exact ⟨bears.runnable, bears.father⟩
    · rw [is] at filled ⊢
      obtain ⟨runnable, father⟩ := family.children p j filled
      exact ⟨runs runnable, (bears.fathers _ (old runnable)).trans father⟩
  · have filled' : (s'.thread p).child k ≠ 0 := equal ▸ filled
    obtain ⟨rfl, rfl, is⟩ | ⟨is, elsewhere⟩ := bears.slot filled <;>
      obtain ⟨self, at_i, is'⟩ | ⟨is', elsewhere'⟩ := bears.slot filled'
    · exact at_i.symm
    · -- The child was in no table.
      rw [is, is'] at equal
      rw [is'] at filled'
      exact absurd equal.symm (old (family.children _ k filled').1)
    · rw [is, is'] at equal
      rw [is] at filled
      exact absurd equal (old (family.children _ j filled).1)
    · rw [is, is'] at equal
      rw [is] at filled
      exact family.distinct p j k filled equal
  · by_cases youngest : t = child
    · subst youngest
      rw [bears.father, bears.parent]
      exact ⟨i, Function.update_self _ _ _⟩
    · have runnable' := before runnable youngest
      rw [bears.fathers t youngest] at child' ⊢
      obtain ⟨j, listed⟩ := family.listed t runnable' child'
      have parent := old (family.fathers t runnable')
      refine ⟨j, ?_⟩
      by_cases self : (s.thread t).father = s.currentThread
      · rw [self] at listed ⊢
        have other : j ≠ i := by
          rintro rfl
          rw [show (s.thread s.currentThread).child j = 0 from free] at listed
          rw [← listed] at runnable'
          exact family.null runnable'
        rw [bears.parent, Function.update_of_ne other]
        exact listed
      · rw [bears.tables _ parent self]
        exact listed
  · by_cases youngest : t = child
    · rw [youngest, bears.father]
      exact runs running
    · rw [bears.fathers t youngest]
      exact runs (family.fathers t (before runnable youngest))
  · have known : t ≠ child := by
      rintro rfl
      exact bears.outside j id joining
    rw [bears.points t known] at joining
    have other : t ≠ s.currentThread := by
      rintro rfl
      rw [show (s.thread s.currentThread).point = _ from stands] at joining
      cases joining
    obtain ⟨inside, listed | ⟨gone, finished⟩⟩ := family.joins t j id joining
    · refine ⟨inside, .inl ?_⟩
      rw [bears.tables t known other]
      exact listed
    · refine ⟨inside, .inr ⟨?_, ?_⟩⟩
      · rw [bears.tables t known other]
        exact gone
      · have dead : id ≠ child := by
          rintro rfl
          rw [new] at finished
          cases finished
        rw [bears.points id dead]
        exact finished

  · by_cases youngest : t = child
    · rw [youngest]
      exact bears.childless
    · rw [bears.points t youngest] at exec
      have other : t ≠ s.currentThread := by
        rintro rfl
        rw [show (s.thread s.currentThread).point = _ from stands] at exec
        cases exec
      rw [bears.tables t youngest other]
      exact family.fresh t exec

/-! ## Deaths -/

/-- The current thread has finished, and no table holds it any more. -/
structure Leaves (s s' : System) : Prop where
  dead : (s'.thread s.currentThread).point = .finished
  points (t : Address) : t ≠ s.currentThread → (s'.thread t).point = (s.thread t).point
  fathers (t : Address) : (s'.thread t).father = (s.thread t).father
  cleared (p : Address) (j : Fin 10) : (s.thread p).child j = s.currentThread →
    (s'.thread p).child j = 0
  tables (p : Address) (j : Fin 10) : (s.thread p).child j ≠ s.currentThread →
    (s'.thread p).child j = (s.thread p).child j

theorem Family.leaves (family : Family s) (leaves : Leaves s s')
    (childless : ∀ i, s.current.child i = 0) : Family s' := by
  have other : ∀ {t}, s'.Runnable t → t ≠ s.currentThread := by
    rintro t runnable rfl
    exact runnable.2 leaves.dead
  have runs : ∀ {t}, t ≠ s.currentThread → (s'.Runnable t ↔ s.Runnable t) := by
    intro t apart
    unfold Runnable
    rw [leaves.points t apart]
  have before : ∀ {t}, s'.Runnable t → s.Runnable t := fun runnable =>
    (runs (other runnable)).mp runnable
  have slot : ∀ {p j}, (s'.thread p).child j ≠ 0 → (s.thread p).child j ≠ s.currentThread :=
    fun filled gone => filled (leaves.cleared _ _ gone)
  refine ⟨fun runnable => family.null (before runnable), fun p j filled => ?_,
    fun p j k filled equal => ?_, fun t runnable child => ?_, fun t runnable => ?_,
    fun t j id joining => ?_, fun t exec j => ?_⟩
  · have kept := leaves.tables p j (slot filled)
    rw [kept] at filled
    obtain ⟨runnable, father⟩ := family.children p j filled
    rw [kept, leaves.fathers]
    refine ⟨(runs ?_).mpr runnable, father⟩
    rw [← kept] at filled
    exact slot filled
  · have filled' : (s'.thread p).child k ≠ 0 := equal ▸ filled
    have kept := leaves.tables p j (slot filled)
    rw [kept, leaves.tables p k (slot filled')] at equal
    rw [kept] at filled
    exact family.distinct p j k filled equal
  · rw [leaves.fathers] at child ⊢
    obtain ⟨j, listed⟩ := family.listed t (before runnable) child
    refine ⟨j, ?_⟩
    rw [leaves.tables _ j (by rw [listed]; exact other runnable)]
    exact listed
  · rw [leaves.fathers]
    refine (runs fun orphan => ?_).mpr (family.fathers t (before runnable))
    -- The current thread has no children left.
    have child : (s.thread t).father ≠ t := by
      rw [orphan]
      exact Ne.symm (other runnable)
    obtain ⟨j, listed⟩ := family.listed t (before runnable) child
    rw [orphan, show (s.thread s.currentThread).child j = 0 from childless j] at listed
    rw [← listed] at runnable
    exact family.null (before runnable)
  · have alive : t ≠ s.currentThread := by
      rintro rfl
      rw [leaves.dead] at joining
      cases joining
    rw [leaves.points t alive] at joining
    have gone : ∀ {x}, (s.thread x).point = .finished → (s'.thread x).point = .finished := by
      intro x finished
      by_cases self : x = s.currentThread
      · rw [self]
        exact leaves.dead
      · rw [leaves.points x self]
        exact finished
    obtain ⟨inside, listed⟩ := family.joins t j id joining
    refine ⟨inside, ?_⟩
    by_cases self : (s.thread t).child ⟨j, inside⟩ = s.currentThread
    · rw [leaves.cleared t _ self]
      obtain is | ⟨-, finished⟩ := listed
      · rw [← is, self]
        exact .inr ⟨rfl, leaves.dead⟩
      · exact .inr ⟨rfl, gone finished⟩
    · rw [leaves.tables t _ self]
      obtain is | ⟨empty, finished⟩ := listed
      · exact .inl is
      · exact .inr ⟨empty, gone finished⟩
  · have alive : t ≠ s.currentThread := by
      rintro rfl
      rw [leaves.dead] at exec
      cases exec
    rw [leaves.points t alive] at exec
    have empty := family.fresh t exec j
    by_cases self : (s.thread t).child j = s.currentThread
    · exact leaves.cleared t j self
    · rw [leaves.tables t j self]
      exact empty

/-- The threads after `SC_Exit`, when `child[i]` of the father holds the thread. -/
theorem exit_threads {i : Fin 10} (child : s.current.father ≠ s.currentThread)
    (found : ((List.finRange 10).find? fun i =>
      (s.thread s.current.father).child i = s.currentThread) = some i) (t : Address) :
    s.exit.thread t = if t = s.currentThread then { s.current with point := .finished }
      else if t = s.current.father then { s.thread t with
        child := Function.update (s.thread t).child i 0 }
      else s.thread t := by
  unfold exit
  by_cases self : t = s.currentThread
  · rw [if_pos self, self, setThread_same]
    exact congrArg (fun thread : Thread => { thread with point := Point.finished })
      (setThread_other _ (Ne.symm child))
  · rw [if_neg self, setThread_other _ self]
    by_cases father : t = s.current.father
    · rw [if_pos father, father, setThread_same, found]
    · rw [if_neg father, setThread_other _ father]

theorem Family.leaves_exit (family : Family s) (running : s.Runnable s.currentThread)
    (child : s.current.father ≠ s.currentThread) : Leaves s s.exit := by
  obtain ⟨k, listed⟩ := family.listed _ running child
  have nonnull : s.currentThread ≠ 0 := by
    intro null
    rw [null] at running
    exact family.null running
  obtain ⟨i, found⟩ : ∃ i, ((List.finRange 10).find? fun i =>
      (s.thread s.current.father).child i = s.currentThread) = some i := by
    apply Option.isSome_iff_exists.mp
    rw [List.find?_isSome]
    exact ⟨k, List.mem_finRange k, decide_eq_true listed⟩
  have slot : (s.thread s.current.father).child i = s.currentThread := by
    simpa using List.find?_some found
  have threads := exit_threads child found
  refine ⟨?_, fun t other => ?_, fun t => ?_, fun p j holds => ?_, fun p j other => ?_⟩
  · rw [threads, if_pos rfl]
  · rw [threads, if_neg other]
    split <;> rfl
  · rw [threads]
    split
    · rename_i self
      rw [self]
      rfl
    · split <;> rfl
  · -- Only the father's table can hold the thread, and only once.
    have father : p = s.current.father := by
      have known := (family.children p j (by rw [holds]; exact nonnull)).2
      rw [holds] at known
      exact known.symm
    subst father
    have same : j = i := by
      refine family.distinct _ j i (by rw [holds]; exact nonnull) ?_
      rw [holds, slot]
    rw [threads, if_neg child, if_pos rfl, same]
    exact Function.update_self _ _ _
  · rw [threads]
    by_cases self : p = s.currentThread
    · rw [if_pos self, self]
      rfl
    · rw [if_neg self]
      by_cases father : p = s.current.father
      · rw [if_pos father]
        have apart : j ≠ i := by
          rintro rfl
          rw [father] at other
          exact other slot
        exact Function.update_of_ne apart _ _
      · rw [if_neg father]

/-- The main thread cannot open its program: it has no children. -/
theorem Family.leaves_main (family : Family s) (running : s.Runnable s.currentThread)
    (stands : s.current.point = .exec) (main : s.current.father = s.currentThread) :
    Leaves s (s.setThread s.currentThread { s.current with point := .finished }) := by
  have nonnull : s.currentThread ≠ 0 := by
    intro null
    rw [null] at running
    exact family.null running
  have threads : ∀ t, (s.setThread s.currentThread { s.current with point := .finished }).thread t =
      if t = s.currentThread then { s.thread t with point := .finished } else s.thread t := by
    intro t
    by_cases self : t = s.currentThread
    · rw [if_pos self, self]
      exact setThread_same _ _
    · rw [if_neg self]
      exact setThread_other _ self
  refine ⟨?_, fun t other => ?_, fun t => ?_, fun p j holds => ?_, fun p j _ => ?_⟩
  · rw [threads, if_pos rfl]
  · rw [threads, if_neg other]
  · rw [threads]
    split <;> rfl
  · have known := (family.children p j (by rw [holds]; exact nonnull)).2
    rw [holds, show (s.thread s.currentThread).father = _ from main] at known
    subst known
    rw [show (s.thread s.currentThread).child j = 0 from family.fresh _ stands j] at holds
    exact absurd holds.symm nonnull
  · rw [threads]
    split <;> rfl

/-! ## Every step -/

theorem live_runnable (live : s.current.point.live = true) : s.Runnable s.currentThread := by
  refine ⟨fun unborn => ?_, fun finished => ?_⟩
  · rw [show s.current.point = _ from unborn] at live
    cases live
  · rw [show s.current.point = _ from finished] at live
    cases live

/-- `SC_Exec` and `SC_Fork` in `child[i]`, up to `Thread::Fork`. -/
theorem Family.called (family : Family s) {i : Fin 10} {child : Address} {point : Point}
    (stands : s.current.point = .trapped) (free : s.FirstSlot 0 i) (nonnull : child ≠ 0)
    (new : (s.thread child).point = .unborn) (born : point ≠ .unborn ∧ point ≠ .finished)
    (outside : ∀ j id, point ≠ .joining j id)
    (same : s'.thread = ((s.act (·.write 2 child) .yielding).spawn i child point).thread) :
    Family s' := by
  have live : s.current.point.live = true := by
    rw [stands]
    rfl
  have acted : Family (s.act (·.write 2 child) .yielding) :=
    family.keeps (keeps_act live rfl fun _ _ joins => (by cases joins))
  have apart := unborn_ne_current stands new
  have running : (s.act (·.write 2 child) .yielding).Runnable s.currentThread :=
    live_runnable (by rw [act_current]; rfl)
  refine acted.bears (bears_spawn apart born outside same) running (by rw [act_current]) ?_ nonnull ?_
  · rw [act_current]
    exact free.1
  · exact (congrArg Thread.point (setThread_other _ apart)).trans new

theorem Family.step {events : List Event} (family : Family s) (step : Step s events s')
    (allowed : ∀ event ∈ events, s.Allowed event) : Family s' := by
  cases step with
  | instruction change stands | trap stands | pageFault badVAddr stands | full stands call none
  | advance stands | exitMain stands call orphan | serve stands other | result value stands
  | served advances stands =>
    exact family.keeps (keeps_act (by rw [stands]; rfl) rfl fun _ _ joins => (by cases joins))
  | exec stands call free nonnull new =>
    exact family.called stands free nonnull new ⟨by decide, by decide⟩
      (fun _ _ => Point.noConfusion) rfl
  | fork stands call free nonnull new has =>
    exact family.called stands free nonnull new ⟨Point.noConfusion, Point.noConfusion⟩
      (fun _ _ => Point.noConfusion) rfl
  | yields stands runnable =>
    have acted : Keeps s (s.act id .advancing) :=
      keeps_act (by rw [stands]; rfl) rfl fun _ _ joins => (by cases joins)
    exact family.keeps (acted.trans (keeps_Run _ _))
  | yield stands call runnable =>
    have acted : Keeps s (s.act (·.PCAdvance) .user) :=
      keeps_act (by rw [stands]; rfl) rfl fun _ _ joins => (by cases joins)
    exact family.keeps (acted.trans (keeps_Run _ _))
  | @join i stands call listed =>
    refine family.keeps (keeps_act (by rw [stands]; rfl) rfl fun j id joins => .inr ?_)
    cases joins
    exact ⟨i.isLt, listed.1⟩
  | stray found stands call unlisted =>
    have clear : found = false := allowed (.strays s.currentThread found) (by simp)
    subst clear
    exact family.keeps (keeps_act (by rw [stands]; rfl) rfl fun _ _ joins => (by cases joins))
  | joined stands gone =>
    exact family.keeps (keeps_act (by rw [stands]; rfl) rfl fun _ _ joins => (by cases joins))
  | exit stands call child =>
    have childless := allowed (.exits s.currentThread) (by simp)
    have running := live_runnable (s := s) (by rw [stands]; rfl)
    exact family.leaves (family.leaves_exit running child) childless
  | fails stands =>
    have main := allowed (.fails s.currentThread) (by simp)
    have running : s.Runnable s.currentThread := by
      refine ⟨fun unborn => ?_, fun finished => ?_⟩
      · exact absurd (stands.symm.trans unborn) (by decide)
      · exact absurd (stands.symm.trans finished) (by decide)
    exact family.leaves (family.leaves_main running stands main) (family.fresh _ stands)
  | fault badVAddr stands | interrupt => exact family.keeps (keeps_stays _)
  | opens space stands =>
    refine family.keeps (keeps_current rfl rfl rfl ?_ ?_ (fun now => by cases now) fun _ _ joins => (by cases joins))
    · rw [stands]
      exact iff_of_false Point.noConfusion Point.noConfusion
    · rw [stands]
      exact iff_of_false Point.noConfusion Point.noConfusion
  | begins stands =>
    refine family.keeps (keeps_current rfl rfl rfl ?_ ?_ (fun now => by cases now) fun _ _ joins => (by cases joins))
    · rw [stands]
      exact iff_of_false Point.noConfusion Point.noConfusion
    · rw [stands]
      exact iff_of_false Point.noConfusion Point.noConfusion
  | preempts stands runnable =>
    have acted : Keeps s (s.act (·.DelayedLoad) .user) :=
      keeps_act (by rw [stands]; rfl) rfl fun _ _ joins => (by cases joins)
    exact family.keeps (acted.trans (keeps_Run _ _))
  | waits stands present runnable | switches kernel runnable => exact family.keeps (keeps_Run s _)

theorem family_of_runs {start : System} (boots : Boots start) {trace : List Event}
    (run : Runs AllowedStep start trace s) : Family s :=
  run.invariant_state boots.family fun family taken => family.step taken.1 taken.2

/-! ## `SC_Join` -/

/-- A thread that is dispatched again at once is where it was. -/
theorem Run_stays {next : Address} (same : (s.Run next).currentThread = s.currentThread) :
    (s.Run next).current.point = s.current.point := by
  rw [current, same, Run_point]
  rfl

/-- The handler looks the id up and goes on accordingly. -/
theorem join_of_step {events : List Event} (step : Step s events s')
    (allowed : ∀ event ∈ events, s.Allowed event) (same : s'.currentThread = s.currentThread)
    (stands : s.current.point = .trapped) (call : s.registers 2 = SC_Join)
    (moves : s'.current.point ≠ .trapped) :
    (∃ i : Fin 10, s.FirstSlot (s.registers 4) i ∧ s'.current.point = .joining i (s.registers 4)) ∨
      (∀ i, s.current.child i ≠ s.registers 4) ∧ s'.current.point = .user := by
  have elsewhere : ∀ {p : Point}, s.current.point = p → p ≠ .trapped → False := by
    intro p at_p other
    exact other (at_p.symm.trans stands)
  have otherwise : ∀ {code : BitVec 32}, s.registers 2 = code → code ≠ SC_Join → False := by
    intro code is other
    exact other (is.symm.trans call)
  cases step with
  | join _ _ listed => exact .inl ⟨_, listed, by rw [act_current]⟩
  | stray found _ _ unlisted =>
    have clear : found = false := allowed (.strays s.currentThread found) (by simp)
    subst clear
    exact .inr ⟨unlisted, congrArg Thread.point (act_current s _ _)⟩
  | instruction _ there | trap there | pageFault _ there | yields there | advance there
  | waits there | joined there | result _ there | served _ there | opens _ there | fails there
  | begins there | preempts there => exact (elsewhere there (by simp)).elim
  | exec _ code | fork _ code | yield _ code | exitMain _ code | exit _ code =>
    exact (otherwise code (by decide)).elim
  | full _ code =>
    obtain code | code := code <;> exact (otherwise code (by decide)).elim
  | serve _ other => exact absurd (by simp [call]) other
  | fault | interrupt =>
    rw [act_current] at moves
    exact absurd stands moves
  | switches => exact absurd ((Run_stays same).trans stands) moves

/-- The loop ends when the slot is empty. -/
theorem joined_of_step {events : List Event} (step : Step s events s')
    (same : s'.currentThread = s.currentThread) {i : Nat} {id : Address}
    (stands : s.current.point = .joining i id) (moves : s'.current.point ≠ .joining i id) :
    s.current.slot i = 0 := by
  have elsewhere : ∀ {p : Point}, s.current.point = p → p ≠ .joining i id → False := by
    intro p at_p other
    exact other (at_p.symm.trans stands)
  cases step with
  | joined there gone =>
    rw [stands] at there
    cases there
    exact gone
  | instruction _ there | trap there | pageFault _ there | exec there | fork there | full there
  | yields there | advance there | yield there | join there | stray _ there | exitMain there
  | exit there | serve there | result _ there | served _ there | opens _ there | fails there
  | begins there | preempts there => exact (elsewhere there Point.noConfusion).elim
  | fault _ there => obtain there | there := there <;> exact (elsewhere there Point.noConfusion).elim
  | interrupt =>
    rw [act_current] at moves
    exact absurd stands moves
  | waits | switches => exact absurd ((Run_stays same).trans stands) moves

/-- `child` holds unfinished children and `father` is unfinished. `SC_Join` waits for a
thread of the table until it has finished, and for no other thread. -/
theorem families_stay_together {start : System} (boots : Boots start) {trace : List Event}
    (run : Runs AllowedStep start trace s) :
    (∀ p i, (s.thread p).child i ≠ 0 → s.Runnable ((s.thread p).child i) ∧
      (s.thread ((s.thread p).child i)).father = p) ∧
    (∀ t, s.Runnable t → s.Runnable (s.thread t).father) ∧
    (∀ i id, s.current.point = .joining i id → s.current.slot i ≠ 0 → s.current.slot i = id) ∧
    (∀ events s', AllowedStep s events s' → s'.currentThread = s.currentThread →
      (s.current.point = .trapped → s.registers 2 = SC_Join → s'.current.point ≠ .trapped →
        (∃ i : Fin 10, s.FirstSlot (s.registers 4) i ∧
          s'.current.point = .joining i (s.registers 4)) ∨
        (∀ i, s.current.child i ≠ s.registers 4) ∧ s'.current.point = .user) ∧
      (∀ i id, s.current.point = .joining i id → s'.current.point ≠ .joining i id →
        id ≠ 0 → (s.thread id).point = .finished)) := by
  have family := family_of_runs boots run
  refine ⟨family.children, family.fathers, fun i id stands waits => ?_, fun events s' taken same =>
    ⟨join_of_step taken.1 taken.2 same, fun i id stands moves nonnull => ?_⟩⟩
  · obtain ⟨inside, listed⟩ := family.joins _ i id stands
    rw [Thread.slot, dif_pos inside] at waits ⊢
    exact listed.resolve_right fun gone => waits gone.1
  · have gone := joined_of_step taken.1 same stands moves
    obtain ⟨inside, listed⟩ := family.joins _ i id stands
    rw [Thread.slot, dif_pos inside] at gone
    obtain is | ⟨-, finished⟩ := listed
    · exact absurd (is.symm.trans gone) nonnull
    · exact finished

theorem allowed_of_runs {start : System} {trace : List Event} (run : Runs Step start trace s)
    (harmless : ∀ event ∈ trace, ∀ s, Allowed s event) : Runs AllowedStep start trace s := by
  induction run with
  | start => exact .start
  | next before taken ih =>
    refine .next (ih fun event inside => harmless event (List.mem_append_left _ inside)) ⟨taken, ?_⟩
    exact fun event inside => harmless event (List.mem_append_right _ inside) _

/-- Thread 1 waits for thread 2. -/
def joiningParent : System :=
  let back := (((forkedAlone.calls SC_Yield 0).act (·.PCAdvance) .user).Run 1).act (·.PCAdvance) .user
  (back.calls SC_Join 2).act id (.joining 0 2)

theorem runs_joiningParent : Runs Step bare
    [.loads 1, .forks 1 2, .dispatches 2 false, .begins 2, .dispatches 1 true] joiningParent := by
  have yields := runs_calls runs_forkedAlone rfl SC_Yield 0
  have back := yields.next (.yield rfl rfl
    ⟨(by decide : ((forkedAlone.calls SC_Yield 0).thread 1).point ≠ .unborn), by decide⟩)
  have called := runs_calls (back.next (.advance rfl)) rfl SC_Join 2
  have slot : FirstSlot ((((((forkedAlone.calls SC_Yield 0).act (·.PCAdvance) .user).Run 1).act
      (·.PCAdvance) .user).calls SC_Join 2)) 2 0 := ⟨rfl, fun j first => absurd first (by simp)⟩
  exact called.next (.join rfl rfl slot)

theorem families_stay_together_joining : (joiningParent.thread 1).child 0 = 2 ∧
    joiningParent.Runnable 2 ∧ (joiningParent.thread 2).father = 1 ∧ joiningParent.Runnable 1 ∧
    joiningParent.current.slot 0 = 2 := by
  have allowed := allowed_of_runs runs_joiningParent (by simp [Allowed])
  obtain ⟨children, fathers, waits, -⟩ := families_stay_together boots_bare allowed
  obtain ⟨runnable, father⟩ := children 1 0 (by decide)
  exact ⟨rfl, runnable, father, fathers 2 runnable, waits 0 2 rfl (by decide)⟩

/-- The program that `SC_Exec` names cannot be opened. -/
def failedExec : System :=
  let opening := (execed.act id .advancing).Run 2
  opening.setThread 2 { opening.current with point := .finished }

theorem runs_failedExec : Runs Step bare [.loads 1, .dispatches 2 false, .fails 2] failedExec := by
  have dispatched := runs_execed.next
    (.yields rfl ⟨(by decide : (execed.thread 2).point ≠ .unborn), by decide⟩)
  exact dispatched.next (.fails rfl)

/-- The table of the parent still holds a thread that has finished. -/
theorem failed_exec_stays_listed : ∃ start trace s, Boots start ∧ Runs Step start trace s ∧
    s.Runnable 1 ∧ (s.thread 1).child 0 ≠ 0 ∧ (s.thread ((s.thread 1).child 0)).point = .finished :=
  ⟨bare, _, failedExec, boots_bare, runs_failedExec, ⟨by decide, by decide⟩, by decide, rfl⟩

end Nachos.Userprog.System
