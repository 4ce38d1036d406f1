import Nachos.Machine.InterruptProofs

/-! The order among interrupts for the same tick. `CheckIfDue` takes the first interrupt off
the list and, if its time has not come, puts it back behind all others with its time: every
look at a list that starts with a tie turns the tie round. -/
namespace Nachos.Interrupts

variable {H W : Type} {call : Handlers H W} {k k' : State H W}

/-- The two interrupts that come first are for the same tick, and it has not come yet. -/
def State.Tied (k : State H W) : Prop :=
  ∃ first second rest, k.pending = first :: second :: rest ∧ first.1 = second.1 ∧ k.totalTicks < first.1

/-- What a run consists of, with each call of `CheckIfDue` on its own; `CheckIfDue(FALSE)` is
called in the states that `allowed` names. -/
inductive Moves (call : Handlers H W) (allowed : State H W → Prop) : State H W → State H W → Prop where
  | schedules {k : State H W} (request : Request H) : Moves call allowed k (k.Schedule request)
  | ticks {k : State H W} : Moves call allowed k k.tick
  | checks {k : State H W} (here : allowed k) : Moves call allowed k (k.CheckIfDue call false).2
  | skips {k : State H W} : Moves call allowed k (k.CheckIfDue call true).2
  | sets {k : State H W} (status : MachineStatus) (yieldOnReturn : Bool) :
      Moves call allowed k { k with status := status, yieldOnReturn := yieldOnReturn }
  | runs {k : State H W} (world : W) : Moves call allowed k { k with world := world }

/-- Interrupts for one tick fire in the order in which they were scheduled. -/
def State.InTurn (k : State H W) : Prop :=
  k.fired.Pairwise fun a b => a.1.when = b.1.when → a.1.id < b.1.id

/-! ## The steps of a run -/

theorem dispatch_moves (k : State H W) :
    Relation.ReflTransGen (Moves call fun _ => True) k (k.dispatch call) := by
  fun_induction State.dispatch call k with
  | case1 k fired ih => exact ih.head (.checks trivial)
  | case2 k fired => exact .single (.checks trivial)

/-- A step is a sequence of such moves. -/
theorem step_moves (step : Step call k k') : Relation.ReflTransGen (Moves call fun _ => True) k k' := by
  cases step with
  | schedules request => exact .single (.schedules request)
  | ticks =>
    have dispatched : Relation.ReflTransGen (Moves call fun _ => True) k (k.tick.dispatch call) :=
      (dispatch_moves k.tick).head .ticks
    unfold State.OneTick
    dsimp only
    split
    · exact dispatched.tail (.sets _ _)
    · exact dispatched
  | idles goes_on =>
    unfold State.Idle at goes_on
    split at goes_on
    · rename_i after same
      cases goes_on
      have entered : Moves call (fun _ => True) k { k with status := .IdleMode } := .sets _ _
      have skipped : Moves call (fun _ => True) { k with status := .IdleMode }
          (State.CheckIfDue call { k with status := .IdleMode } true).2 := .skips
      rw [same] at skipped
      exact (((dispatch_moves after).head skipped).head entered).tail (.sets _ _)
    · cases goes_on
  | enters status busy => exact .single (.sets _ _)
  | runs world => exact .single (.runs world)

theorem Kept.moves {allowed : State H W → Prop} (kept : Kept k) (moves : Moves call allowed k k') : Kept k' := by
  cases moves with
  | schedules request => exact kept.Schedule request
  | ticks => exact kept.tick.1
  | checks _ => exact (kept.CheckIfDue call false).1
  | skips => exact (kept.CheckIfDue call true).1
  | sets _ _ => exact kept.passes rfl rfl rfl le_rfl kept.ticks
  | runs _ => exact kept.passes rfl rfl rfl le_rfl kept.ticks

theorem Kept.run {allowed : State H W → Prop} (kept : Kept k)
    (run : Relation.ReflTransGen (Moves call allowed) k k') : Kept k' := by
  induction run with
  | refl => exact kept
  | tail _ moves ih => exact ih.moves moves

/-! ## One look at the list -/

/-- No two interrupts are the same. -/
theorem Kept.distinct (kept : Kept k) : (k.pending.map fun element => element.2.id).Nodup := by
  have all := kept.record.map PendingInterrupt.id
  rw [kept.ids, List.map_append, List.map_map] at all
  have nodup := (List.nodup_append.mp (all.nodup_iff.mp List.nodup_range)).2.1
  rwa [List.map_map] at nodup

/-- A `CheckIfDue` that fires nothing keeps the list exactly if it does not start with a tie. -/
theorem Kept.pending_iff (kept : Kept k) (stops : (k.CheckIfDue call false).1 = false) :
    (k.CheckIfDue call false).2.pending = k.pending ↔ ¬ k.Tied := by
  obtain ⟨empty, same⟩ | ⟨when_, toOccur, rest, shape, early | lonely | fires⟩ := k.CheckIfDue_cases call false
  · rw [same]
    refine iff_of_true rfl ?_
    rintro ⟨first, second, others, two, -⟩
    rw [empty] at two
    cases two
  · rw [early.2.2, shape]
    have sorted := kept.sorted
    have distinct := kept.distinct
    rw [shape] at sorted distinct
    cases rest with
    | nil =>
      refine iff_of_true rfl ?_
      rintro ⟨first, second, others, two, -⟩
      rw [shape] at two
      cases two
    | cons second others =>
      show SortedInsert toOccur when_ (second :: others) = _ ↔ _
      have least := (List.pairwise_cons.mp sorted).1 second List.mem_cons_self
      unfold SortedInsert
      by_cases front : when_ < second.1
      · rw [if_pos front]
        refine iff_of_true rfl ?_
        rintro ⟨first, second', others', two, tie, -⟩
        rw [shape] at two
        cases two
        exact absurd tie front.ne
      · rw [if_neg front]
        refine iff_of_false ?_ ?_
        · intro same
          obtain ⟨here, -⟩ := List.cons.inj same
          rw [here] at distinct
          simp at distinct
        · exact fun untied => untied ⟨_, _, _, shape, by dsimp only at least; omega, early.2.1⟩
  · obtain ⟨past, ⟨-, -, none⟩, same⟩ := lonely
    obtain rfl := List.isEmpty_iff.mp none
    rw [same]
    refine iff_of_true shape.symm ?_
    rintro ⟨first, second, others, two, -⟩
    rw [shape] at two
    cases two
  · rw [fires.2.2] at stops
    cases stops

/-! ## Runs without ties -/

/-- Of two interrupts for the same tick, the one scheduled first is fired first. -/
structure Queued (k : State H W) : Prop where
  pending : k.pending.Pairwise fun a b => a.1 < b.1 ∨ a.1 = b.1 ∧ a.2.id < b.2.id
  fired : k.InTurn
  behind : ∀ shot ∈ k.fired, ∀ element ∈ k.pending, shot.1.when = element.1 → shot.1.id < element.2.id
  known : ∀ element ∈ k.pending, element.2.id < k.scheduled.length
  gone : ∀ shot ∈ k.fired, shot.1.id < k.scheduled.length

/-- An interrupt with a new number goes behind all others for its tick. -/
theorem SortedInsert_queued {toOccur : PendingInterrupt H} {when_ : Nat}
    {elements : List (Nat × PendingInterrupt H)}
    (queued : elements.Pairwise fun a b => a.1 < b.1 ∨ a.1 = b.1 ∧ a.2.id < b.2.id)
    (new : ∀ element ∈ elements, element.2.id < toOccur.id) :
    (SortedInsert toOccur when_ elements).Pairwise fun a b => a.1 < b.1 ∨ a.1 = b.1 ∧ a.2.id < b.2.id := by
  induction elements with
  | nil => exact List.pairwise_singleton _ _
  | cons first rest ih =>
    obtain ⟨least, later⟩ := List.pairwise_cons.mp queued
    unfold SortedInsert
    by_cases front : when_ < first.1
    · rw [if_pos front]
      refine List.pairwise_cons.mpr ⟨fun element inside => .inl ?_, queued⟩
      obtain rfl | inside := List.mem_cons.mp inside
      · exact front
      · rcases least element inside with less | ⟨same, -⟩
        · exact front.trans less
        · exact same ▸ front
    · rw [if_neg front]
      refine List.pairwise_cons.mpr ⟨fun element inside => ?_,
        ih later fun element inside => new element (List.mem_cons_of_mem _ inside)⟩
      obtain rfl | inside := mem_SortedInsert.mp inside
      · rcases Nat.lt_or_eq_of_le (Nat.le_of_not_lt front) with less | same
        · exact .inl less
        · exact .inr ⟨same, new first List.mem_cons_self⟩
      · exact least element inside

namespace Queued

/-- The list and the record stay. -/
theorem passes (queued : Queued k) (pending : k'.pending = k.pending) (scheduled : k'.scheduled = k.scheduled)
    (fired : k'.fired = k.fired) : Queued k' := by
  obtain ⟨order, turn, behind, known, gone⟩ := queued
  unfold State.InTurn at turn
  constructor <;> simp only [State.InTurn, pending, scheduled, fired] <;> assumption

theorem Schedule (queued : Queued k) (request : Request H) : Queued (k.Schedule request) := by
  have grown : (k.Schedule request).scheduled.length = k.scheduled.length + 1 := List.length_append
  refine ⟨SortedInsert_queued queued.pending queued.known, queued.fired, fun shot fired element inside same => ?_,
    fun element inside => ?_, fun shot fired => ?_⟩
  · obtain rfl | inside := mem_SortedInsert.mp inside
    · exact queued.gone shot fired
    · exact queued.behind shot fired element inside same
  · rw [grown]
    obtain rfl | inside := mem_SortedInsert.mp inside
    · exact Nat.lt_succ_self _
    · exact (queued.known element inside).trans (Nat.lt_succ_self _)
  · rw [grown]
    exact (queued.gone shot fired).trans (Nat.lt_succ_self _)

theorem Schedules (queued : Queued k) (requests : List (Request H)) :
    Queued (requests.foldl State.Schedule k) := by
  induction requests generalizing k with
  | nil => exact queued
  | cons request rest ih => exact ih (queued.Schedule request)

/-- The first interrupt is fired. -/
theorem fires (queued : Queued k) (call : Handlers H W) {when_ : Nat} {toOccur : PendingInterrupt H}
    {rest : List (Nat × PendingInterrupt H)} (shape : k.pending = (when_, toOccur) :: rest)
    (time : when_ = toOccur.when) : Queued ({ k with pending := rest }.fire call toOccur) := by
  have order := queued.pending
  rw [shape] at order
  obtain ⟨least, later⟩ := List.pairwise_cons.mp order
  have first : (when_, toOccur) ∈ k.pending := by simp [shape]
  have others : ∀ element ∈ rest, element ∈ k.pending := by
    intro element inside
    rw [shape]
    exact List.mem_cons_of_mem _ inside
  have shot : Queued { k with
      pending := rest
      status := .SystemMode
      world := (call toOccur.handler toOccur.arg k.totalTicks k.world).1
      yieldOnReturn := k.yieldOnReturn || (call toOccur.handler toOccur.arg k.totalTicks k.world).2.1
      fired := k.fired ++ [(toOccur, k.totalTicks)] } := by
    refine ⟨later, ?_, fun shot inside element after same => ?_, fun element inside => queued.known element
      (others element inside), fun shot inside => ?_⟩
    · refine List.pairwise_append.mpr ⟨queued.fired, List.pairwise_singleton _ _, fun shot before last now same => ?_⟩
      rw [List.mem_singleton.mp now] at same ⊢
      exact queued.behind shot before _ first (same.trans time.symm)
    · obtain before | now := List.mem_append.mp inside
      · exact queued.behind shot before element (others element after) same
      · rw [List.mem_singleton.mp now] at same ⊢
        rcases least element after with less | ⟨-, less⟩
        · exact absurd (time.trans same) less.ne
        · exact less
    · obtain before | now := List.mem_append.mp inside
      · exact queued.gone shot before
      · rw [List.mem_singleton.mp now]
        exact queued.known _ first
  have called := shot.Schedules (call toOccur.handler toOccur.arg k.totalTicks k.world).2.2
  exact called.passes rfl rfl rfl

theorem CheckIfDue (queued : Queued k) (kept : Kept k) {advanceClock : Bool}
    (untied : advanceClock = false → ¬ k.Tied) : Queued (k.CheckIfDue call advanceClock).2 := by
  have advanced : ∀ when_, Queued (k.advance when_) := by
    intro when_
    unfold State.advance
    split
    · exact queued.passes rfl rfl rfl
    · exact queued
  obtain ⟨-, same⟩ | ⟨when_, toOccur, rest, shape, early | lonely | fires⟩ :=
    k.CheckIfDue_cases call advanceClock
  · rw [same]
    exact queued
  · obtain ⟨rfl, later, computed⟩ := early
    have kept' := (kept.pending_iff (congrArg Prod.fst computed)).mpr (untied rfl)
    rw [computed] at kept' ⊢
    exact queued.passes kept' rfl rfl
  · obtain ⟨-, ⟨-, -, none⟩, same⟩ := lonely
    obtain rfl := List.isEmpty_iff.mp none
    rw [same]
    refine (advanced when_).passes ?_ rfl rfl
    rw [State.advance_pending, shape]
    rfl
  · rw [fires.2.2]
    refine (advanced when_).fires call ?_ (kept.keys _ (by rw [shape]; exact List.mem_cons_self))
    rw [State.advance_pending, shape]

theorem moves (queued : Queued k) (kept : Kept k) (moves : Moves call (fun k => ¬ k.Tied) k k') : Queued k' := by
  cases moves with
  | schedules request => exact queued.Schedule request
  | ticks =>
    unfold State.tick
    split <;> exact queued.passes rfl rfl rfl
  | checks untied => exact queued.CheckIfDue kept fun _ => untied
  | skips => exact queued.CheckIfDue kept fun impossible => by cases impossible
  | sets _ _ => exact queued.passes rfl rfl rfl
  | runs _ => exact queued.passes rfl rfl rfl

end Queued

theorem Starts.queued (starts : Starts k) : Queued k := by
  obtain ⟨-, pending, -, -, fired⟩ := starts
  constructor <;> simp [State.InTurn, pending, fired]

theorem Starts.queued_run {start : State H W} (starts : Starts start)
    (run : Relation.ReflTransGen (Moves call fun k => ¬ k.Tied) start k) : Queued k ∧ Kept k := by
  induction run with
  | refl => exact ⟨starts.queued, starts.kept⟩
  | tail _ moves ih => exact ⟨ih.1.moves ih.2 moves, ih.2.moves moves⟩

/-- A look at the list that fires nothing leaves it alone exactly if it does not start with
a tie, and as long as it never does interrupts for one tick fire in their turn. -/
theorem pending_kept_iff {start : State H W} (starts : Starts start) :
    (∀ k, Relation.ReflTransGen (Moves call fun _ => True) start k → (k.CheckIfDue call false).1 = false →
      ((k.CheckIfDue call false).2.pending = k.pending ↔ ¬ k.Tied)) ∧
    ∀ k, Relation.ReflTransGen (Moves call fun k => ¬ k.Tied) start k → k.InTurn :=
  ⟨fun _ run stops => (starts.kept.run run).pending_iff stops, fun _ run => (starts.queued_run run).1.fired⟩

/-! Interrupts for tick 15, and two ticks. -/

/-- A handler that does nothing. -/
def idleHandler : Handlers Unit Unit := fun _ _ _ _ => ((), false, [])

def atFifteen (arg : Int) : Request Unit :=
  { handler := (), arg := arg, fromNow := 15, type := .DiskInt, positive := by decide }

theorem not_tied_of_differ {first second : Nat × PendingInterrupt H} {rest : List (Nat × PendingInterrupt H)}
    (shape : k.pending = first :: second :: rest) (differ : first.1 ≠ second.1) : ¬ k.Tied := by
  rintro ⟨first', second', rest', shape', same, -⟩
  rw [shape] at shape'
  cases shape'
  exact differ same

theorem not_tied_of_due {first : Nat × PendingInterrupt H} {rest : List (Nat × PendingInterrupt H)}
    (shape : k.pending = first :: rest) (due : first.1 ≤ k.totalTicks) : ¬ k.Tied := by
  rintro ⟨first', second', rest', shape', -, later⟩
  rw [shape] at shape'
  cases shape'
  omega

/-- Two of them behind one for tick 12: a look at tick 10 leaves them alone, and at tick
20 they fire as they were scheduled. -/
theorem pending_kept_behind : ∃ early k,
    Relation.ReflTransGen (Moves idleHandler fun _ => True) machine early ∧
    early.pending.map (fun entry => entry.1) = [12, 15, 15] ∧
    (early.CheckIfDue idleHandler false).2.pending = early.pending ∧
    Relation.ReflTransGen (Moves idleHandler fun k => ¬ k.Tied) machine k ∧
    k.fired.map (fun shot => (shot.1.id, shot.1.when)) = [(2, 12), (0, 15), (1, 15)] ∧ k.InTurn := by
  have starts : Starts machine := ⟨⟨rfl, rfl, rfl, rfl⟩, rfl, rfl, rfl, rfl⟩
  have request : ∀ allowed : State Unit Unit → Prop, Relation.ReflTransGen (Moves idleHandler allowed) machine _ :=
    fun _ => (((Relation.ReflTransGen.single (.schedules (atFifteen 0))).tail (.schedules (atFifteen 1))).tail
      (.schedules { atFifteen 2 with fromNow := 12, positive := by decide })).tail .ticks
  have looked : Relation.ReflTransGen (Moves idleHandler fun k => ¬ k.Tied) machine _ :=
    (request _).tail (.checks (not_tied_of_differ rfl (by decide)))
  have due := looked.tail .ticks
  have first := due.tail (.checks (not_tied_of_due rfl (by decide)))
  have second := first.tail (.checks (not_tied_of_due rfl (by decide)))
  have third := second.tail (.checks (not_tied_of_due rfl (by decide)))
  obtain ⟨kept, inTurn⟩ := @pending_kept_iff _ _ idleHandler _ starts
  refine ⟨_, _, request _, rfl, (kept _ (request _) rfl).mpr ?_, third, rfl, inTurn _ third⟩
  exact not_tied_of_differ rfl (by decide)

/-- Of two of them, the second is fired first. -/
theorem pending_turns_round : (∃ k, Relation.ReflTransGen (Moves idleHandler fun _ => True) machine k ∧
      (k.CheckIfDue idleHandler false).1 = false ∧ (k.CheckIfDue idleHandler false).2.pending ≠ k.pending) ∧
    ∃ k, Relation.ReflTransGen (Step idleHandler) machine k ∧
      k.fired.map (fun shot => (shot.1.id, shot.1.when)) = [(1, 15), (0, 15)] ∧ ¬ k.InTurn := by
  constructor
  · have asked : Relation.ReflTransGen (Moves idleHandler fun _ => True) machine _ :=
      .single (.schedules (atFifteen 0))
    exact ⟨_, asked.tail (.schedules (atFifteen 1)), rfl, by decide⟩
  · have asked : Relation.ReflTransGen (Step idleHandler) machine _ := .single (.schedules (atFifteen 0))
    have early := (asked.tail (.schedules (atFifteen 1))).tail .ticks
    unfold State.OneTick at early
    rw [State.dispatch, dif_neg (by decide)] at early
    have fired := early.tail .ticks
    unfold State.OneTick at fired
    rw [State.dispatch, dif_pos (by decide), State.dispatch, dif_pos (by decide), State.dispatch,
      dif_neg (by decide)] at fired
    refine ⟨_, fired, rfl, ?_⟩
    unfold State.InTurn
    decide

end Nachos.Interrupts
