import Mathlib.Data.List.Perm.Basic
import Mathlib.Data.List.Nodup
import Mathlib.Logic.Relation
import Mathlib.Order.Nat
import Nachos.Machine.Interrupt

/-! Every run of the clock and of the interrupts: an interrupt fires once, not before
its time, in the order of time, and none is lost. Everything rests on the list being
sorted, and on what has fired being earlier than what is pending. -/
namespace Nachos.Interrupts

section
variable {α : Type}

theorem mem_SortedInsert {item : α} {sortKey : Nat} {elements : List (Nat × α)} {element : Nat × α} :
    element ∈ SortedInsert item sortKey elements ↔ element = (sortKey, item) ∨ element ∈ elements := by
  rw [(SortedInsert_perm item sortKey elements).mem_iff, List.mem_cons]

theorem SortedInsert_sorted {item : α} {sortKey : Nat} {elements : List (Nat × α)}
    (sorted : elements.Pairwise fun a b => a.1 ≤ b.1) :
    (SortedInsert item sortKey elements).Pairwise fun a b => a.1 ≤ b.1 := by
  induction elements with
  | nil => exact List.pairwise_singleton _ _
  | cons first rest ih =>
    obtain ⟨least, later⟩ := List.pairwise_cons.mp sorted
    unfold SortedInsert
    by_cases front : sortKey < first.1
    · rw [if_pos front]
      refine List.pairwise_cons.mpr ⟨fun element inside => ?_, sorted⟩
      obtain rfl | inside := List.mem_cons.mp inside
      · exact front.le
      · exact front.le.trans (least element inside)
    · rw [if_neg front]
      refine List.pairwise_cons.mpr ⟨fun element inside => ?_, ih later⟩
      obtain rfl | inside := mem_SortedInsert.mp inside
      · exact Nat.le_of_not_lt front
      · exact least element inside

end

variable {H W : Type}

namespace State

/-- A timer interrupt alone does not keep an idle machine going. -/
def Lonely (k : State H W) (toOccur : PendingInterrupt H) (rest : List (Nat × PendingInterrupt H)) : Prop :=
  k.status = .IdleMode ∧ toOccur.type = .TimerInt ∧ rest.isEmpty = true

/-- Everything `CheckIfDue` can do. -/
theorem CheckIfDue_cases (call : Handlers H W) (k : State H W) (advanceClock : Bool) :
    (k.pending = [] ∧ k.CheckIfDue call advanceClock = (false, k)) ∨
    ∃ when_ toOccur rest, k.pending = (when_, toOccur) :: rest ∧
      ((advanceClock = false ∧ k.totalTicks < when_ ∧ k.CheckIfDue call advanceClock =
          (false, { k with pending := SortedInsert toOccur when_ rest })) ∨
       (¬ (advanceClock = false ∧ k.totalTicks < when_) ∧ k.Lonely toOccur rest ∧
        k.CheckIfDue call advanceClock =
          (false, { k.advance when_ with pending := SortedInsert toOccur when_ rest })) ∨
       (¬ (advanceClock = false ∧ k.totalTicks < when_) ∧ ¬ k.Lonely toOccur rest ∧
        k.CheckIfDue call advanceClock =
          (true, { k.advance when_ with pending := rest }.fire call toOccur))) := by
  have status : ∀ when_, (k.advance when_).status = k.status := by
    intro when_
    unfold advance
    split <;> rfl
  unfold CheckIfDue
  cases shape : k.pending with
  | nil => exact .inl ⟨rfl, rfl⟩
  | cons first rest =>
    obtain ⟨when_, toOccur⟩ := first
    refine .inr ⟨when_, toOccur, rest, rfl, ?_⟩
    by_cases early : advanceClock = false ∧ k.totalTicks < when_
    · exact .inl ⟨early.1, early.2, if_pos early⟩
    · simp only [SortedRemove, if_neg early, status]
      by_cases lonely : k.Lonely toOccur rest
      · exact .inr (.inl ⟨early, lonely, if_pos lonely⟩)
      · exact .inr (.inr ⟨early, lonely, if_neg lonely⟩)

end State

/-- What every state of a run has. -/
structure Kept (k : State H W) : Prop where
  sorted : k.pending.Pairwise fun a b => a.1 ≤ b.1
  keys : ∀ element ∈ k.pending, element.1 = element.2.when
  ticks : k.totalTicks = k.idleTicks + k.systemTicks + k.userTicks
  record : k.scheduled.Perm (k.fired.map Prod.fst ++ k.pending.map Prod.snd)
  ids : k.scheduled.map PendingInterrupt.id = List.range k.scheduled.length
  past : ∀ shot ∈ k.fired, shot.1.when ≤ shot.2 ∧ shot.2 ≤ k.totalTicks
  order : k.fired.Pairwise fun a b => a.1.when ≤ b.1.when
  behind : ∀ shot ∈ k.fired, ∀ element ∈ k.pending, shot.1.when ≤ element.1

namespace Kept

variable {k k' : State H W}

/-- Time passes. -/
theorem passes (kept : Kept k) (pending : k'.pending = k.pending) (scheduled : k'.scheduled = k.scheduled)
    (fired : k'.fired = k.fired) (later : k.totalTicks ≤ k'.totalTicks)
    (ticks : k'.totalTicks = k'.idleTicks + k'.systemTicks + k'.userTicks) : Kept k' where
  sorted := by rw [pending]; exact kept.sorted
  keys := by rw [pending]; exact kept.keys
  ticks := ticks
  record := by rw [pending, scheduled, fired]; exact kept.record
  ids := by rw [scheduled]; exact kept.ids
  past := by
    rw [fired]
    intro shot inside
    exact ⟨(kept.past shot inside).1, (kept.past shot inside).2.trans later⟩
  order := by rw [fired]; exact kept.order
  behind := by rw [fired, pending]; exact kept.behind

theorem Schedule (kept : Kept k) (request : Request H) : Kept (k.Schedule request) := by
  refine ⟨SortedInsert_sorted kept.sorted, fun element inside => ?_, kept.ticks, ?_, ?_, kept.past, kept.order,
    fun shot fired element inside => ?_⟩
  · obtain rfl | inside := mem_SortedInsert.mp inside
    · rfl
    · exact kept.keys element inside
  · have grown : ∀ toOccur, (k.scheduled ++ [toOccur]).Perm (k.fired.map Prod.fst ++
        (SortedInsert toOccur (k.totalTicks + request.fromNow) k.pending).map Prod.snd) := by
      intro toOccur
      have inserted := (SortedInsert_perm toOccur (k.totalTicks + request.fromNow) k.pending).map Prod.snd
      have all := kept.record.append_right [toOccur]
      rw [List.append_assoc] at all
      exact all.trans ((List.perm_append_comm.trans inserted.symm).append_left _)
    exact grown _
  · show (k.scheduled ++ [_]).map PendingInterrupt.id = List.range (k.scheduled ++ [_]).length
    rw [List.map_append, kept.ids, List.length_append, List.length_singleton, List.range_succ]
    rfl
  · obtain rfl | inside := mem_SortedInsert.mp inside
    · obtain ⟨due, before⟩ := kept.past shot fired
      exact due.trans (before.trans (Nat.le_add_right _ _))
    · exact kept.behind shot fired element inside

theorem Schedules (kept : Kept k) (requests : List (Request H)) :
    Kept (requests.foldl State.Schedule k) := by
  induction requests generalizing k with
  | nil => exact kept
  | cons request rest ih => exact ih (kept.Schedule request)

/-- An element is taken from the list and put back. -/
theorem reinserts (kept : Kept k) {when_ : Nat} {toOccur : PendingInterrupt H}
    {rest : List (Nat × PendingInterrupt H)} (shape : k.pending = (when_, toOccur) :: rest) :
    Kept { k with pending := SortedInsert toOccur when_ rest } := by
  have same := SortedInsert_perm toOccur when_ rest
  rw [← shape] at same
  have sorted := kept.sorted
  rw [shape] at sorted
  refine ⟨SortedInsert_sorted (List.pairwise_cons.mp sorted).2, fun element inside => ?_, kept.ticks, ?_,
    kept.ids, kept.past, kept.order, fun shot fired element inside => ?_⟩
  · exact kept.keys element (same.mem_iff.mp inside)
  · exact kept.record.trans ((same.symm.map Prod.snd).append_left _)
  · exact kept.behind shot fired element (same.mem_iff.mp inside)

/-- The first interrupt is fired when its time has come. -/
theorem fires (kept : Kept k) (call : Handlers H W) {when_ : Nat} {toOccur : PendingInterrupt H}
    {rest : List (Nat × PendingInterrupt H)} (shape : k.pending = (when_, toOccur) :: rest)
    (due : when_ ≤ k.totalTicks) : Kept ({ k with pending := rest }.fire call toOccur) := by
  have sorted := kept.sorted
  rw [shape] at sorted
  obtain ⟨least, sorted⟩ := List.pairwise_cons.mp sorted
  have first : (when_, toOccur) ∈ k.pending := by simp [shape]
  have time : when_ = toOccur.when := kept.keys _ first
  have others : ∀ element ∈ rest, element ∈ k.pending := by
    intro element inside
    rw [shape]
    exact List.mem_cons_of_mem _ inside
  have shot : Kept { k with
      pending := rest
      status := .SystemMode
      world := (call toOccur.handler toOccur.arg k.totalTicks k.world).1
      yieldOnReturn := k.yieldOnReturn || (call toOccur.handler toOccur.arg k.totalTicks k.world).2.1
      fired := k.fired ++ [(toOccur, k.totalTicks)] } := by
    refine ⟨sorted, fun element inside => kept.keys element (others element inside), kept.ticks, ?_, kept.ids,
      fun shot inside => ?_, ?_, fun shot inside element later => ?_⟩
    · have record := kept.record
      rw [shape] at record
      simpa using record
    · obtain before | now := List.mem_append.mp inside
      · exact kept.past shot before
      · rw [List.mem_singleton.mp now, ← time]
        exact ⟨due, le_rfl⟩
    · refine List.pairwise_append.mpr ⟨kept.order, List.pairwise_singleton _ _, fun shot before last now => ?_⟩
      rw [List.mem_singleton.mp now, ← time]
      exact kept.behind shot before _ first
    · obtain before | now := List.mem_append.mp inside
      · exact kept.behind shot before element (others element later)
      · rw [List.mem_singleton.mp now, ← time]
        exact least element later
  have called := shot.Schedules (call toOccur.handler toOccur.arg k.totalTicks k.world).2.2
  exact called.passes rfl rfl rfl le_rfl called.ticks

/-- Idle time passes up to the time of an interrupt. -/
theorem advances (kept : Kept k) (when_ : Nat) : Kept (k.advance when_) := by
  unfold State.advance
  split
  · rename_i later
    refine kept.passes rfl rfl rfl later.le ?_
    have ticks := kept.ticks
    show when_ = k.idleTicks + (when_ - k.totalTicks) + k.systemTicks + k.userTicks
    omega
  · exact kept

end Kept

namespace State

theorem advance_pending (k : State H W) (when_ : Nat) : (k.advance when_).pending = k.pending := by
  unfold advance
  split <;> rfl

theorem le_advance (k : State H W) (when_ : Nat) :
    k.totalTicks ≤ (k.advance when_).totalTicks ∧ when_ ≤ (k.advance when_).totalTicks := by
  unfold advance
  split
  · rename_i later
    exact ⟨later.le, le_rfl⟩
  · rename_i early
    exact ⟨le_rfl, Nat.le_of_not_lt early⟩

end State

namespace Kept

variable {k : State H W}

theorem CheckIfDue (kept : Kept k) (call : Handlers H W) (advanceClock : Bool) :
    Kept (k.CheckIfDue call advanceClock).2 ∧
      k.totalTicks ≤ (k.CheckIfDue call advanceClock).2.totalTicks := by
  obtain ⟨-, same⟩ | ⟨when_, toOccur, rest, shape, early | lonely | fires⟩ :=
    k.CheckIfDue_cases call advanceClock
  · rw [same]
    exact ⟨kept, le_rfl⟩
  · rw [early.2.2]
    exact ⟨kept.reinserts shape, le_rfl⟩
  · rw [lonely.2.2]
    refine ⟨(kept.advances when_).reinserts ?_, (k.le_advance when_).1⟩
    rw [State.advance_pending, shape]
  · rw [fires.2.2]
    refine ⟨(kept.advances when_).fires call ?_ (k.le_advance when_).2, ?_⟩
    · rw [State.advance_pending, shape]
    · rw [(State.due_fire call _ toOccur).2]
      exact (k.le_advance when_).1

end Kept

/-- Nothing is due but, on an idle machine, a timer interrupt that is alone. -/
def Served (k : State H W) : Prop :=
  (∀ element ∈ k.pending, k.totalTicks < element.1) ∨
    k.status = .IdleMode ∧ ∃ element, k.pending = [element] ∧ element.2.type = .TimerInt

/-- When `CheckIfDue` fires nothing, nothing is due. -/
theorem Kept.served {k : State H W} (kept : Kept k) {call : Handlers H W}
    (stops : (k.CheckIfDue call false).1 = false) :
    Served (k.CheckIfDue call false).2 ∧ (k.CheckIfDue call false).2.status = k.status ∧
      (k.CheckIfDue call false).2.totalTicks = k.totalTicks := by
  obtain ⟨empty, same⟩ | ⟨when_, toOccur, rest, shape, early | lonely | fires⟩ :=
    k.CheckIfDue_cases call false
  · rw [same]
    refine ⟨.inl fun element inside => ?_, rfl, rfl⟩
    rw [empty] at inside
    cases inside
  · rw [early.2.2]
    have sorted := kept.sorted
    rw [shape] at sorted
    refine ⟨.inl fun element inside => ?_, rfl, rfl⟩
    obtain rfl | inside := mem_SortedInsert.mp inside
    · exact early.2.1
    · exact early.2.1.trans_le ((List.pairwise_cons.mp sorted).1 element inside)
  · obtain ⟨past, ⟨idle, timer, none⟩, same⟩ := lonely
    have still : k.advance when_ = k := if_neg fun later => past ⟨rfl, later⟩
    rw [same, still, List.isEmpty_iff.mp none]
    exact ⟨.inr ⟨idle, _, rfl, timer⟩, rfl, rfl⟩
  · rw [fires.2.2] at stops
    cases stops

/-- The loop ends with nothing due. -/
theorem Kept.dispatch {k : State H W} (kept : Kept k) (call : Handlers H W) :
    Kept (k.dispatch call) ∧ Served (k.dispatch call) ∧ (k.dispatch call).status = k.status ∧
      (k.dispatch call).totalTicks = k.totalTicks := by
  fun_induction State.dispatch call k with
  | case1 k fired ih =>
    obtain ⟨kept', served, status, time⟩ := ih (kept.CheckIfDue call false).1
    obtain ⟨-, same⟩ | ⟨when_, toOccur, rest, -, early | lonely | fires⟩ := k.CheckIfDue_cases call false
    · rw [same] at fired
      cases fired
    · rw [early.2.2] at fired
      cases fired
    · rw [lonely.2.2] at fired
      cases fired
    · have still : k.advance when_ = k := if_neg fun later => fires.1 ⟨rfl, later⟩
      refine ⟨kept', served, status.trans ?_, time.trans ?_⟩
      · rw [fires.2.2, still]
        rfl
      · rw [fires.2.2, still, (State.due_fire call _ toOccur).2]
  | case2 k fired =>
    have stops : (k.CheckIfDue call false).1 = false := by simpa using fired
    exact ⟨(kept.CheckIfDue call false).1, kept.served stops⟩

/-! ## Steps and runs -/

variable {call : Handlers H W} {k k' : State H W}

theorem Kept.tick (kept : Kept k) :
    Kept k.tick ∧ k.tick.status = k.status ∧ k.totalTicks ≤ k.tick.totalTicks := by
  have ticks := kept.ticks
  unfold State.tick
  split
  · refine ⟨kept.passes rfl rfl rfl (Nat.le_add_right _ _) ?_, rfl, Nat.le_add_right _ _⟩
    show k.totalTicks + 10 = k.idleTicks + (k.systemTicks + 10) + k.userTicks
    omega
  · refine ⟨kept.passes rfl rfl rfl (Nat.le_add_right _ _) ?_, rfl, Nat.le_add_right _ _⟩
    show k.totalTicks + 1 = k.idleTicks + k.systemTicks + (k.userTicks + 1)
    omega

theorem Kept.OneTick (kept : Kept k) (call : Handlers H W) (busy : k.status ≠ .IdleMode) :
    Kept (k.OneTick call) ∧ (k.OneTick call).status ≠ .IdleMode ∧
      k.totalTicks ≤ (k.OneTick call).totalTicks ∧
      ∀ element ∈ (k.OneTick call).pending, (k.OneTick call).totalTicks < element.1 := by
  obtain ⟨ticked, mode, later⟩ := kept.tick
  obtain ⟨after, served, status, time⟩ := ticked.dispatch call
  have done : ∀ element ∈ (k.tick.dispatch call).pending,
      (k.tick.dispatch call).totalTicks < element.1 := by
    refine served.resolve_right fun idle => busy ?_
    rw [← mode, ← status]
    exact idle.1
  unfold State.OneTick
  dsimp only
  split
  · exact ⟨after.passes rfl rfl rfl le_rfl after.ticks, MachineStatus.noConfusion, later.trans time.ge, done⟩
  · refine ⟨after, ?_, later.trans time.ge, done⟩
    rw [status, mode]
    exact busy

theorem Kept.Idle (kept : Kept k) (goes_on : k.Idle call = some k') :
    Kept k' ∧ k'.status ≠ .IdleMode ∧ k.totalTicks ≤ k'.totalTicks ∧
      ((∀ element ∈ k'.pending, k'.totalTicks < element.1) ∨
        ∃ element, k'.pending = [element] ∧ element.2.type = .TimerInt) := by
  have idle : Kept { k with status := .IdleMode } := kept.passes rfl rfl rfl le_rfl kept.ticks
  obtain ⟨checked, later⟩ := idle.CheckIfDue call true
  unfold State.Idle at goes_on
  split at goes_on
  · rename_i fired same
    rw [same] at checked later
    cases goes_on
    obtain ⟨after, served, -, time⟩ := checked.dispatch call
    refine ⟨after.passes rfl rfl rfl le_rfl after.ticks, MachineStatus.noConfusion, later.trans time.ge, ?_⟩
    exact served.imp_right fun lonely => lonely.2
  · cases goes_on

theorem Kept.step (kept : Kept k) (busy : k.status ≠ .IdleMode) (step : Step call k k') :
    Kept k' ∧ k'.status ≠ .IdleMode ∧ k.totalTicks ≤ k'.totalTicks := by
  cases step with
  | schedules request => exact ⟨kept.Schedule request, busy, le_rfl⟩
  | ticks =>
    obtain ⟨after, busy, later, -⟩ := kept.OneTick call busy
    exact ⟨after, busy, later⟩
  | idles goes_on =>
    obtain ⟨after, busy, later, -⟩ := kept.Idle goes_on
    exact ⟨after, busy, later⟩
  | enters status active => exact ⟨kept.passes rfl rfl rfl le_rfl kept.ticks, active, le_rfl⟩
  | runs world => exact ⟨kept.passes rfl rfl rfl le_rfl kept.ticks, busy, le_rfl⟩

theorem Starts.kept (starts : Starts k) : Kept k := by
  obtain ⟨⟨total, idle, system, user⟩, pending, -, scheduled, fired⟩ := starts
  constructor <;> simp [pending, scheduled, fired, total, idle, system, user]

theorem Starts.kept_run {start : State H W} (starts : Starts start)
    (run : Relation.ReflTransGen (Step call) start k) : Kept k ∧ k.status ≠ .IdleMode := by
  induction run with
  | refl =>
    refine ⟨starts.kept, ?_⟩
    rw [starts.status]
    exact MachineStatus.noConfusion
  | tail _ step ih =>
    obtain ⟨kept, busy, -⟩ := ih.1.step ih.2 step
    exact ⟨kept, busy⟩

/-- Every run: an interrupt fires at most once, not before its time, and in the order of
time; those that have not fired are pending; the ticks add up and time does not go back.
`OneTick` leaves nothing that is due, `Idle` only a timer interrupt that is alone. -/
theorem interrupts_fire_in_order {start : State H W} (starts : Starts start)
    (run : Relation.ReflTransGen (Step call) start k) :
    (k.fired.map fun shot => shot.1.id).Nodup ∧ (∀ shot ∈ k.fired, shot.1.when ≤ shot.2) ∧
    (k.fired.Pairwise fun a b => a.1.when ≤ b.1.when) ∧
    k.scheduled.Perm (k.fired.map Prod.fst ++ k.pending.map Prod.snd) ∧
    k.totalTicks = k.idleTicks + k.systemTicks + k.userTicks ∧
    (∀ k', Step call k k' → k.totalTicks ≤ k'.totalTicks) ∧
    (∀ element ∈ (k.OneTick call).pending, (k.OneTick call).totalTicks < element.1) ∧
    ∀ k', k.Idle call = some k' → (∀ element ∈ k'.pending, k'.totalTicks < element.1) ∨
      ∃ element, k'.pending = [element] ∧ element.2.type = .TimerInt := by
  obtain ⟨kept, busy⟩ := starts.kept_run run
  have distinct : (k.fired.map fun shot => shot.1.id).Nodup := by
    have all := kept.record.map PendingInterrupt.id
    rw [kept.ids, List.map_append, List.map_map] at all
    exact (List.nodup_append.mp (all.nodup_iff.mp List.nodup_range)).1
  exact ⟨distinct, fun shot inside => (kept.past shot inside).1, kept.order, kept.record, kept.ticks,
    fun k' step => (kept.step busy step).2.2, (kept.OneTick call busy).2.2.2,
    fun k' goes_on => (kept.Idle goes_on).2.2.2⟩

/-! A disk interrupt whose handler starts the next request, and a tick. -/

def diskHandler : Handlers Unit Unit := fun _ _ _ _ =>
  ((), false, [{ handler := (), arg := 1, fromNow := 7, type := .DiskInt, positive := by decide }])

def machine : State Unit Unit where
  totalTicks := 0
  idleTicks := 0
  systemTicks := 0
  userTicks := 0
  pending := []
  yieldOnReturn := false
  status := .SystemMode
  world := ()
  scheduled := []
  fired := []

theorem interrupts_fire_in_order_disk : ∃ k, Relation.ReflTransGen (Step diskHandler) machine k ∧
    k.totalTicks = 10 ∧ k.fired.map (fun shot => (shot.1.when, shot.2)) = [(5, 10)] ∧
    k.pending.map Prod.fst = [17] ∧ (k.fired.map fun shot => shot.1.id).Nodup := by
  have starts : Starts machine := ⟨⟨rfl, rfl, rfl, rfl⟩, rfl, rfl, rfl, rfl⟩
  have asked : Relation.ReflTransGen (Step diskHandler) machine _ := .single
    (.schedules { handler := (), arg := 0, fromNow := 5, type := .DiskInt, positive := by decide })
  have fired := asked.tail .ticks
  unfold State.OneTick at fired
  rw [State.dispatch, dif_pos (by decide), State.dispatch, dif_neg (by decide)] at fired
  exact ⟨_, fired, rfl, rfl, rfl, (interrupts_fire_in_order starts fired).1⟩

end Nachos.Interrupts
