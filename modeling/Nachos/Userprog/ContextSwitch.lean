import Nachos.Userprog.Processes

/-! Every user thread finds its own registers and its own page table on the
machine, as if it had a machine of its own, provided that a thread started by
`SC_Fork` gets to `fork_func` before another thread is dispatched: `fork_func`
takes the registers and the page table as the machine has them. -/
namespace Nachos.Userprog
open Effects

/-! ## Registers -/

namespace Registers

/-- No delayed load is under way. -/
structure Settled (r : Registers) : Prop where
  load : r LoadReg = 0
  value : r LoadValueReg = 0
  zero : r 0 = 0

theorem write_same {r : Registers} {num : Fin 40} {value : BitVec 32} (same : r num = value) :
    r.write num value = r := by
  rw [write, ← same]
  exact Function.update_eq_self num r

theorem write_other {r : Registers} {num other : Fin 40} (value : BitVec 32) (apart : other ≠ num) :
    r.write num value other = r other := Function.update_of_ne apart _ _

@[simp] theorem write_self (r : Registers) (num : Fin 40) (value : BitVec 32) :
    r.write num value num = value := Function.update_self _ _ _

/-- Writing a register of the program keeps a load from being under way. -/
theorem Settled.write {r : Registers} (settled : r.Settled) {num : Fin 40} (value : BitVec 32)
    (notLoad : num ≠ LoadReg) (notValue : num ≠ LoadValueReg) (nonzero : num ≠ 0) :
    (r.write num value).Settled where
  load := (write_other value (Ne.symm notLoad)).trans settled.load
  value := (write_other value (Ne.symm notValue)).trans settled.value
  zero := (write_other value (Ne.symm nonzero)).trans settled.zero

theorem settled_DelayedLoad (r : Registers) : r.DelayedLoad.Settled where
  load := by
    rw [DelayedLoad, write_other _ (by decide), write_other _ (by decide), write_self]
  value := by rw [DelayedLoad, write_other _ (by decide), write_self]
  zero := write_self _ _ _

/-- Then `DelayedLoad` changes nothing. -/
theorem Settled.DelayedLoad {r : Registers} (settled : r.Settled) : r.DelayedLoad = r := by
  have finished : r.finishLoad = r := by
    have inside : (r LoadReg).toNat < 40 := by
      rw [settled.load]
      decide
    rw [finishLoad, dif_pos inside]
    apply write_same
    have index : (⟨(r LoadReg).toNat, inside⟩ : Fin 40) = 0 := by
      apply Fin.ext
      show (r LoadReg).toNat = 0
      rw [settled.load]
      rfl
    rw [index, settled.zero, settled.value]
  rw [Registers.DelayedLoad, finished, write_same settled.load, write_same settled.value,
    write_same settled.zero]

theorem Settled.PCAdvance {r : Registers} (settled : r.Settled) : r.PCAdvance.Settled := by
  refine Settled.write (Settled.write (Settled.write settled _ ?_ ?_ ?_) _ ?_ ?_ ?_) _ ?_ ?_ ?_ <;>
    decide

theorem Settled.jump {r : Registers} (settled : r.Settled) (pc : BitVec 32) :
    (r.jump pc).Settled := by
  refine Settled.write (Settled.write settled _ ?_ ?_ ?_) _ ?_ ?_ ?_ <;> decide

theorem Settled.result {r : Registers} (settled : r.Settled) (value : BitVec 32) :
    (r.write 2 value).Settled := settled.write value (by decide) (by decide) (by decide)

theorem settled_raise (r : Registers) (badVAddr : BitVec 32) : (r.raise badVAddr).Settled :=
  settled_DelayedLoad _

end Registers

open Registers

/-! ## Schedules -/

/-- A thread with an address space is dispatched, or a thread sets its user state
up. -/
def Event.disturbs : Event → Bool
  | .dispatches _ user => user
  | .loads _ | .begins _ => true
  | _ => false

/-- The thread was started by `SC_Fork`, and nothing has disturbed the machine
since. -/
def Pending (trace : List Event) (child : Address) : Prop :=
  ∃ before parent between, trace = before ++ .forks parent child :: between ∧
    ∀ event ∈ between, event.disturbs = false

/-- Every thread started by `SC_Fork` gets to `fork_func` before anything disturbs
the machine. -/
def Undisturbed (trace : List Event) : Prop :=
  ∀ before child rest, trace = before ++ .begins child :: rest → Pending before child

theorem Pending.before {trace : List Event} {event : Event} {child : Address}
    (pending : Pending (trace ++ [event]) child) (other : ∀ parent, event ≠ .forks parent child) :
    Pending trace child ∧ event.disturbs = false := by
  obtain ⟨before, parent, between, same, calm⟩ := pending
  obtain ⟨rfl, rfl, last⟩ | ⟨shorter, rfl, rfl⟩ := snoc_split same
  · exact absurd last (other parent)
  · refine ⟨⟨before, parent, shorter, rfl, fun event inside => ?_⟩, calm event (by simp)⟩
    exact calm event (List.mem_append_left _ inside)

theorem Undisturbed.before {trace events : List Event} (undisturbed : Undisturbed (trace ++ events)) :
    Undisturbed trace := by
  intro before child rest same
  exact undisturbed before child (rest ++ events) (by rw [same]; simp)

/-! ## The state of each thread -/

namespace System

variable {s s' : System}

@[simp] theorem setThread_same (t : Address) (thread : Thread) :
    (s.setThread t thread).thread t = thread := Function.update_self _ _ _

theorem setThread_other {t t' : Address} (thread : Thread) (other : t' ≠ t) :
    (s.setThread t thread).thread t' = s.thread t' := Function.update_of_ne other _ _

/-- The page table register holds the thread's page table. -/
def Loaded (s : System) (space : AddrSpace) : Prop :=
  s.pageTable = space.pageTable ∧ s.pageTableSize = space.numPages

/-- A thread that runs a user program has its registers on the machine while it is
the current thread and in `userRegisters` while it is not. One that waits for
`fork_func` still has to get what it inherits. -/
structure Sound (s : System) : Prop where
  current : s.current.point.live = true →
    s.registers = s.own s.currentThread ∧ ∃ space, s.current.space = some space ∧ s.Loaded space
  others (t : Address) : t ≠ s.currentThread → (s.thread t).point.live = true →
    (s.thread t).userRegisters = s.own t ∧ (∃ space, (s.thread t).space = some space) ∧
      s.saved t = true
  settled (t : Address) : (s.thread t).point.live = true →
    (t ≠ s.currentThread ∨ (s.thread t).point ≠ .user) → (s.own t).Settled
  waiting (t : Address) (pc : BitVec 32) (space : AddrSpace) :
    (s.thread t).point = .forkFunc pc space → (s.thread t).space = none ∧
      ∃ r : Registers, s.inherited t = some (r, space) ∧ s.own t = r.jump pc ∧ r.Settled

/-- While nothing has disturbed the machine, it is as the parent left it. -/
def Held (trace : List Event) (s : System) : Prop :=
  ∀ t pc space (r : Registers), (s.thread t).point = .forkFunc pc space →
    s.inherited t = some (r, space) → Pending trace t →
    (s.current.point = .yielding ∨ s.current.point.live = false) ∧ s.registers = r ∧ s.Loaded space

theorem act_self (s : System) : s.act id s.current.point = s := by
  have threads : Function.update s.thread s.currentThread s.current = s.thread :=
    Function.update_eq_self _ _
  have own : Function.update s.own s.currentThread (s.own s.currentThread) = s.own :=
    Function.update_eq_self _ _
  unfold act setThread
  simp only [id_eq, own]
  exact congrArg (fun thread => { s with thread := thread }) threads

/-- Nothing has changed but what belongs to the current thread. -/
structure Others (s s' : System) : Prop where
  current : s'.currentThread = s.currentThread
  saved : s'.saved = s.saved
  inherited : s'.inherited = s.inherited
  own (t : Address) : t ≠ s.currentThread → s'.own t = s.own t
  point (t : Address) : t ≠ s.currentThread → (s'.thread t).point = (s.thread t).point
  space (t : Address) : t ≠ s.currentThread → (s'.thread t).space = (s.thread t).space
  userRegisters (t : Address) : t ≠ s.currentThread →
    (s'.thread t).userRegisters = (s.thread t).userRegisters

/-- A step of the current thread is sound if it is sound for that thread. -/
theorem Sound.moves (sound : Sound s) (others : Others s s')
    (current : s'.current.point.live = true → s'.registers = s'.own s'.currentThread ∧
      ∃ space, s'.current.space = some space ∧ s'.Loaded space)
    (settled : s'.current.point.live = true → s'.current.point ≠ .user →
      (s'.own s'.currentThread).Settled)
    (waiting : ∀ pc space, s'.current.point = .forkFunc pc space → s'.current.space = none ∧
      ∃ r : Registers, s'.inherited s'.currentThread = some (r, space) ∧
        s'.own s'.currentThread = r.jump pc ∧ r.Settled) : Sound s' := by
  refine ⟨current, fun t other alive => ?_, fun t alive away => ?_, fun t pc space waits => ?_⟩
  · rw [others.current] at other
    rw [others.point t other] at alive
    rw [others.userRegisters t other, others.own t other, others.space t other, others.saved]
    exact sound.others t other alive
  · by_cases self : t = s'.currentThread
    · subst self
      exact settled alive (away.resolve_left fun apart => apart rfl)
    · rw [others.current] at self
      rw [others.point t self] at alive
      rw [others.own t self]
      exact sound.settled t alive (.inl self)
  · by_cases self : t = s'.currentThread
    · subst self
      exact waiting pc space waits
    · rw [others.current] at self
      rw [others.point t self] at waits
      rw [others.space t self, others.inherited, others.own t self]
      exact sound.waiting t pc space waits

theorem act_current (s : System) (change : Registers → Registers) (point : Point) :
    (s.act change point).current = { s.current with point := point } :=
  Function.update_self _ _ _

theorem act_own (s : System) (change : Registers → Registers) (point : Point) :
    (s.act change point).own s.currentThread = change (s.own s.currentThread) :=
  Function.update_self _ _ _

theorem act_others (s : System) (change : Registers → Registers) (point : Point) :
    Others s (s.act change point) where
  current := rfl
  saved := rfl
  inherited := rfl
  own _ other := Function.update_of_ne other _ _
  point _ other := congrArg Thread.point (setThread_other _ other)
  space _ other := congrArg Thread.space (setThread_other _ other)
  userRegisters _ other := congrArg Thread.userRegisters (setThread_other _ other)

/-- The current thread does something to its registers. -/
theorem Sound.act (sound : Sound s) {change : Registers → Registers} {point : Point}
    (live : point.live = s.current.point.live)
    (settles : point.live = true → point ≠ .user →
      ∀ r : Registers, (s.current.point ≠ .user → r.Settled) → (change r).Settled)
    (idle : s.current.point.live = false → point = s.current.point ∧
      ∀ r : Registers, r.Settled → change r = r) : Sound (s.act change point) := by
  refine sound.moves (act_others s change point) ?_ ?_ ?_
  · rw [act_current]
    intro alive
    obtain ⟨same, space, has, loaded⟩ := sound.current (live.symm.trans alive)
    refine ⟨?_, space, has, loaded⟩
    exact (congrArg change same).trans (act_own s change point).symm
  · rw [act_current]
    intro alive kernel
    refine (act_own s change point).symm ▸ settles alive kernel _ fun before => ?_
    exact sound.settled _ (live.symm.trans alive) (.inr before)
  · rw [act_current]
    intro pc space waits
    have stopped : s.current.point.live = false := by
      rw [← live, show point = _ from waits]
      rfl
    obtain ⟨same, fixed⟩ := idle stopped
    obtain ⟨none, r, inherits, is, settled⟩ := sound.waiting _ pc space (same.symm.trans waits)
    refine ⟨none, r, inherits, ?_, settled⟩
    refine (act_own s change point).trans ?_
    rw [is, fixed _ (settled.jump pc)]

/-! ## The context switch -/

/-- `SaveUserState` writes nothing but the registers of the current thread. -/
theorem SaveUserState_thread (s : System) (t : Address) :
    s.SaveUserState.thread t = { s.thread t with
      userRegisters := if t = s.currentThread ∧ s.current.space ≠ none then s.registers
        else (s.thread t).userRegisters } := by
  unfold SaveUserState
  cases space : s.current.space with
  | none => simp
  | some sp =>
    by_cases self : t = s.currentThread
    · subst self
      simp only [setThread_same]
      simp [current]
    · simp [setThread_other _ self, self]

/-- The next thread goes on behind `SWITCH` or starts at `ThreadRoot`. -/
theorem Run_cases (s : System) (next : Address) :
    ((s.SaveUserState.SWITCH next).saved next = true ∧
      s.Run next = (s.SaveUserState.SWITCH next).RestoreUserState) ∨
    ((s.SaveUserState.SWITCH next).saved next = false ∧ s.Run next = s.SaveUserState.SWITCH next) := by
  cases resumed : (s.SaveUserState.SWITCH next).saved next with
  | true => exact .inl ⟨rfl, if_pos resumed⟩
  | false => exact .inr ⟨rfl, if_neg (by rw [resumed]; decide)⟩

theorem Run_thread (s : System) (next t : Address) :
    (s.Run next).thread t = s.SaveUserState.thread t := by
  obtain ⟨-, ran⟩ | ⟨-, ran⟩ := Run_cases s next
  · rw [ran, RestoreUserState]
    split <;> rfl
  · rw [ran]
    rfl

theorem Run_point (s : System) (next t : Address) :
    ((s.Run next).thread t).point = (s.thread t).point := by
  rw [Run_thread, SaveUserState_thread]

theorem Run_space (s : System) (next t : Address) :
    ((s.Run next).thread t).space = (s.thread t).space := by
  rw [Run_thread, SaveUserState_thread]

private theorem save_fields (s : System) : s.SaveUserState.registers = s.registers ∧
    s.SaveUserState.pageTable = s.pageTable ∧ s.SaveUserState.pageTableSize = s.pageTableSize ∧
    s.SaveUserState.currentThread = s.currentThread ∧ s.SaveUserState.saved = s.saved ∧
    s.SaveUserState.own = s.own ∧ s.SaveUserState.inherited = s.inherited := by
  unfold SaveUserState
  split <;> exact ⟨rfl, rfl, rfl, rfl, rfl, rfl, rfl⟩

theorem SWITCH_saved (s : System) (next : Address) : (s.SaveUserState.SWITCH next).saved =
    Function.update s.saved s.currentThread true := by
  obtain ⟨-, -, -, current, saved, -⟩ := save_fields s
  show Function.update s.SaveUserState.saved s.SaveUserState.currentThread true = _
  rw [saved, current]

theorem Run_fields (s : System) (next : Address) : (s.Run next).currentThread = next ∧
    (s.Run next).saved = Function.update s.saved s.currentThread true ∧
    (s.Run next).own = s.own ∧ (s.Run next).inherited = s.inherited := by
  obtain ⟨-, -, -, -, -, own, inherited⟩ := save_fields s
  obtain ⟨-, ran⟩ | ⟨-, ran⟩ := Run_cases s next
  · rw [ran, RestoreUserState]
    split <;> exact ⟨rfl, SWITCH_saved s next, own, inherited⟩
  · rw [ran]
    exact ⟨rfl, SWITCH_saved s next, own, inherited⟩

/-- A thread without an address space finds the machine as it is. -/
theorem Run_keeps {next : Address} (none : (s.thread next).space = none) :
    (s.Run next).registers = s.registers ∧ (s.Run next).pageTable = s.pageTable ∧
      (s.Run next).pageTableSize = s.pageTableSize := by
  obtain ⟨registers, table, size, -⟩ := save_fields s
  have space : (s.SaveUserState.SWITCH next).current.space = Option.none := by
    show (s.SaveUserState.thread next).space = Option.none
    rw [SaveUserState_thread]
    exact none
  obtain ⟨-, ran⟩ | ⟨-, ran⟩ := Run_cases s next
  · rw [ran, RestoreUserState, space]
    exact ⟨registers, table, size⟩
  · rw [ran]
    exact ⟨registers, table, size⟩

/-- A thread that was switched out before gets its registers and its page table. -/
theorem Run_restores {next : Address} {space : AddrSpace} (has : (s.thread next).space = some space)
    (again : next = s.currentThread ∨ s.saved next = true) :
    (s.Run next).registers = (s.SaveUserState.thread next).userRegisters ∧
      (s.Run next).Loaded space := by
  have resumed : (s.SaveUserState.SWITCH next).saved next = true := by
    rw [SWITCH_saved]
    obtain self | before := again
    · rw [self, Function.update_self]
    · by_cases self : next = s.currentThread
      · rw [self, Function.update_self]
      · rw [Function.update_of_ne self]
        exact before
  have known : (s.SaveUserState.SWITCH next).current.space = some space := by
    show (s.SaveUserState.thread next).space = some space
    rw [SaveUserState_thread]
    exact has
  obtain ⟨-, ran⟩ | ⟨fresh, -⟩ := Run_cases s next
  · rw [ran, RestoreUserState, known]
    exact ⟨rfl, rfl, rfl⟩
  · rw [resumed] at fresh
    cases fresh

theorem Sound.Run (sound : Sound s) (next : Address)
    (settled : s.current.point.live = true → (s.own s.currentThread).Settled) :
    Sound (s.Run next) := by
  obtain ⟨current, saved, own, inherited⟩ := Run_fields s next
  have left : ∀ t, (s.thread t).point.live = true → (s.SaveUserState.thread t).userRegisters =
      s.own t ∧ (∃ space, (s.thread t).space = some space) ∧
      (t = s.currentThread ∨ s.saved t = true) := by
    intro t alive
    rw [SaveUserState_thread]
    by_cases self : t = s.currentThread
    · subst self
      obtain ⟨same, space, has, -⟩ := sound.current alive
      refine ⟨?_, ⟨space, has⟩, .inl rfl⟩
      simpa [has] using same
    · obtain ⟨same, has, before⟩ := sound.others t self alive
      refine ⟨?_, has, .inr before⟩
      simpa [self] using same
  refine ⟨fun alive => ?_, fun t other alive => ?_, fun t alive away => ?_, fun t pc space waits => ?_⟩
  · have lives : (s.thread next).point.live = true := by
      rw [← Run_point s next next]
      rwa [System.current, current] at alive
    obtain ⟨same, ⟨space, has⟩, again⟩ := left next lives
    obtain ⟨registers, loaded⟩ := Run_restores has again
    refine ⟨by rw [registers, same, own, current], space, ?_, loaded⟩
    rw [System.current, current, Run_space]
    exact has
  · rw [Run_point] at alive
    obtain ⟨same, has, again⟩ := left t alive
    refine ⟨by rw [Run_thread, same, own], by rw [Run_space]; exact has, ?_⟩
    rw [saved]
    obtain self | before := again
    · rw [self, Function.update_self]
    · by_cases self : t = s.currentThread
      · rw [self, Function.update_self]
      · rw [Function.update_of_ne self]
        exact before
  · rw [Run_point] at alive
    rw [own]
    by_cases self : t = s.currentThread
    · subst self
      exact settled alive
    · exact sound.settled t alive (.inl self)
  · rw [Run_point] at waits
    rw [Run_space, own, inherited]
    exact sound.waiting t pc space waits

/-! ## New threads -/

theorem spawn_child (s : System) (i : Fin 10) (child : Address) (point : Point) :
    ((s.spawn i child point).thread child).point = point ∧
      ((s.spawn i child point).thread child).space = none := by
  simp [spawn]

/-- Only the table of the parent changes. -/
theorem spawn_other (s : System) (i : Fin 10) {child t : Address} (point : Point) (apart : t ≠ child) :
    ((s.spawn i child point).thread t).point = (s.thread t).point ∧
      ((s.spawn i child point).thread t).space = (s.thread t).space ∧
      ((s.spawn i child point).thread t).userRegisters = (s.thread t).userRegisters := by
  unfold spawn
  rw [setThread_other _ apart]
  by_cases self : t = s.currentThread
  · subst self
    rw [setThread_same]
    exact ⟨rfl, rfl, rfl⟩
  · rw [setThread_other _ self]
    exact ⟨rfl, rfl, rfl⟩

/-- A thread is added that does not run a user program yet. -/
theorem Sound.spawn (sound : Sound s) {i : Fin 10} {child : Address} {point : Point}
    (apart : child ≠ s.currentThread) (dormant : point.live = false) {own : Address → Registers}
    {inherited : Address → Option (Registers × AddrSpace)} (owns : ∀ t, t ≠ child → own t = s.own t)
    (inherits : ∀ t, t ≠ child → inherited t = s.inherited t)
    (waits : ∀ pc space, point = .forkFunc pc space →
      ∃ r : Registers, inherited child = some (r, space) ∧ own child = r.jump pc ∧ r.Settled) :
    Sound { s.spawn i child point with own := own, inherited := inherited } := by
  obtain ⟨born, none⟩ := spawn_child s i child point
  have asleep : ((s.spawn i child point).thread child).point.live = false := by
    rw [born]
    exact dormant
  refine ⟨fun alive => ?_, fun t other alive => ?_, fun t alive away => ?_, fun t pc space at_t => ?_⟩
  · obtain ⟨same, has, -⟩ := spawn_other s i point (Ne.symm apart)
    have lived : s.current.point.live = true := by
      rw [System.current, ← same]
      exact alive
    obtain ⟨registers, space, spaced, loaded⟩ := sound.current lived
    exact ⟨registers.trans (owns _ (Ne.symm apart)).symm, space, has.trans spaced, loaded⟩
  · have other' : t ≠ child := by
      rintro rfl
      exact absurd (asleep.symm.trans alive) (by decide)
    obtain ⟨same, has, registers⟩ := spawn_other s i point other'
    obtain ⟨kept, space, saved⟩ := sound.others t other (by rw [← same]; exact alive)
    exact ⟨registers.trans (kept.trans (owns t other').symm), by rw [has]; exact space, saved⟩
  · have other' : t ≠ child := by
      rintro rfl
      exact absurd (asleep.symm.trans alive) (by decide)
    obtain ⟨same, -, -⟩ := spawn_other s i point other'
    have settled := sound.settled t (by rw [← same]; exact alive) (by rw [← same]; exact away)
    rw [← owns t other'] at settled
    exact settled
  · by_cases self : t = child
    · subst self
      exact ⟨none, waits pc space (born.symm.trans at_t)⟩
    · obtain ⟨same, has, -⟩ := spawn_other s i point self
      obtain ⟨unspaced, r, inherit, owned, settled⟩ :=
        sound.waiting t pc space (by rw [← same]; exact at_t)
      exact ⟨has.trans unspaced, r, (inherits t self).trans inherit, (owns t self).trans owned, settled⟩

/-! ## Programs and ends -/

theorem Sound.load (sound : Sound s) (space : AddrSpace) : Sound (s.load space) := by
  have here : (s.load space).current = { s.current with point := .user, space := some space } :=
    Function.update_self _ _ _
  have own : (s.load space).own s.currentThread = space.InitRegisters := Function.update_self _ _ _
  have others : Others s (s.load space) :=
    { current := rfl
      saved := rfl
      inherited := rfl
      own := fun _ other => Function.update_of_ne other _ _
      point := fun _ other => congrArg Thread.point (setThread_other _ other)
      space := fun _ other => congrArg Thread.space (setThread_other _ other)
      userRegisters := fun _ other => congrArg Thread.userRegisters (setThread_other _ other) }
  refine sound.moves others (fun _ => ⟨own.symm, space, by rw [here], rfl, rfl⟩) ?_ ?_
  · rw [here]
    exact fun _ kernel => absurd rfl kernel
  · rw [here]
    exact fun _ _ waits => by cases waits

/-- The current thread has finished, and no other thread's registers are touched. -/
structure Ends (s s' : System) : Prop extends Others s s' where
  registers : s'.registers = s.registers
  pageTable : s'.pageTable = s.pageTable
  pageTableSize : s'.pageTableSize = s.pageTableSize
  finished : s'.current.point = .finished

theorem Sound.ends (sound : Sound s) (ends : Ends s s') : Sound s' := by
  refine sound.moves ends.toOthers ?_ ?_ ?_ <;> rw [ends.finished]
  · exact fun alive => by cases alive
  · exact fun alive => by cases alive
  · exact fun _ _ waits => by cases waits

theorem exit_ends (s : System) : Ends s s.exit := by
  have kept : ∀ t, t ≠ s.currentThread → (s.exit.thread t).point = (s.thread t).point ∧
      (s.exit.thread t).space = (s.thread t).space ∧
      (s.exit.thread t).userRegisters = (s.thread t).userRegisters := by
    intro t other
    unfold exit
    rw [setThread_other _ other]
    by_cases father : t = s.current.father
    · rw [← father, setThread_same]
      exact ⟨rfl, rfl, rfl⟩
    · rw [setThread_other _ father]
      exact ⟨rfl, rfl, rfl⟩
  refine ⟨⟨rfl, rfl, rfl, fun _ _ => rfl, fun t other => (kept t other).1,
    fun t other => (kept t other).2.1, fun t other => (kept t other).2.2⟩, rfl, rfl, rfl, ?_⟩
  exact congrArg Thread.point (setThread_same _ _)

theorem fails_ends (s : System) :
    Ends s (s.setThread s.currentThread { s.current with point := .finished }) where
  current := rfl
  saved := rfl
  inherited := rfl
  own _ _ := rfl
  point _ other := congrArg Thread.point (setThread_other _ other)
  space _ other := congrArg Thread.space (setThread_other _ other)
  userRegisters _ other := congrArg Thread.userRegisters (setThread_other _ other)
  registers := rfl
  pageTable := rfl
  pageTableSize := rfl
  finished := congrArg Thread.point (setThread_same _ _)

/-- `fork_func` is right when the machine is as the parent left it. -/
theorem Sound.fork_func (sound : Sound s) {pc : BitVec 32} {space : AddrSpace}
    (stands : s.current.point = .forkFunc pc space)
    (held : s.inherited s.currentThread = some (s.registers, space)) (loaded : s.Loaded space) :
    Sound (s.fork_func pc space) := by
  have here : (s.fork_func pc space).current = { s.current with
      point := .user, space := some space, userRegisters := s.registers.jump pc } :=
    Function.update_self _ _ _
  have others : Others s (s.fork_func pc space) :=
    { current := rfl
      saved := rfl
      inherited := rfl
      own := fun _ _ => rfl
      point := fun _ other => congrArg Thread.point (setThread_other _ other)
      space := fun _ other => congrArg Thread.space (setThread_other _ other)
      userRegisters := fun _ other => congrArg Thread.userRegisters (setThread_other _ other) }
  obtain ⟨-, r, inherits, owns, -⟩ := sound.waiting _ pc space stands
  have registers : r = s.registers := by
    rw [held] at inherits
    cases inherits
    rfl
  refine sound.moves others (fun _ => ⟨?_, space, by rw [here], loaded⟩) ?_ ?_
  · show s.registers.jump pc = s.own s.currentThread
    rw [owns, registers]
  · rw [here]
    exact fun _ kernel => absurd rfl kernel
  · rw [here]
    exact fun _ _ waits => by cases waits

/-! ## Steps -/

/-- The change leaves no load under way, if there was none in kernel code. -/
def Settles (s : System) (change : Registers → Registers) : Prop :=
  ∀ r : Registers, (s.current.point ≠ .user → r.Settled) → (change r).Settled

/-- What a step can do, as far as registers and page tables are concerned. -/
inductive Act (s : System) : List Event → System → Prop where
  | acts {change point events} (live : s.current.point.live = true)
      (apart : s.current.point ≠ .yielding) (stays : point.live = true)
      (settles : point ≠ .user → s.Settles change)
      (silent : events = [] ∨ ∃ found, events = [.strays s.currentThread found]) :
      Act s events (s.act change point)
  | interrupt : Act s [] (s.act (·.DelayedLoad) s.current.point)
  | spawns {i child} (stands : s.current.point = .trapped)
      (new : (s.thread child).point = .unborn) :
      Act s [] ((s.act (·.write 2 child) .yielding).spawn i child .exec)
  | forks {i child space} (stands : s.current.point = .trapped)
      (new : (s.thread child).point = .unborn) (has : s.current.space = some space) :
      Act s [.forks s.currentThread child] (s.fork i child space)
  | loads (space : AddrSpace) : Act s [.loads s.currentThread] (s.load space)
  | ends {event s'} (ended : Ends s s') (other : ∀ parent child, event ≠ .forks parent child) :
      Act s [event] s'
  | begins {pc space} (stands : s.current.point = .forkFunc pc space) :
      Act s [.begins s.currentThread] (s.fork_func pc space)
  | runs {change point} (next : Address) (live : point.live = s.current.point.live)
      (settles : s.current.point.live = true → s.Settles change)
      (yielding : s.current.point = .yielding → change = id)
      (idle : s.current.point.live = false → point = s.current.point ∧ change = id) :
      Act s [s.dispatch next] ((s.act change point).Run next)

/-- Kernel code that keeps loads from being under way. -/
theorem Settles.kernel {change : Registers → Registers} (kernel : s.current.point ≠ .user)
    (keeps : ∀ r : Registers, r.Settled → (change r).Settled) : s.Settles change :=
  fun r settled => keeps r (settled kernel)

/-- The current thread gives up the processor and is where it was. -/
theorem Act.run (next : Address) (kernel : s.current.point ≠ .user) :
    Act s [s.dispatch next] (s.Run next) := by
  have same : (s.act id s.current.point).Run next = s.Run next := by rw [act_self]
  rw [← same]
  exact .runs next rfl (fun _ => .kernel kernel fun _ settled => settled) (fun _ => rfl)
    fun _ => ⟨rfl, rfl⟩

theorem act_of_step {events : List Event} (step : Step s events s') : Act s events s' := by
  cases step with
  | instruction change stands =>
    exact .acts (by rw [stands]; rfl) (by rw [stands]; decide) rfl (fun away => absurd rfl away) (.inl rfl)
  | trap stands =>
    exact .acts (by rw [stands]; rfl) (by rw [stands]; decide) rfl
      (fun _ r _ => settled_raise r 0) (.inl rfl)
  | pageFault badVAddr stands =>
    exact .acts (by rw [stands]; rfl) (by rw [stands]; decide) rfl
      (fun _ r _ => settled_raise r badVAddr) (.inl rfl)
  | exec stands call free nonnull new => exact .spawns stands new
  | fork stands call free nonnull new has => exact .forks stands new has
  | full stands call none =>
    exact .acts (by rw [stands]; rfl) (by rw [stands]; decide) rfl (fun away => absurd rfl away) (.inl rfl)
  | yields stands runnable =>
    exact .runs _ (by rw [stands]; rfl)
      (fun _ => .kernel (by rw [stands]; decide) fun _ settled => settled) (fun _ => rfl)
      fun stopped => by rw [stands] at stopped; cases stopped
  | advance stands =>
    exact .acts (by rw [stands]; rfl) (by rw [stands]; decide) rfl (fun away => absurd rfl away) (.inl rfl)
  | yield stands call runnable =>
    exact .runs _ (by rw [stands]; rfl)
      (fun _ => .kernel (by rw [stands]; decide) fun _ settled => settled.PCAdvance)
      (fun yields => by rw [stands] at yields; cases yields)
      fun stopped => by rw [stands] at stopped; cases stopped
  | join stands call listed =>
    exact .acts (by rw [stands]; rfl) (by rw [stands]; decide) rfl
      (fun _ => .kernel (by rw [stands]; decide) fun _ settled => settled) (.inl rfl)
  | stray found stands call unlisted =>
    cases found with
    | true =>
      exact .acts (by rw [stands]; rfl) (by rw [stands]; decide) rfl
        (fun _ => .kernel (by rw [stands]; decide) fun _ settled => settled) (.inr ⟨_, rfl⟩)
    | false =>
      exact .acts (by rw [stands]; rfl) (by rw [stands]; decide) rfl
        (fun away => absurd rfl away) (.inr ⟨_, rfl⟩)
  | waits stands present runnable => exact .run _ (by rw [stands]; exact Point.noConfusion)
  | joined stands gone =>
    exact .acts (by rw [stands]; rfl) (by rw [stands]; exact Point.noConfusion) rfl
      (fun away => absurd rfl away) (.inl rfl)
  | exitMain stands call orphan =>
    exact .acts (by rw [stands]; rfl) (by rw [stands]; decide) rfl (fun away => absurd rfl away) (.inl rfl)
  | exit stands call child => exact .ends (exit_ends s) fun _ _ => Event.noConfusion
  | fault badVAddr stands =>
    have live : s.current.point.live = true := by
      obtain trapped | serving := stands
      · rw [trapped]
        rfl
      · rw [serving]
        rfl
    have apart : s.current.point ≠ .yielding := by
      obtain trapped | serving := stands
      · rw [trapped]
        decide
      · rw [serving]
        decide
    exact .acts live apart live (fun _ r _ => settled_raise r badVAddr) (.inl rfl)
  | serve stands other =>
    exact .acts (by rw [stands]; rfl) (by rw [stands]; decide) rfl
      (fun _ => .kernel (by rw [stands]; decide) fun _ settled => settled) (.inl rfl)
  | result value stands =>
    exact .acts (by rw [stands]; rfl) (by rw [stands]; decide) rfl
      (fun _ => .kernel (by rw [stands]; decide) fun _ settled => settled.result value) (.inl rfl)
  | served advances stands =>
    exact .acts (by rw [stands]; rfl) (by rw [stands]; decide) rfl (fun away => absurd rfl away) (.inl rfl)
  | opens space stands => exact .loads space
  | fails stands => exact .ends (fails_ends s) fun _ _ => Event.noConfusion
  | begins stands => exact .begins stands
  | interrupt => exact .interrupt
  | preempts stands runnable =>
    exact .runs _ (by rw [stands]) (fun _ r _ => settled_DelayedLoad r)
      (fun yields => by rw [stands] at yields; cases yields)
      fun stopped => by rw [stands] at stopped; cases stopped
  | switches kernel runnable => exact .run _ kernel

/-! ## Undisturbed runs -/

theorem live_ne_forkFunc {point : Point} (live : point.live = true) (pc : BitVec 32)
    (space : AddrSpace) : point ≠ .forkFunc pc space := by
  rintro rfl
  cases live

/-- While another user program goes on, no new thread is undisturbed. -/
theorem Held.blocked {trace : List Event} (held : Held trace s) (sound : Sound s)
    (live : s.current.point.live = true) (apart : s.current.point ≠ .yielding) {t : Address}
    {pc : BitVec 32} {space : AddrSpace} (waits : (s.thread t).point = .forkFunc pc space) :
    ¬ Pending trace t := by
  intro pending
  obtain ⟨-, r, inherits, -⟩ := sound.waiting t pc space waits
  obtain ⟨yielding | idle, -⟩ := held t pc space r waits inherits pending
  · exact apart yielding
  · rw [live] at idle
    cases idle

/-- The threads that wait for `fork_func`, when the current one does not. -/
theorem Others.waits (others : Others s s') (here : ∀ pc space, s'.current.point ≠ .forkFunc pc space)
    {t : Address} {pc : BitVec 32} {space : AddrSpace}
    (waits : (s'.thread t).point = .forkFunc pc space) :
    (s.thread t).point = .forkFunc pc space := by
  have other : t ≠ s.currentThread := by
    rintro rfl
    rw [← others.current] at waits
    exact here pc space waits
  exact (others.point t other).symm.trans waits

theorem unborn_ne_current {child : Address} (stands : s.current.point = .trapped)
    (new : (s.thread child).point = .unborn) : child ≠ s.currentThread := by
  rintro rfl
  rw [current, new] at stands
  cases stands

/-- What one step keeps. -/
structure Good (trace : List Event) (s : System) : Prop where
  sound : Sound s
  held : Held trace s

theorem Good.acts {trace events : List Event} (good : Good trace s) {change : Registers → Registers}
    {point : Point} (live : s.current.point.live = true) (apart : s.current.point ≠ .yielding)
    (stays : point.live = true) (settles : point ≠ .user → s.Settles change)
    (silent : events = [] ∨ ∃ found, events = [.strays s.currentThread found]) :
    Good (trace ++ events) (s.act change point) := by
  refine ⟨good.sound.act (stays.trans live.symm) (fun _ => settles) fun stopped => ?_,
    fun t pc space r waits inherits pending => ?_⟩
  · rw [live] at stopped
    cases stopped
  · have here : ∀ pc space, (s.act change point).current.point ≠ .forkFunc pc space := by
      rw [act_current]
      exact live_ne_forkFunc stays
    have before : Pending trace t := by
      obtain rfl | ⟨found, rfl⟩ := silent
      · simpa using pending
      · exact (pending.before fun _ => Event.noConfusion).1
    exact absurd before (good.held.blocked good.sound live apart
      ((act_others s change point).waits here waits))

theorem Good.interrupt {trace : List Event} (good : Good trace s) :
    Good trace (s.act (·.DelayedLoad) s.current.point) := by
  have threads : ∀ t, ((s.act (·.DelayedLoad) s.current.point).thread t).point = (s.thread t).point := by
    intro t
    by_cases self : t = s.currentThread
    · subst self
      exact congrArg Thread.point (act_current s _ _)
    · exact (act_others s _ _).point t self
  refine ⟨good.sound.act rfl (fun _ _ r _ => settled_DelayedLoad r) fun _ => ⟨rfl, fun r settled =>
    settled.DelayedLoad⟩, fun t pc space r waits inherits pending => ?_⟩
  rw [threads] at waits
  obtain ⟨position, registers, loaded⟩ := good.held t pc space r waits inherits pending
  obtain ⟨-, r', inherits', -, settled⟩ := good.sound.waiting t pc space waits
  have same : r' = r := by
    have both := inherits'.symm.trans inherits
    cases both
    rfl
  refine ⟨?_, ?_, loaded⟩
  · rw [act_current]
    exact position
  · show s.registers.DelayedLoad = r
    rw [registers, ← same]
    exact settled.DelayedLoad

/-- The part of `SC_Exec` and `SC_Fork` that changes registers. -/
theorem Sound.called (sound : Sound s) (stands : s.current.point = .trapped) (child : Address) :
    Sound (s.act (·.write 2 child) .yielding) := by
  refine sound.act (by rw [stands]; rfl) (fun _ _ r settled => ?_) fun stopped => ?_
  · exact (settled (by rw [stands]; decide)).result child
  · rw [stands] at stopped
    cases stopped

/-- A thread that waits for `fork_func` behind `SC_Exec` or `SC_Fork` waited before
or is the new one. -/
theorem spawn_waits {i : Fin 10} {child t : Address} {point : Point} {pc : BitVec 32} {space : AddrSpace}
    {change : Registers → Registers} (apart : t ≠ child)
    (after : (((s.act change .yielding).spawn i child point).thread t).point = .forkFunc pc space) :
    (s.thread t).point = .forkFunc pc space := by
  obtain ⟨same, -⟩ := spawn_other (s.act change .yielding) i point apart
  have here : ∀ pc space, (s.act change .yielding).current.point ≠ .forkFunc pc space := by
    rw [act_current]
    exact fun _ _ => Point.noConfusion
  exact (act_others s _ _).waits here (same.symm.trans after)

theorem Good.spawns {trace : List Event} (good : Good trace s) {i : Fin 10} {child : Address}
    (stands : s.current.point = .trapped) (new : (s.thread child).point = .unborn) :
    Good trace ((s.act (·.write 2 child) .yielding).spawn i child .exec) := by
  have live : s.current.point.live = true := by
    rw [stands]
    rfl
  have apart := unborn_ne_current stands new
  refine ⟨(good.sound.called stands child).spawn apart rfl (fun _ _ => rfl) (fun _ _ => rfl)
    fun _ _ waits => (by cases waits), fun t pc space r waits inherits pending => ?_⟩
  have other : t ≠ child := by
    rintro rfl
    rw [(spawn_child _ _ _ _).1] at waits
    cases waits
  have waited := spawn_waits other waits
  exact absurd pending (good.held.blocked good.sound live (by rw [stands]; decide) waited)

theorem Good.forks {trace : List Event} (good : Good trace s) {i : Fin 10} {child : Address}
    {space : AddrSpace} (stands : s.current.point = .trapped)
    (new : (s.thread child).point = .unborn) (has : s.current.space = some space) :
    Good (trace ++ [.forks s.currentThread child]) (s.fork i child space) := by
  have live : s.current.point.live = true := by
    rw [stands]
    rfl
  have kernel : s.current.point ≠ .user := by
    rw [stands]
    decide
  have apart := unborn_ne_current stands new
  obtain ⟨same, space', has', loaded⟩ := good.sound.current live
  have spaces : space' = space := by
    have both := has'.symm.trans has
    cases both
    rfl
  subst spaces
  have settled : (s.registers.write 2 child).Settled := by
    have before := good.sound.settled _ live (.inr kernel)
    rw [← same] at before
    exact before.result child
  have inherits : (s.fork i child space').inherited child =
      some (s.registers.write 2 child, space') := Function.update_self _ _ _
  have sound : Sound (s.fork i child space') := by
    refine (good.sound.called stands child).spawn apart rfl
      (fun t other => Function.update_of_ne other _ _)
      (fun t other => Function.update_of_ne other _ _) fun pc space at_ => ?_
    cases at_
    exact ⟨_, inherits, Function.update_self _ _ _, settled⟩
  refine ⟨sound, fun t pc space r waits inherit pending => ?_⟩
  by_cases self : t = child
  · -- The new thread: the machine is as the parent has it.
    subst self
    have both := inherits.symm.trans inherit
    cases both
    refine ⟨.inl ?_, rfl, loaded⟩
    have kept := (spawn_other (s.act (·.write 2 t) .yielding) i
      (.forkFunc (s.registers 4) space') (Ne.symm apart)).1
    exact kept.trans (congrArg Thread.point (act_current s _ _))
  · have before := (pending.before fun parent forked => self (by cases forked; rfl)).1
    have waited := spawn_waits self waits
    exact absurd before (good.held.blocked good.sound live (by rw [stands]; decide) waited)

/-- Nothing is undisturbed behind an event that disturbs. -/
theorem held_of_disturbs {trace : List Event} {event : Event} (disturbs : event.disturbs = true) :
    Held (trace ++ [event]) s := by
  intro t pc space r waits inherits pending
  have calm := (pending.before fun parent forked => by rw [forked] at disturbs; cases disturbs).2
  rw [disturbs] at calm
  cases calm

theorem Good.ends {trace : List Event} (good : Good trace s) {event : Event} (ended : Ends s s')
    (other : ∀ parent child, event ≠ .forks parent child) : Good (trace ++ [event]) s' := by
  refine ⟨good.sound.ends ended, fun t pc space r waits inherits pending => ?_⟩
  have here : ∀ pc space, s'.current.point ≠ .forkFunc pc space := by
    rw [ended.finished]
    exact fun _ _ => Point.noConfusion
  obtain ⟨-, registers, table, size⟩ := good.held t pc space r (ended.toOthers.waits here waits)
    (by rw [← ended.inherited]; exact inherits) (pending.before fun parent => other parent t).1
  refine ⟨.inr (by rw [ended.finished]; rfl), ended.registers.trans registers, ?_⟩
  exact ⟨ended.pageTable.trans table, ended.pageTableSize.trans size⟩

theorem Good.begins {trace : List Event} (good : Good trace s) {pc : BitVec 32} {space : AddrSpace}
    (stands : s.current.point = .forkFunc pc space) (pending : Pending trace s.currentThread) :
    Good (trace ++ [.begins s.currentThread]) (s.fork_func pc space) := by
  obtain ⟨-, r, inherits, -⟩ := good.sound.waiting _ pc space stands
  obtain ⟨-, registers, loaded⟩ := good.held _ pc space r stands inherits pending
  exact ⟨good.sound.fork_func stands (registers ▸ inherits) loaded, held_of_disturbs rfl⟩

theorem Good.runs {trace : List Event} (good : Good trace s) {change : Registers → Registers}
    {point : Point} (next : Address) (live : point.live = s.current.point.live)
    (settles : s.current.point.live = true → s.Settles change)
    (yielding : s.current.point = .yielding → change = id)
    (idle : s.current.point.live = false → point = s.current.point ∧ change = id) :
    Good (trace ++ [s.dispatch next]) ((s.act change point).Run next) := by
  have acted : Sound (s.act change point) :=
    good.sound.act live (fun alive _ => settles (live.symm.trans alive)) fun stopped =>
      ⟨(idle stopped).1, fun r _ => by rw [(idle stopped).2]; rfl⟩
  have sound : Sound ((s.act change point).Run next) := by
    refine acted.Run next fun alive => ?_
    rw [act_current] at alive
    have lived := live.symm.trans alive
    refine (act_own s change point).symm ▸ settles lived _ fun kernel => ?_
    exact good.sound.settled _ lived (.inr kernel)
  refine ⟨sound, fun t pc space r waits inherits pending => ?_⟩
  obtain ⟨before, calm⟩ := pending.before fun _ => Event.noConfusion
  have none : ((s.act change point).thread next).space = none := by
    have without : (s.thread next).space = none := by
      simpa [dispatch, Event.disturbs] using calm
    by_cases self : next = s.currentThread
    · subst self
      exact (congrArg Thread.space (act_current s change point)).trans without
    · exact ((act_others s change point).space next self).trans without
  have waited : (s.thread t).point = .forkFunc pc space := by
    rw [Run_point] at waits
    by_cases self : t = s.currentThread
    · subst self
      have moved : point = .forkFunc pc space :=
        (congrArg Thread.point (act_current s change point)).symm.trans waits
      have stopped : s.current.point.live = false := by
        rw [← live, moved]
        rfl
      exact (idle stopped).1.symm.trans moved
    · exact ((act_others s change point).point t self).symm.trans waits
  rw [(Run_fields _ next).2.2.2] at inherits
  obtain ⟨position, registers, table, size⟩ := good.held t pc space r waited inherits before
  have kept : change s.registers = s.registers := by
    obtain yields | stopped := position
    · rw [yielding yields]
      rfl
    · rw [(idle stopped).2]
      rfl
  obtain ⟨ran, ranTable, ranSize⟩ := Run_keeps none
  refine ⟨.inr ?_, ran.trans (kept.trans registers), ranTable.trans table, ranSize.trans size⟩
  by_contra alive
  obtain ⟨-, space', has, -⟩ := sound.current (by simpa using alive)
  rw [System.current, (Run_fields _ next).1, Run_space, none] at has
  cases has

theorem Good.step {trace events : List Event} (good : Good trace s) (step : Step s events s')
    (undisturbed : Undisturbed (trace ++ events)) : Good (trace ++ events) s' := by
  cases act_of_step step with
  | acts live apart stays settles silent => exact good.acts live apart stays settles silent
  | interrupt => simpa using good.interrupt
  | spawns stands new => simpa using good.spawns stands new
  | forks stands new has => exact good.forks stands new has
  | loads space => exact ⟨good.sound.load space, held_of_disturbs rfl⟩
  | ends ended other => exact good.ends ended other
  | begins stands => exact good.begins stands (undisturbed trace _ [] rfl)
  | runs next live settles yielding idle => exact good.runs next live settles yielding idle

theorem Boots.good (boots : Boots s) : Good [] s := by
  have points : ∀ t, (s.thread t).point = .exec ∨ (s.thread t).point = .unborn := by
    intro t
    by_cases self : t = s.currentThread
    · rw [self]
      exact .inl boots.main
    · exact .inr (boots.alone t self)
  have dead : ∀ t, (s.thread t).point.live ≠ true := by
    intro t
    obtain same | same := points t <;> rw [same] <;> decide
  have running : ∀ t pc space, (s.thread t).point ≠ .forkFunc pc space := by
    intro t pc space
    obtain same | same := points t <;> rw [same] <;> exact Point.noConfusion
  refine ⟨⟨fun alive => ?_, fun t _ alive => ?_, fun t alive => ?_, fun t pc space waits => ?_⟩,
    fun t pc space _ waits => ?_⟩
  · exact absurd alive (dead _)
  · exact absurd alive (dead t)
  · exact absurd alive (dead t)
  · exact absurd waits (running t pc space)
  · exact absurd waits (running t pc space)

theorem good_of_runs {start : System} (boots : Boots start) {trace : List Event}
    (run : Runs Step start trace s) (undisturbed : Undisturbed trace) : Good trace s := by
  revert undisturbed
  refine run.invariant (P := fun trace s => Undisturbed trace → Good trace s)
    (fun _ => boots.good) fun _ before taken undisturbed => ?_
  exact (before undisturbed.before).step taken undisturbed

/-- The registers of a thread change only in its own steps. -/
theorem own_of_step {events : List Event} (step : Step s events s') {t : Address}
    (other : t ≠ s.currentThread) (born : (s.thread t).point ≠ .unborn) : s'.own t = s.own t := by
  cases act_of_step step with
  | acts | interrupt => exact (act_others s _ _).own t other
  | @spawns _ child => exact (act_others s (·.write 2 child) .yielding).own t other
  | @forks _ child _ _ new _ =>
    have apart : t ≠ child := by
      rintro rfl
      exact born new
    exact (Function.update_of_ne apart _ _).trans ((act_others s _ _).own t other)
  | loads => exact Function.update_of_ne other _ _
  | ends ended => exact ended.own t other
  | begins => rfl
  | runs next =>
    rw [(Run_fields _ next).2.2.1]
    exact (act_others s _ _).own t other

theorem begins_of_step {child : Address} (step : Step s [.begins child] s') :
    s.currentThread = child ∧
      ∃ pc space, s.current.point = .forkFunc pc space ∧ s' = s.fork_func pc space := by
  generalize reported : [Event.begins child] = events at step
  cases step <;> simp only [dispatch, List.cons.injEq, reduceCtorEq, false_and] at reported
  case begins pc space stands =>
    cases reported.1
    exact ⟨rfl, pc, space, stands, rfl⟩

/-- A thread that executes user instructions has its own page table and its own
registers, which change only in its own steps. One started by `SC_Fork` begins with
the page table and the registers of its parent, except for the program counters. -/
theorem user_state_is_its_own {start : System} (boots : Boots start) {trace : List Event}
    (run : Runs Step start trace s) (undisturbed : Undisturbed trace) :
    (s.current.point = .user → s.registers = s.own s.currentThread ∧
      ∃ space, s.current.space = some space ∧ s.pageTable = space.pageTable ∧
        s.pageTableSize = space.numPages) ∧
    (∀ events s', Step s events s' → ∀ t, t ≠ s.currentThread → (s.thread t).point ≠ .unborn →
      s'.own t = s.own t) ∧
    (∀ child s', Step s [.begins child] s' → Undisturbed (trace ++ [.begins child]) →
      ∃ r space, s.inherited child = some (r, space) ∧ s'.pageTable = space.pageTable ∧
        s'.pageTableSize = space.numPages ∧
        ∀ num, num ≠ PCReg → num ≠ NextPCReg → s'.registers num = r num) := by
  have good := good_of_runs boots run undisturbed
  refine ⟨fun stands => ?_, fun events s' step t => own_of_step step, fun child s' step calm => ?_⟩
  · exact good.sound.current (by rw [stands]; rfl)
  · obtain ⟨rfl, pc, space, stands, rfl⟩ := begins_of_step step
    obtain ⟨-, r, inherits, -⟩ := good.sound.waiting _ pc space stands
    obtain ⟨-, registers, table, size⟩ := good.held _ pc space r stands inherits (calm trace _ [] rfl)
    refine ⟨r, space, inherits, table, size, fun num apart apart' => ?_⟩
    show s.registers.jump pc num = r num
    rw [jump, write_other _ apart', write_other _ apart, registers]

/-! ## One parent and its children -/

/-- Thread 1 is about to start a program. -/
def bare : System where
  registers := fun _ => 0
  pageTable := 0
  pageTableSize := 0
  currentThread := 1
  thread := fun t =>
    { point := if t = 1 then .exec else .unborn
      userRegisters := fun _ => 0
      space := none
      child := fun _ => 0
      father := t }
  saved := fun _ => false
  own := fun _ _ => 0
  inherited := fun _ => none

theorem boots_bare : Boots bare where
  main := rfl
  nonnull := by decide
  alone _ other := if_neg other
  unborn _ := ⟨rfl, fun _ => rfl, rfl⟩
  unsaved _ := rfl

/-- A user program calls the kernel. -/
def calls (s : System) (call argument : BitVec 32) : System :=
  (s.act (fun r => (r.write ResultReg call).write ArgumentReg argument) .user).act (·.raise 0) .trapped

theorem runs_calls {start : System} {trace : List Event} (run : Runs Step start trace s)
    (stands : s.current.point = .user) (call argument : BitVec 32) :
    Runs Step start trace (s.calls call argument) := by
  have set : Runs Step start (trace ++ [])
      (s.act (fun r => (r.write ResultReg call).write ArgumentReg argument) .user) :=
    .next run (.instruction _ stands)
  have trapped := set.next (.trap (by rw [act_current]))
  simpa [calls] using trapped

def parentSpace : AddrSpace := ⟨0x1000, 10⟩
def childSpace : AddrSpace := ⟨0x2000, 20⟩

/-- Thread 1 has started its program and calls `SC_Fork`, which starts thread 2. -/
def firstFork : System := ((bare.load parentSpace).calls SC_Fork 64).fork 0 2 parentSpace

theorem runs_firstFork : Runs Step bare [.loads 1, .forks 1 2] firstFork := by
  have loaded : Runs Step bare [.loads 1] (bare.load parentSpace) := .single (.opens parentSpace rfl)
  have called := runs_calls loaded rfl SC_Fork 64
  exact called.next (.fork rfl rfl ⟨rfl, fun j first => absurd first (by simp)⟩ (by decide) rfl rfl)

/-- Thread 2 is dispatched at once and gets to `fork_func`. -/
def forkedAlone : System := ((firstFork.act id .advancing).Run 2).fork_func 64 parentSpace

theorem runs_forkedAlone :
    Runs Step bare [.loads 1, .forks 1 2, .dispatches 2 false, .begins 2] forkedAlone := by
  have dispatched := runs_firstFork.next (.yields rfl ⟨(by decide : (firstFork.thread 2).point ≠ .unborn), by decide⟩)
  exact dispatched.next (.begins rfl)

theorem undisturbed_forkedAlone :
    Undisturbed [.loads 1, .forks 1 2, .dispatches 2 false, .begins 2] := by
  intro before child rest same
  match before, same with
  | [_, _, _], same =>
    simp only [List.cons_append, List.nil_append, List.cons.injEq] at same
    obtain ⟨rfl, rfl, rfl, started, -⟩ := same
    cases started
    exact ⟨[.loads 1], 1, [.dispatches 2 false], rfl, by simp [Event.disturbs]⟩
  | _ :: _ :: _ :: _ :: _, same => simp at same

theorem user_state_is_its_own_forked :
    forkedAlone.current.point = .user ∧ forkedAlone.registers = forkedAlone.own 2 ∧
      forkedAlone.pageTable = 0x1000 := by
  have results := user_state_is_its_own boots_bare runs_forkedAlone undisturbed_forkedAlone
  obtain ⟨same, space, has, table, -⟩ := results.1 rfl
  refine ⟨rfl, same, ?_⟩
  cases has
  exact table

/-- Thread 1 calls `SC_Exec`, which starts thread 2. -/
def execed : System :=
  (((bare.load parentSpace).calls SC_Exec 0).act (·.write ResultReg 2) .yielding).spawn 0 2 .exec

theorem runs_execed : Runs Step bare [.loads 1] execed := by
  have loaded : Runs Step bare [.loads 1] (bare.load parentSpace) := .single (.opens parentSpace rfl)
  have called := runs_calls loaded rfl SC_Exec 0
  exact called.next (.exec rfl rfl ⟨rfl, fun j first => absurd first (by simp)⟩ (by decide) rfl)

/-- Thread 2 starts its program. -/
def secondProgram : System := ((execed.act id .advancing).Run 2).load childSpace

theorem runs_secondProgram : Runs Step bare [.loads 1, .dispatches 2 false, .loads 2] secondProgram := by
  have dispatched := runs_execed.next (.yields rfl ⟨(by decide : (execed.thread 2).point ≠ .unborn), by decide⟩)
  exact dispatched.next (.opens childSpace rfl)

/-- It calls `SC_Yield`, and thread 1 calls `SC_Fork`, which starts thread 3. -/
def secondFork : System :=
  let back := (((secondProgram.calls SC_Yield 0).act (·.PCAdvance) .user).Run 1).act (·.PCAdvance) .user
  (back.calls SC_Fork 64).fork 1 3 parentSpace

theorem runs_secondFork : Runs Step bare
    [.loads 1, .dispatches 2 false, .loads 2, .dispatches 1 true, .forks 1 3] secondFork := by
  have yields := runs_calls runs_secondProgram rfl SC_Yield 0
  have back := yields.next (.yield rfl rfl
    ⟨(by decide : ((secondProgram.calls SC_Yield 0).thread 1).point ≠ .unborn), by decide⟩)
  have called := runs_calls (back.next (.advance rfl)) rfl SC_Fork 64
  have slot : ∀ j : Fin 10, j < 1 → j = 0 := by decide
  exact called.next (.fork rfl rfl ⟨rfl, fun j first => by rw [slot j first]; decide⟩ (by decide) rfl rfl)

/-- Thread 2 is ready as well and comes first; it yields to thread 3. -/
def forkedBehind : System :=
  let resumed := (secondFork.act id .advancing).Run 2
  (((resumed.calls SC_Yield 0).act (·.PCAdvance) .user).Run 3).fork_func 64 parentSpace

theorem runs_forkedBehind : Runs Step bare
    [.loads 1, .dispatches 2 false, .loads 2, .dispatches 1 true, .forks 1 3, .dispatches 2 true,
      .dispatches 3 false, .begins 3] forkedBehind := by
  have resumed := runs_secondFork.next
    (.yields rfl ⟨(by decide : (secondFork.thread 2).point ≠ .unborn), by decide⟩)
  have yields := runs_calls resumed rfl SC_Yield 0
  have dispatched := yields.next (.yield rfl rfl ⟨(by decide :
    ((((secondFork.act id .advancing).Run 2).calls SC_Yield 0).thread 3).point ≠ .unborn), by decide⟩)
  exact dispatched.next (.begins rfl)

/-- Thread 3 runs on the page table and the stack of thread 2. -/
theorem forked_thread_runs_on_anothers_state : ∃ start trace s, Boots start ∧
    Runs Step start trace s ∧ s.current.point = .user ∧ s.current.space = some parentSpace ∧
    s.pageTable ≠ parentSpace.pageTable ∧ s.pageTableSize ≠ parentSpace.numPages ∧
    ∃ r, s.inherited s.currentThread = some (r, parentSpace) ∧ s.registers StackReg ≠ r StackReg := by
  refine ⟨bare, _, forkedBehind, boots_bare, runs_forkedBehind, rfl, rfl, by decide, by decide, ?_⟩
  exact ⟨_, rfl, by decide⟩

end System

end Nachos.Userprog
