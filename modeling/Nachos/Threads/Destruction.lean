import Nachos.Threads.SchedulerProofs

/-! What becomes of finished threads. `Finish` leaves a thread in
`threadToBeDestroyed`, and whoever comes out of `SWITCH` next deletes it. A thread
that runs for the first time starts at `ThreadRoot` and deletes nobody, so that a
second `Finish` can replace a thread that was not deleted: the exact condition on
the schedule is stated and proved here. -/
namespace Nachos.Threads.Scheduler
open Effects

variable {T S L C U W : Type}

/-! ## Schedules -/

/-- A thread has finished, and since then only threads were dispatched that had
not run before. -/
def Uncollected (main : T) (trace : List (Scheduled T)) : Prop :=
  ∃ before t after, trace = before ++ .finishes t :: after ∧
    ∀ between u rest, after = between ++ .dispatches u :: rest →
      u ≠ main ∧ .dispatches u ∉ before ++ .finishes t :: between

/-- Whenever a thread finishes, some thread that had run before was dispatched
since the last one finished. -/
def Prompt (main : T) (trace : List (Scheduled T)) : Prop :=
  ∀ before t rest, trace = before ++ .finishes t :: rest → ¬ Uncollected main before

section
variable {main : T} {trace : List (Scheduled T)}

theorem uncollected_finishes (t : T) : Uncollected main (trace ++ [.finishes t]) := by
  refine ⟨trace, t, [], rfl, fun between u rest impossible => ?_⟩
  simp at impossible

/-- An event that is no `Finish` keeps the finished thread waiting unless it is the
dispatch of a thread that had run. -/
theorem uncollected_snoc {event : Scheduled T} (other : ∀ t, event ≠ .finishes t) :
    Uncollected main (trace ++ [event]) ↔ Uncollected main trace ∧
      ∀ u, event = .dispatches u → u ≠ main ∧ .dispatches u ∉ trace := by
  constructor
  · rintro ⟨before, t, after, same, only⟩
    obtain ⟨rfl, rfl, last⟩ | ⟨shorter, rfl, rfl⟩ := snoc_split same
    · exact absurd last (other t)
    · refine ⟨⟨before, t, shorter, rfl, fun between u rest inside => ?_⟩, fun u last => ?_⟩
      · exact only between u (rest ++ [event]) (by rw [inside]; simp)
      · exact only shorter u [] (by rw [last])
  · rintro ⟨⟨before, t, after, rfl, only⟩, fresh⟩
    refine ⟨before, t, after ++ [event], by simp, fun between u rest inside => ?_⟩
    obtain ⟨rfl, rfl, last⟩ | ⟨shorter, rfl, rfl⟩ := snoc_split inside
    · exact fresh u last
    · exact only between u shorter rfl

theorem prompt_snoc {event : Scheduled T} :
    Prompt main (trace ++ [event]) ↔ Prompt main trace ∧
      ∀ t, event = .finishes t → ¬ Uncollected main trace := by
  constructor
  · intro prompt
    refine ⟨fun before t rest same => ?_, fun t last => ?_⟩
    · exact prompt before t (rest ++ [event]) (by rw [same]; simp)
    · exact prompt trace t [] (by rw [last])
  · rintro ⟨prompt, fresh⟩ before t rest same
    obtain ⟨rfl, rfl, last⟩ | ⟨shorter, rfl, rfl⟩ := snoc_split same
    · exact fresh t last
    · exact prompt before t shorter rfl

/-- An event that neither dispatches nor finishes a thread. -/
def quiet : Scheduled T → Bool
  | .readies _ | .deletes _ => true
  | _ => false

variable (main trace) in
theorem quiet_events {events : List (Scheduled T)} (silent : ∀ event ∈ events, quiet event = true) :
    (Uncollected main (trace ++ events) ↔ Uncollected main trace) ∧
    (Prompt main (trace ++ events) ↔ Prompt main trace) ∧
    ∀ u, .dispatches u ∈ trace ++ events ↔ .dispatches u ∈ trace := by
  induction events generalizing trace with
  | nil => simp
  | cons event rest ih =>
    have first := silent event (by simp)
    obtain ⟨uncollected, prompt, dispatches⟩ :=
      ih (trace ++ [event]) fun later inside => silent later (by simp [inside])
    simp only [List.append_assoc, List.singleton_append] at uncollected prompt dispatches
    have notFinish : ∀ t, event ≠ .finishes t := by
      rintro t rfl
      cases first
    have notDispatch : ∀ u, event ≠ .dispatches u := by
      rintro u rfl
      cases first
    refine ⟨?_, ?_, fun u => ?_⟩
    · rw [uncollected, uncollected_snoc notFinish]
      simp [notDispatch]
    · rw [prompt, prompt_snoc]
      simp [notFinish]
    · rw [dispatches]
      simp [Ne.symm (notDispatch u)]

end

/-! ## What the scheduler knows of its schedule -/

section
variable [DecidableEq T] {s s' : Scheduler T S L C U W} {main : T}
  {trace events : List (Scheduled T)}

/-- The fields of the scheduler and the schedule so far tell the same. -/
structure Ledger (main : T) (trace : List (Scheduled T)) (s : Scheduler T S L C U W) : Prop where
  ran (u : T) : (u = s.currentThread ∨ s.saved u = true) ↔ (u = main ∨ .dispatches u ∈ trace)
  pending : s.threadToBeDestroyed ≠ none ↔ Uncollected main trace
  kept : s.forgotten = [] ↔ Prompt main trace

omit [DecidableEq T] in
/-- Nothing that concerns the schedule has happened. -/
theorem Ledger.quietly (ledger : Ledger main trace s) (silent : ∀ event ∈ events, quiet event = true)
    (current : s'.currentThread = s.currentThread) (saved : s'.saved = s.saved)
    (destroyed : s'.threadToBeDestroyed = s.threadToBeDestroyed)
    (forgotten : s'.forgotten = s.forgotten) : Ledger main (trace ++ events) s' := by
  obtain ⟨uncollected, prompt, dispatches⟩ := quiet_events main trace silent
  refine ⟨fun u => ?_, ?_, ?_⟩
  · rw [current, saved, dispatches, ledger.ran]
  · rw [destroyed, uncollected, ledger.pending]
  · rw [forgotten, prompt, ledger.kept]

/-- The current thread finishes. -/
theorem Ledger.Finish (ledger : Ledger main trace s) :
    Ledger main (trace ++ [.finishes s.currentThread]) s.Finish := by
  refine ⟨fun u => ?_, ?_, ?_⟩
  · show u = s.currentThread ∨ s.saved u = true ↔ _
    rw [ledger.ran]
    simp
  · have left : s.Finish.threadToBeDestroyed ≠ none := fun impossible => by cases impossible
    exact iff_of_true left (uncollected_finishes _)
  · have empty : s.Finish.forgotten = [] ↔ s.forgotten = [] ∧ s.threadToBeDestroyed = none := by
      simp [Scheduler.Finish, Scheduler.Sleep, setStatus]
    have collected : s.threadToBeDestroyed = none ↔ ¬ Uncollected main trace := by
      rw [← ledger.pending]
      simp
    rw [empty, prompt_snoc, ledger.kept, collected]
    simp

/-- `SWITCH` to the next thread, which has run before if and only if its registers
were saved. -/
theorem Ledger.SWITCH (ledger : Ledger main trace s) (next : T) (rest : List T) :
    (∀ u, (u = next ∨ (s.SWITCH next rest).saved u = true) ↔
      (u = main ∨ .dispatches u ∈ trace ++ [.dispatches next])) ∧
    ((s.SWITCH next rest).saved next = true ↔ (next = main ∨ .dispatches next ∈ trace)) := by
  have saved : ∀ u, (s.SWITCH next rest).saved u = true ↔
      (u = main ∨ .dispatches u ∈ trace) := by
    intro u
    rw [← ledger.ran]
    by_cases self : u = s.currentThread
    · simp [Scheduler.SWITCH, setStatus, self]
    · simp [Scheduler.SWITCH, setStatus, self]
  refine ⟨fun u => ?_, saved next⟩
  rw [saved]
  simp only [List.mem_append, List.mem_singleton, Scheduled.dispatches.injEq]
  tauto

/-- The next thread deletes the one that finished, or starts at `ThreadRoot`. -/
theorem Ledger.Run (ledger : Ledger main trace s) (next : T) (rest : List T) :
    Ledger main (trace ++ (s.Run next rest).2) (s.Run next rest).1 := by
  obtain ⟨ran, resumes⟩ := ledger.SWITCH next rest
  have notFinish : ∀ t, (.dispatches next : Scheduled T) ≠ .finishes t := fun t same => by cases same
  have uncollected : Uncollected main (trace ++ [.dispatches next]) ↔ Uncollected main trace ∧
      ∀ u, (.dispatches next : Scheduled T) = .dispatches u → u ≠ main ∧ .dispatches u ∉ trace :=
    uncollected_snoc notFinish
  have prompt : Prompt main (trace ++ [.dispatches next]) ↔ s.forgotten = [] := by
    rw [prompt_snoc, ledger.kept]
    simp
  obtain ⟨t, saved, left, run⟩ | ⟨starts, run⟩ := Run_cases s next rest
  · have again := resumes.mp saved
    have collected : ¬ Uncollected main (trace ++ [.dispatches next]) := by
      rw [uncollected]
      rintro ⟨-, fresh⟩
      obtain ⟨other, unseen⟩ := fresh next rfl
      exact again.elim other unseen
    have silent : ∀ event ∈ [(.deletes t : Scheduled T)], quiet event = true := by
      intro event inside
      rw [List.mem_singleton.mp inside]
      rfl
    obtain ⟨uncollected', prompt', dispatches'⟩ :=
      quiet_events main (trace ++ [.dispatches next]) silent
    simp only [List.append_assoc, List.singleton_append] at uncollected' prompt' dispatches'
    rw [run]
    refine ⟨fun u => ?_, ?_, ?_⟩
    · rw [dispatches']
      exact ran u
    · rw [uncollected']
      exact iff_of_false (fun left => left rfl) collected
    · rw [prompt']
      exact prompt.symm
  · rw [run]
    refine ⟨ran, ?_, prompt.symm⟩
    show s.threadToBeDestroyed ≠ none ↔ Uncollected main (trace ++ [.dispatches next])
    rw [uncollected, ← ledger.pending]
    obtain unsaved | none := starts
    · have fresh : next ≠ main ∧ .dispatches next ∉ trace := by
        rw [← not_or, ← resumes, unsaved]
        simp
      refine ⟨fun left => ⟨left, fun u same => ?_⟩, And.left⟩
      cases same
      exact fresh
    · simp [none]

theorem Ledger.turn (ledger : Ledger main trace s) (turn : Turn s events s') :
    Ledger main (trace ++ events) s' := by
  have readies : ∀ ts : List T, ∀ event ∈ ts.map Scheduled.readies, quiet event = true := by
    intro ts event inside
    obtain ⟨t, -, rfl⟩ := List.mem_map.mp inside
    rfl
  cases turn with
  | @goes result on wakes born =>
    have readied : Ledger main (trace ++ (readiedBy result.2).map .readies) (s.readies result) := by
      rw [readies_eq]
      exact ledger.quietly (readies _) rfl rfl rfl rfl
    have current : (s.readies result).currentThread = s.currentThread := by rw [readies_eq]
    unfold Scheduler.goesOn
    split
    · exact ⟨readied.ran, readied.pending, readied.kept⟩
    · exact ⟨readied.ran, readied.pending, readied.kept⟩
    · have finished := readied.Finish
      rw [current, List.append_assoc] at finished
      exact finished
    · exact readied
  | yields on wakes awake => exact ledger.quietly (readies [s.currentThread]) rfl rfl rfl rfl
  | interrupt enabled wakes =>
    rw [readies_eq]
    exact ledger.quietly (readies _) rfl rfl rfl rfl
  | idles off still => exact ledger.quietly (fun event inside => by cases inside) rfl rfl rfl rfl
  | dispatch off first => exact ledger.Run _ _

/-! ## What happens to finished threads -/

/-- Every finished thread was deleted, was forgotten or is the one to be deleted. -/
structure Buried (s : Scheduler T S L C U W) : Prop where
  left (t : T) : s.threadToBeDestroyed = some t →
    (s.threads.phase t).standing = .finished ∧ t ∉ s.deleted
  deleted (t : T) : t ∈ s.deleted → (s.threads.phase t).standing = .finished
  once : s.deleted.Nodup
  accounted (t : T) : (s.threads.phase t).standing = .finished →
    t ∈ s.deleted ∨ t ∈ s.forgotten ∨ s.threadToBeDestroyed = some t
  fine : s.failed = false

omit [DecidableEq T] in
/-- The same threads have finished as before. -/
theorem Buried.congr (buried : Buried s)
    (finished : ∀ t, (s'.threads.phase t).standing = .finished ↔
      (s.threads.phase t).standing = .finished)
    (destroyed : s'.threadToBeDestroyed = s.threadToBeDestroyed) (deleted : s'.deleted = s.deleted)
    (forgotten : s'.forgotten = s.forgotten) (failed : s'.failed = s.failed) : Buried s' := by
  refine ⟨fun t left => ?_, fun t inside => ?_, ?_, fun t done => ?_, ?_⟩
  · rw [destroyed] at left
    rw [finished, deleted]
    exact buried.left t left
  · rw [deleted] at inside
    rw [finished]
    exact buried.deleted t inside
  · rw [deleted]
    exact buried.once
  · rw [finished] at done
    rw [deleted, forgotten, destroyed]
    exact buried.accounted t done
  · rw [failed]
    exact buried.fine

omit [DecidableEq T] in
/-- Nobody but the thread that acts can finish, and nobody comes back. -/
theorem wakes_finished {actor : Option T} {k k' : State T S L C U W}
    {woken : List T} (wakes : Wakes actor k woken k') {t : T} (other : actor ≠ some t) :
    (k'.phase t).standing = .finished ↔ (k.phase t).standing = .finished := by
  by_cases inside : t ∈ woken
  · rw [wakes.awake t inside]
    obtain asleep | unborn := wakes.was t inside
    · rw [asleep]
      simp
    · rw [unborn]
      simp
  · rw [wakes.others t inside other]

/-- The current thread finishes. -/
theorem Buried.Finish (buried : Buried s) {threads : State T S L C U W}
    (others : ∀ t, t ≠ s.currentThread →
      ((threads.phase t).standing = .finished ↔ (s.threads.phase t).standing = .finished))
    (ran : (s.threads.phase s.currentThread).standing ≠ .finished)
    (done : (threads.phase s.currentThread).standing = .finished) {readyList : List T}
    {status : T → Status} :
    Buried ({ s with threads := threads, readyList := readyList, status := status
              } : Scheduler T S L C U W).Finish := by
  have apart : ∀ t, t ∈ s.deleted → t ≠ s.currentThread := by
    rintro t inside rfl
    exact ran (buried.deleted _ inside)
  refine ⟨fun t left => ?_, fun t inside => ?_, buried.once, fun t finished => ?_, buried.fine⟩
  · obtain rfl : s.currentThread = t := Option.some.inj left
    exact ⟨done, fun inside => apart _ inside rfl⟩
  · exact (others t (apart t inside)).mpr (buried.deleted t inside)
  · by_cases self : t = s.currentThread
    · exact .inr (.inr (by rw [self]; rfl))
    · obtain deleted | forgotten | left := buried.accounted t ((others t self).mp finished)
      · exact .inl deleted
      · exact .inr (.inl (List.mem_append_left _ forgotten))
      · exact .inr (.inl (List.mem_append_right _ (by rw [left]; simp)))

theorem Buried.deleteThread (buried : Buried s) {t : T} (left : s.threadToBeDestroyed = some t)
    (apart : t ≠ s.currentThread) : Buried (s.deleteThread t) := by
  obtain ⟨finished, kept⟩ := buried.left t left
  refine ⟨fun t' none => (by cases none), fun t' inside => ?_, ?_, fun t' done => ?_, ?_⟩
  · obtain earlier | last := List.mem_append.mp inside
    · exact buried.deleted t' earlier
    · rw [List.mem_singleton.mp last]
      exact finished
  · refine List.nodup_append.mpr ⟨buried.once, List.nodup_singleton t, fun a earlier b last same => ?_⟩
    rw [same, List.mem_singleton.mp last] at earlier
    exact kept earlier
  · obtain deleted | forgotten | now := buried.accounted t' done
    · exact .inl (List.mem_append_left _ deleted)
    · exact .inr (.inl forgotten)
    · rw [left] at now
      rw [← Option.some.inj now]
      exact .inl (List.mem_append_right _ (List.mem_singleton.mpr rfl))
  · simp [Scheduler.deleteThread, buried.fine, apart]

theorem Buried.turn (buried : Buried s) (listed : Listed s) (turn : Turn s events s') :
    Buried s' := by
  -- a thread that is awake has not finished
  have running : s.mode = .on → (s.threads.phase s.currentThread).standing ≠ .finished := by
    intro on done
    rw [listed.awake on] at done
    cases done
  cases turn with
  | @goes result on wakes born =>
    have others : ∀ t, t ≠ s.currentThread →
        ((result.1.phase t).standing = .finished ↔ (s.threads.phase t).standing = .finished) :=
      fun t other => wakes_finished wakes fun same => other (Option.some.inj same).symm
    have same : (result.1.phase s.currentThread).standing ≠ .finished →
        ∀ t, (result.1.phase t).standing = .finished ↔ (s.threads.phase t).standing = .finished := by
      intro undone t
      by_cases self : t = s.currentThread
      · subst self
        exact iff_of_false undone (running on)
      · exact others t self
    unfold Scheduler.goesOn
    rw [readies_eq]
    split
    · rename_i shape
      exact buried.congr (same (by rw [shape]; exact fun impossible => by cases impossible))
        rfl rfl rfl rfl
    · rename_i shape
      exact buried.congr (same (by rw [shape]; exact fun impossible => by cases impossible))
        rfl rfl rfl rfl
    · rename_i shape
      exact buried.Finish others (running on) (by rw [shape]; rfl)
    · rename_i unfinished
      refine buried.congr (same fun done => ?_) rfl rfl rfl rfl
      cases shape : result.1.phase s.currentThread <;> simp [shape, Phase.standing] at done
      exact unfinished shape
  | yields on wakes awake =>
    refine buried.congr (fun t => ?_) rfl rfl rfl rfl
    by_cases self : t = s.currentThread
    · subst self
      refine iff_of_false (fun done => ?_) (running on)
      have impossible : Standing.awake = .finished := awake.symm.trans done
      cases impossible
    · exact wakes_finished wakes fun same => self (Option.some.inj same).symm
  | interrupt enabled wakes =>
    rw [readies_eq]
    exact buried.congr (fun t => wakes_finished wakes fun impossible => by cases impossible)
      rfl rfl rfl rfl
  | idles off still => exact buried.congr (fun t => Iff.rfl) rfl rfl rfl rfl
  | @dispatch next rest off first =>
    have switched : Buried (s.SWITCH next rest) := buried.congr (fun t => Iff.rfl) rfl rfl rfl rfl
    obtain ⟨t, -, left, ran⟩ | ⟨-, ran⟩ := Run_cases s next rest
    · rw [ran]
      refine switched.deleteThread left ?_
      rintro rfl
      have awake := (listed.SWITCH off first).awake rfl
      obtain ⟨finished, -⟩ := switched.left _ left
      have impossible : Standing.awake = .finished := awake.symm.trans finished
      cases impossible
    · rw [ran]
      exact switched

/-! ## Runs -/

variable [DecidableEq S] [DecidableEq L] [DecidableEq C] {code : Code T S L C U W}
  {start : Scheduler T S L C U W}

theorem Boots.buried_run (boots : Boots start) (run : Runs (Step code) start trace s) :
    Ledger start.currentThread trace s ∧ Buried s := by
  have kept : Orderly s ∧ Ledger start.currentThread trace s ∧ Buried s := by
    refine run.invariant
      (P := fun trace s => Orderly s ∧ Ledger start.currentThread trace s ∧ Buried s)
      ⟨boots.orderly, ?_, ?_⟩ ?_
    · refine ⟨fun u => ?_, ?_, ?_⟩
      · simp [boots.unsaved]
      · refine iff_of_false (fun left => left boots.nobody) ?_
        rintro ⟨before, t, after, same, -⟩
        simp at same
      · refine iff_of_true boots.unrecorded.2 ?_
        intro before t rest same
        simp at same
    · have unfinished : ∀ t, (start.threads.phase t).standing ≠ .finished := by
        intro t
        obtain ⟨u, fresh | running⟩ := boots.phase t
        · rw [fresh]
          exact fun impossible => by cases impossible
        · rw [running]
          exact fun impossible => by cases impossible
      refine ⟨fun t left => ?_, fun t inside => ?_, ?_, fun t done => ?_, boots.fine⟩
      · simp [boots.nobody] at left
      · simp [boots.unrecorded.1] at inside
      · simp [boots.unrecorded.1]
      · exact absurd done (unfinished t)
    · intro trace s events s' before ⟨orderly, ledger, buried⟩ step
      have turn := step.turn orderly
      exact ⟨orderly.step step, ledger.turn turn, buried.turn orderly.toListed turn⟩
  exact kept.2

/-- In every run, a finished thread is deleted at most once and never while it is
the current thread. No `Finish` replaces a thread that was not deleted, so that
all finished threads but the last are deleted, if and only if a thread that had
run before was dispatched between any two calls of `Finish`. -/
theorem finished_threads_are_deleted_iff (boots : Boots start)
    (run : Runs (Step code) start trace s) :
    (s.deleted.Nodup ∧ s.failed = false ∧ s.forgotten = [] ∧
      ∀ t, s.threads.phase t = .finished → t ∈ s.deleted ∨ s.threadToBeDestroyed = some t) ↔
    Prompt start.currentThread trace := by
  obtain ⟨ledger, buried⟩ := boots.buried_run run
  rw [← ledger.kept]
  refine ⟨fun holds => holds.2.2.1, fun kept => ⟨buried.once, buried.fine, kept, fun t done => ?_⟩⟩
  obtain deleted | forgotten | left := buried.accounted t (by rw [done]; rfl)
  · exact .inl deleted
  · rw [kept] at forgotten
    cases forgotten
  · exact .inr left

end

/-! The main thread forks another and finishes. The other runs for the first time
and finishes too: the main thread is never deleted. -/

private theorem main_is_forgotten_run :
    ∃ s, Runs (Step launch) mainThread
        [.readies true, .finishes false, .dispatches true, .finishes true] s ∧
      s.forgotten = [false] ∧ s.deleted = [] ∧ s.threadToBeDestroyed = some true ∧
      s.threads.phase false = .finished := by
  have forked : Runs (Step launch) mainThread _ _ :=
    .next .start (.segment rfl rfl .forks (fun child same => ⟨(), by cases same; rfl⟩)
      fun same => by cases same)
  have finished := forked.next (.segment rfl rfl .finishes (fun _ same => by cases same)
    fun same => by cases same)
  have started := finished.next (.dispatch rfl rfl)
  have forgotten := started.next (.segment rfl rfl .finishes (fun _ same => by cases same)
    fun same => by cases same)
  exact ⟨_, forgotten, rfl, rfl, rfl, rfl⟩

theorem finished_thread_is_forgotten :
    ¬ ∀ trace s, Runs (Step launch) mainThread trace s →
      s.deleted.Nodup ∧ s.failed = false ∧ s.forgotten = [] ∧
      ∀ t, s.threads.phase t = .finished → t ∈ s.deleted ∨ s.threadToBeDestroyed = some t := by
  intro claim
  obtain ⟨s, run, forgotten, -, -, -⟩ := main_is_forgotten_run
  have kept := (claim _ s run).2.2.1
  rw [forgotten] at kept
  cases kept

/-- The main thread waits for the other to be dispatched, so that it is dispatched
again before it finishes. -/
theorem finished_threads_are_deleted_iff_returned :
    ∃ trace s, Runs (Step launch) mainThread trace s ∧ .deletes true ∈ trace ∧
      Prompt mainThread.currentThread trace := by
  have forked : Runs (Step launch) mainThread _ _ :=
    .next .start (.segment rfl rfl .forks (fun child same => ⟨(), by cases same; rfl⟩)
      fun same => by cases same)
  have yielded := forked.next (.yields rfl rfl .yields)
  have started := yielded.next (.dispatch rfl rfl)
  have finished := started.next (.segment rfl rfl .finishes (fun _ same => by cases same)
    fun same => by cases same)
  have returned := finished.next (.dispatch rfl rfl)
  have ended := returned.next (.segment rfl rfl .finishes (fun _ same => by cases same)
    fun same => by cases same)
  refine ⟨_, _, ended, by decide, (finished_threads_are_deleted_iff mainThread_boots ended).mp
    ⟨by decide, rfl, rfl, fun t done => ?_⟩⟩
  cases t with
  | false => exact .inr rfl
  | true => exact .inl (by decide)

end Nachos.Threads.Scheduler
