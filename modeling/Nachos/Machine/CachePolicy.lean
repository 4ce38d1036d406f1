import Nachos.Machine.SynchDisk

/-! Which line a read miss overwrites. The search in `ReadSector` is for a line that is
valid, not for one that is not, so the line of the last miss is overwritten by the next
one, and of the four lines one is in use. -/
namespace Nachos
open Effects

/-- A call of `ReadSector` or `WriteSector`. A read looks at the clock. -/
inductive CacheCall where
  | read (sectorNumber totalTicks : Int)
  | write (sectorNumber : Int) (data : Sector)

def CacheCall.sector : CacheCall → Int
  | .read sectorNumber _ | .write sectorNumber _ => sectorNumber

/-- The disk and its cache. The last field only records which line was accessed when. -/
structure CacheRun where
  disk : Int → Sector
  lines : Lines
  accesses : List (Fin cacheSize × Int)

/-- The line that `ReadSector` works on. -/
def Lines.used (lines : Lines) (sectorNumber : Int) : Fin cacheSize :=
  (lines.findPos sectorNumber).getD lines.swap

namespace CacheRun

/-- One call; `none` if the disk does not accept the sector. -/
def perform (run : CacheRun) : CacheCall → Option CacheRun
  | .read sectorNumber totalTicks =>
    (cachedRead run.disk run.lines sectorNumber totalTicks).map fun (_, lines) =>
      { run with
        lines := lines, accesses := run.accesses ++ [(run.lines.used sectorNumber, totalTicks)] }
  | .write sectorNumber data =>
    if ValidSector sectorNumber then
      some { run with
        disk := Function.update run.disk sectorNumber data, lines := run.lines.invalidate sectorNumber }
    else none

/-- When a line was last accessed. -/
def lastAccess (run : CacheRun) (i : Fin cacheSize) : Option Int :=
  (run.accesses.findRev? fun access => access.1 == i).map Prod.snd

/-- The line that a miss overwrites is not valid if some line is not, and otherwise the one
with the oldest access. -/
structure GoodVictim (run : CacheRun) : Prop where
  free : (∃ i, (run.lines i).valid = false) → (run.lines run.lines.swap).valid = false
  oldest : (∀ i, (run.lines i).valid = true) → ∀ i, i ≠ run.lines.swap →
    ∃ first later, run.lastAccess run.lines.swap = some first ∧ run.lastAccess i = some later ∧ first < later

/-- At each read miss of these calls the right line is overwritten. -/
def KeepsPolicy (run : CacheRun) : List CacheCall → Prop
  | [] => True
  | call :: rest =>
    (∀ sectorNumber totalTicks, call = .read sectorNumber totalTicks →
      run.lines.findPos sectorNumber = none → run.GoodVictim) ∧
    ∀ run', run.perform call = some run' → run'.KeepsPolicy rest

end CacheRun

/-! ## The one line in use -/

/-- What the last read brought in, unless it was written since. -/
def CacheCall.remembered : Option Int → CacheCall → Option Int
  | _, .read sectorNumber _ => some sectorNumber
  | last, .write sectorNumber _ => if last = some sectorNumber then none else last

/-- Every read is of the sector that the last read brought in, unless that was written. -/
def ReadsAgain (last : Option Int) : List CacheCall → Prop
  | [] => True
  | call :: rest =>
    (∀ sectorNumber totalTicks, call = .read sectorNumber totalTicks → last = none ∨ last = some sectorNumber) ∧
    ReadsAgain (call.remembered last) rest

/-- At most one line is valid, the one with this sector. -/
def Lines.Single (lines : Lines) : Option Int → Prop
  | none => ∀ i, (lines i).valid = false
  | some last => ∃ i, (lines i).valid = true ∧ (lines i).sector = last ∧ ∀ j, j ≠ i → (lines j).valid = false

namespace Lines

variable {lines : Lines} {last : Option Int} {s : Int}

theorem Single.findPos_same (single : lines.Single (some s)) : ∃ i, lines.findPos s = some i ∧
    (lines i).valid = true ∧ ∀ j, j ≠ i → (lines j).valid = false := by
  obtain ⟨i, valid, sector, others⟩ := single
  cases found : lines.findPos s with
  | none => exact absurd sector (findPos_none found i valid)
  | some j =>
    by_cases same : j = i
    · subst same
      exact ⟨j, rfl, valid, others⟩
    · have stale := others j same
      rw [(findPos_some found).1] at stale
      cases stale

theorem Single.findPos_other (single : lines.Single last) (other : last ≠ some s) : lines.findPos s = none := by
  cases found : lines.findPos s with
  | none => rfl
  | some i =>
    obtain ⟨valid, sector⟩ := findPos_some found
    cases last with
    | none =>
      rw [single i] at valid
      cases valid
    | some t =>
      obtain ⟨j, -, here, others⟩ := single
      by_cases same : i = j
      · subst same
        exact absurd (congrArg some (here.symm.trans sector)) other
      · rw [others i same] at valid
        cases valid

/-- A miss overwrites the line that is valid, if there is one. -/
theorem Single.swap_valid {t : Int} (single : lines.Single (some t)) : (lines lines.swap).valid = true ∧
    ∀ j, j ≠ lines.swap → (lines j).valid = false := by
  obtain ⟨i, valid, -, others⟩ := single
  unfold swap
  cases found : (List.finRange cacheSize).find? fun i => (lines i).valid with
  | none =>
    have stale := List.find?_eq_none.mp found i (List.mem_finRange i)
    exact absurd valid stale
  | some j =>
    have here : (lines j).valid = true := by simpa using List.find?_some found
    have same : j = i := by
      by_contra different
      rw [others j different] at here
      cases here
    exact ⟨here, fun k different => others k fun alike => different (alike.trans same.symm)⟩

theorem Single.touch (single : lines.Single (some s)) {i : Fin cacheSize} (found : lines.findPos s = some i)
    (totalTicks : Int) : (lines.touch i totalTicks).Single (some s) := by
  obtain ⟨j, found', valid, others⟩ := single.findPos_same
  obtain rfl : i = j := Option.some.inj (found.symm.trans found')
  refine ⟨i, ?_, ?_, fun k different => ?_⟩
  · simpa [Lines.touch] using valid
  · simpa [Lines.touch] using (findPos_some found).2
  · simpa [Lines.touch, Function.update_of_ne different] using others k different

theorem Single.fill (single : lines.Single last) (totalTicks : Int) (data : Sector) :
    (lines.fill s totalTicks data).Single (some s) := by
  have others : ∀ j, j ≠ lines.swap → (lines j).valid = false := by
    cases last with
    | none => exact fun j _ => single j
    | some t => exact single.swap_valid.2
  refine ⟨lines.swap, ?_, ?_, fun j different => ?_⟩
  · simp [Lines.fill]
  · simp [Lines.fill]
  · simpa [Lines.fill, Function.update_of_ne different] using others j different

theorem Single.invalidate (single : lines.Single last) (s : Int) :
    (lines.invalidate s).Single (if last = some s then none else last) := by
  cases last with
  | none =>
    intro i
    have stale : (lines i).valid = false := single i
    unfold Lines.invalidate
    split
    · rfl
    · exact stale
  | some t =>
    obtain ⟨i, valid, sector, others⟩ := single
    have stale : ∀ j, j ≠ i → (lines.invalidate s j).valid = false := by
      intro j different
      unfold Lines.invalidate
      split
      · rfl
      · exact others j different
    by_cases written : t = s
    · subst written
      rw [if_pos rfl]
      intro j
      by_cases same : j = i
      · subst same
        simp [Lines.invalidate, sector]
      · exact stale j same
    · rw [if_neg fun same => written (Option.some.inj same)]
      have kept : lines.invalidate s i = lines i := if_neg fun same => written (sector.symm.trans same)
      exact ⟨i, by rw [kept]; exact valid, by rw [kept]; exact sector, stale⟩

end Lines

namespace CacheRun

variable {start run run' : CacheRun} {call : CacheCall} {last : Option Int}

/-- One call keeps the one line. -/
theorem single_perform (single : run.lines.Single last) (done : run.perform call = some run') :
    run'.lines.Single (call.remembered last) := by
  cases call with
  | read s totalTicks =>
    simp only [perform, cachedRead] at done
    cases found : run.lines.findPos s with
    | some i =>
      simp only [found, Option.map_some, Option.some.injEq] at done
      subst done
      by_cases same : last = some s
      · subst same
        exact single.touch found totalTicks
      · rw [single.findPos_other same] at found
        cases found
    | none =>
      simp only [found] at done
      split at done
      · simp only [Option.map_some, Option.some.injEq] at done
        subst done
        exact single.fill totalTicks _
      · cases done
  | write s data =>
    simp only [perform] at done
    split at done
    · obtain rfl := Option.some.inj done
      exact single.invalidate s
    · cases done

/-- The disk accepts the sectors it has. -/
theorem exists_perform (run : CacheRun) (valid : ValidSector call.sector) :
    ∃ run', run.perform call = some run' := by
  cases call with
  | read s totalTicks =>
    have valid : ValidSector s := valid
    simp only [perform, cachedRead]
    cases run.lines.findPos s with
    | some i => exact ⟨_, rfl⟩
    | none =>
      rw [if_pos valid]
      exact ⟨_, rfl⟩
  | write s data => exact ⟨_, if_pos valid⟩

/-- A miss is handled right exactly if no line is valid. -/
theorem goodVictim_iff (single : run.lines.Single last) : run.GoodVictim ↔ last = none := by
  constructor
  · intro good
    cases last with
    | none => rfl
    | some t =>
      obtain ⟨valid, others⟩ := single.swap_valid
      obtain ⟨i, different⟩ := (by decide : ∀ x : Fin 4, ∃ i, i ≠ x) run.lines.swap
      have stale := good.free ⟨i, others i different⟩
      rw [valid] at stale
      cases stale
  · rintro rfl
    refine ⟨fun _ => single _, fun full => ?_⟩
    have stale : (run.lines 0).valid = false := single 0
    rw [full 0] at stale
    cases stale

end CacheRun

theorem CacheRun.keepsPolicy_iff {run : CacheRun} {last : Option Int} (single : run.lines.Single last)
    {calls : List CacheCall} (valid : ∀ call ∈ calls, ValidSector call.sector) :
    run.KeepsPolicy calls ↔ ReadsAgain last calls := by
  induction calls generalizing run last with
  | nil => exact Iff.rfl
  | cons call rest ih =>
    obtain ⟨run', done⟩ := run.exists_perform (valid call List.mem_cons_self)
    have others := ih (single_perform single done) fun call inside => valid call (List.mem_cons_of_mem _ inside)
    constructor
    · rintro ⟨first, later⟩
      refine ⟨fun s totalTicks read => ?_, others.mp (later run' done)⟩
      by_cases same : last = some s
      · exact .inr same
      · exact .inl ((goodVictim_iff single).mp (first s totalTicks read (single.findPos_other same)))
    · rintro ⟨first, later⟩
      refine ⟨fun s totalTicks read missed => ?_, fun run'' done' => ?_⟩
      · rcases first s totalTicks read with none | same
        · exact (goodVictim_iff single).mpr none
        · subst same
          obtain ⟨i, found, -⟩ := single.findPos_same
          rw [missed] at found
          cases found
      · obtain rfl := Option.some.inj (done.symm.trans done')
        exact others.mpr later

/-- The cache replaces the right line as long as every read that follows another one is of
the same sector, or the sector that one brought in has been written. -/
theorem cache_policy_iff {start : CacheRun} (empty : ∀ i, (start.lines i).valid = false)
    {calls : List CacheCall} (valid : ∀ call ∈ calls, ValidSector call.sector) :
    start.KeepsPolicy calls ↔ ReadsAgain none calls := by
  have single : start.lines.Single none := empty
  exact CacheRun.keepsPolicy_iff single valid

/-- A cache in which nothing has been read. -/
def emptyCache : CacheRun where
  disk := fun _ _ => 0
  lines := fun _ => { valid := false, dirty := false, sector := 0, cnt := 0, data := fun _ => 0 }
  accesses := []

/-- Another sector is read after the first one was written. -/
theorem cache_policy_after_write :
    emptyCache.KeepsPolicy [.read 0 1, .write 0 (fun _ => 0), .read 1 2] := by
  refine (cache_policy_iff (fun _ => rfl) (by decide)).mpr ?_
  simp [ReadsAgain, CacheCall.remembered]

/-- Of two sectors that are read, the second takes the line of the first. -/
theorem cache_policy_two_reads : ¬ emptyCache.KeepsPolicy [.read 0 1, .read 1 2] := by
  have single : emptyCache.lines.Single none := fun _ => rfl
  rw [CacheRun.keepsPolicy_iff single (by decide)]
  simp [ReadsAgain, CacheCall.remembered]

end Nachos
