import Nachos.Threads.View

/-! Code that calls other code. A thread of the outer code stands at a point of the
inner code, or is for the inner code where a caller is, and keeps variables of its
own beside it. Whoever sees only the inner code's part of the points and of the
memory sees a step of the inner code, so what holds of that code whoever calls it
holds of the part. -/
namespace Nachos.Threads

variable {T S L C U U' W W' : Type}

namespace Stage

def map (point : U → U') : Stage S L C U → Stage S L C U'
  | .fresh next => .fresh (point next)
  | .at next => .at (point next)
  | .inP id next => .inP id (point next)
  | .inWait c l next => .inWait c l (point next)
  | .finished => .finished

/-- Where the thread goes on from. -/
def next : Stage S L C U → Option U
  | .fresh next | .at next | .inP _ next | .inWait _ _ next => some next
  | .finished => none

end Stage

def Phase.map (point : U → U') : Phase S L C U → Phase S L C U'
  | .fresh next => .fresh (point next)
  | .running next => .running (point next)
  | .queued id inWait next => .queued id inWait (point next)
  | .woken id inWait next => .woken id inWait (point next)
  | .waiting c l next => .waiting c l (point next)
  | .signalled c l next => .signalled c l (point next)
  | .finished => .finished

@[simp] theorem Phase.stage_map (point : U → U') (phase : Phase S L C U) :
    (phase.map point).stage = phase.stage.map point := by
  cases phase <;> rfl

/-- The inner code's part of a state. -/
def State.part (point : U → U') (memory : W → W') (k : State T S L C U W) : State T S L C U' W' where
  sem := k.sem
  owner := k.owner
  queue := k.queue
  phase t := (k.phase t).map point
  memory := memory k.memory

/-- The inner code's part of a view. -/
def View.part (point : U → U') (memory : W → W') (v : View T S L C U W) : View T S L C U' W' where
  stage t := (v.stage t).map point
  value := v.value
  memory := memory v.memory

/-- Every segment and every handler of `outer` is one of `inner` in its part, or a
segment that leaves the part as it is. -/
structure Code.Calls (outer : Code T S L C U W) (inner : Code T S L C U' W') (point : U → U')
    (memory : W → W') : Prop where
  segment {t : T} {u next : U} {w w' : W} {op : Op T S L C} (does : outer.segment t u w op w' next) :
    inner.segment t (point u) (memory w) op (memory w') (point next) ∨
      op = .tick ∧ point next = point u ∧ memory w' = memory w
  handler {w w' : W} {raised : Option S} (fires : outer.handler w raised w') :
    inner.handler (memory w) raised (memory w')

theorem State.view_part (point : U → U') (memory : W → W') (k : State T S L C U W) :
    (k.part point memory).view = k.view.part point memory := by
  simp only [State.view, State.part, View.part, Phase.stage_map]

/-- Where a thread goes on from after a segment. -/
def Op.resumes : Op T S L C → U → Option U
  | .finish, _ => none
  | _, next => some next

theorem Code.Calls.acts {outer : Code T S L C U W} {inner : Code T S L C U' W'} {point : U → U'}
    {memory : W → W'} (calls : outer.Calls inner point memory) {t : T} {u next : U} {w w' : W}
    {op : Op T S L C} (does : outer.segment t u w op w' next) (acts : op ≠ .tick) :
    inner.segment t (point u) (memory w) op (memory w') (point next) :=
  (calls.segment does).resolve_right fun still => acts still.1

section
variable [DecidableEq T] {point : U → U'} {memory : W → W'}

theorem View.part_setStage (v : View T S L C U W) (t : T) (stage : Stage S L C U) :
    (v.setStage t stage).part point memory = (v.part point memory).setStage t (stage.map point) := by
  simp only [View.part, View.setStage, View.mk.injEq, and_true]
  funext t'
  by_cases same : t' = t
  · simp [same]
  · simp [same]

theorem View.next_setStage (v : View T S L C U W) (t t' : T) (stage : Stage S L C U) :
    ((v.setStage t stage).stage t').next = if t' = t then stage.next else (v.stage t').next := by
  by_cases same : t' = t
  · subst same
    simp [View.setStage]
  · simp [View.setStage, same]

variable [DecidableEq S] [DecidableEq L]
variable {outer : Code T S L C U W} {inner : Code T S L C U' W'} {v v' : View T S L C U W}

/-- A step of the outer code is one of the inner code in its part. -/
theorem View.Step.part (calls : outer.Calls inner point memory) (step : View.Step outer v v') :
    View.Step inner (v.part point memory) (v'.part point memory) := by
  have stands : ∀ {t : T} {stage : Stage S L C U}, v.stage t = stage →
      (v.part point memory).stage t = stage.map point := fun at_ => congrArg (Stage.map point) at_
  cases step with
  | still => exact .still
  | goes at_ does quiet =>
    rename_i t u next op w
    rw [part_setStage]
    obtain does | ⟨-, stays, kept⟩ := calls.segment does
    · exact .goes (stands at_) does quiet
    · have same : ({ v with memory := w }.part point memory).setStage t (.at (point next)) =
          v.part point memory := by
        simp only [View.part, View.setStage, kept, stays]
        rw [Function.update_eq_self_iff.mpr (congrArg (Stage.map point) at_).symm]
      exact same ▸ .still
  | takes at_ does takes nonzero =>
    rw [part_setStage]
    exact .takes (stands at_) (calls.acts does (by rintro rfl; cases takes)) takes nonzero
  | sleeps at_ does takes zero =>
    rw [part_setStage]
    exact .sleeps (stands at_) (calls.acts does (by rintro rfl; cases takes)) takes zero
  | retakes at_ nonzero =>
    rw [part_setStage]
    exact .retakes (stands at_) nonzero
  | raises at_ does raises =>
    rw [part_setStage]
    exact .raises (stands at_) (calls.acts does (by rintro rfl; cases raises)) raises
  | waits at_ does =>
    rw [part_setStage]
    exact .waits (stands at_) (calls.acts does (by simp))
  | returns at_ nonzero =>
    rw [part_setStage]
    exact .returns (stands at_) nonzero
  | reacquires at_ zero =>
    rw [part_setStage]
    exact .reacquires (stands at_) zero
  | forks at_ does fresh =>
    rw [part_setStage, part_setStage]
    exact .forks (stands at_) (calls.acts does (by simp)) (stands fresh)
  | finishes at_ does =>
    rw [part_setStage]
    exact .finishes (stands at_) (calls.acts does (by simp))
  | interrupt fires => exact .interrupt (calls.handler fires)
  | interrupts fires => exact .interrupts (calls.handler fires)

/-- A step runs a segment of one thread, or runs a handler, or takes a thread
through a `P` or a `Wait` that it is in; no other thread moves on. -/
theorem View.Step.moves (step : View.Step outer v v') :
    (v'.memory = v.memory ∧ ∀ t, (v'.stage t).next = (v.stage t).next) ∨
    (∃ t u op w next, v.stage t = .at u ∧ outer.segment t u v.memory op w next ∧ v'.memory = w ∧
      ∀ t', (v'.stage t').next = if t' = t then op.resumes next else (v.stage t').next) ∨
    ∃ raised w, outer.handler v.memory raised w ∧ v'.memory = w ∧ v'.stage = v.stage := by
  have stays : ∀ {v₁ : View T S L C U W} {t : T} {stage : Stage S L C U}, v₁.stage = v.stage →
      stage.next = (v.stage t).next → ∀ t', ((v₁.setStage t stage).stage t').next = (v.stage t').next := by
    intro v₁ t stage same next t'
    rw [next_setStage, same]
    split
    · rename_i equal
      rw [equal, next]
    · rfl
  cases step with
  | still => exact .inl ⟨rfl, fun _ => rfl⟩
  | goes at_ does quiet =>
    rename_i t u next op w
    have resumes : op.resumes next = some next := by cases op <;> first | rfl | cases quiet
    refine .inr (.inl ⟨t, u, op, w, next, at_, does, rfl, fun t' => ?_⟩)
    rw [next_setStage, resumes]
    rfl
  | takes at_ does takes nonzero =>
    rename_i t u next op w id
    have resumes : op.resumes next = some next := by cases op <;> first | rfl | cases takes
    refine .inr (.inl ⟨t, u, op, w, next, at_, does, rfl, fun t' => ?_⟩)
    rw [next_setStage, resumes]
    rfl
  | sleeps at_ does takes zero =>
    rename_i t u next op w id
    have resumes : op.resumes next = some next := by cases op <;> first | rfl | cases takes
    refine .inr (.inl ⟨t, u, op, w, next, at_, does, rfl, fun t' => ?_⟩)
    rw [next_setStage, resumes]
    rfl
  | retakes at_ nonzero => exact .inl ⟨rfl, stays rfl (by rw [at_]; rfl)⟩
  | raises at_ does raises =>
    rename_i t u next op w id
    have resumes : op.resumes next = some next := by cases op <;> first | rfl | cases raises
    refine .inr (.inl ⟨t, u, op, w, next, at_, does, rfl, fun t' => ?_⟩)
    rw [next_setStage, resumes]
    rfl
  | waits at_ does =>
    refine .inr (.inl ⟨_, _, _, _, _, at_, does, rfl, fun t' => ?_⟩)
    rw [next_setStage]
    rfl
  | returns at_ nonzero => exact .inl ⟨rfl, stays rfl (by rw [at_]; rfl)⟩
  | reacquires at_ zero => exact .inl ⟨rfl, stays rfl (by rw [at_]; rfl)⟩
  | forks at_ does fresh =>
    rename_i t child u next entry w
    refine .inr (.inl ⟨t, u, _, w, next, at_, does, rfl, fun t' => ?_⟩)
    rw [next_setStage, next_setStage]
    split
    · rename_i equal
      have other : child ≠ t := by
        rintro rfl
        rw [at_] at fresh
        cases fresh
      rw [equal, if_neg other, fresh]
      rfl
    · rfl
  | finishes at_ does =>
    refine .inr (.inl ⟨_, _, _, _, _, at_, does, rfl, fun t' => ?_⟩)
    rw [next_setStage]
    rfl
  | interrupt fires => exact .inr (.inr ⟨_, _, fires, rfl, rfl⟩)
  | interrupts fires => exact .inr (.inr ⟨_, _, fires, rfl, rfl⟩)

end

end Nachos.Threads
