import Nachos.Effects.Program

/-! What a program may ask of its environment, whatever it is answered. Unlike
`wp` this speaks of the requests themselves, so it also tells a request that is
made from one that is not when both leave the same world behind. -/
namespace Effects.Program

variable {E : Signature} {F A B : Type} {allowed : E.Request → Prop} {stops : F → Prop}

/-- Every request the program makes is allowed, it stops only where `stops`
permits, and what it returns satisfies `post`. -/
def Issues (allowed : E.Request → Prop) (stops : F → Prop) (post : A → Prop) :
    Program E F A → Prop
  | .pure value => post value
  | .stop fault => stops fault
  | .request r next => allowed r ∧ ∀ reply, Issues allowed stops post (next reply)

theorem issues_bind {program : Program E F A} {next : A → Program E F B} {post : B → Prop} :
    Issues allowed stops post (program >>= next) ↔
      Issues allowed stops (fun value => Issues allowed stops post (next value)) program := by
  induction program with
  | pure value => exact Iff.rfl
  | stop fault => exact Iff.rfl
  | request r rest ih => exact and_congr_right fun _ => forall_congr' ih

theorem issues_mono {program : Program E F A} {post post' : A → Prop}
    (issues : Issues allowed stops post' program) (weaker : ∀ value, post' value → post value) :
    Issues allowed stops post program := by
  induction program with
  | pure value => exact weaker value issues
  | stop fault => exact issues
  | request r rest ih => exact ⟨issues.1, fun reply => ih reply (issues.2 reply)⟩

/-- A loop issues what its rounds issue. -/
theorem issues_loop {count : Nat} {body : Nat → A → Program E F A} {state : A}
    (round : ∀ i value, i < count → Issues allowed stops (fun _ => True) (body i value)) :
    Issues allowed stops (fun _ => True) (loop count body state) := by
  induction count with
  | zero => trivial
  | succ count ih =>
    refine issues_bind.mpr (issues_mono (ih fun i value bound => round i value (by omega)) ?_)
    intro value _
    exact round count value (by omega)

/-- Every program makes some requests. -/
theorem issues_any (program : Program E F A) :
    Issues (fun _ => True) (fun _ => True) (fun _ => True) program := by
  induction program with
  | pure value => trivial
  | stop fault => trivial
  | request r next ih => exact ⟨trivial, ih⟩

/-- What a program returns does not depend on how it begins. -/
theorem issues_after {program : Program E F A} {next : A → Program E F B} {post : B → Prop}
    (rest : ∀ value, Issues (fun _ => True) (fun _ => True) post (next value)) :
    Issues (fun _ => True) (fun _ => True) post (program >>= next) :=
  issues_bind.mpr (issues_mono (issues_any program) fun value _ => rest value)

/-- What a run returns satisfies `post`. -/
theorem Issues.returns {W : Type} {handler : Handler E F W} {program : Program E F A} {post : A → Prop}
    {w w' : W} {value : A} (issues : Issues allowed stops post program)
    (ran : program.run handler w = .done value w') : post value := by
  induction program generalizing w with
  | pure result =>
    cases ran
    exact issues
  | stop fault => cases ran
  | request r next ih =>
    unfold Program.run at ran
    cases answered : handler r w with
    | done reply after =>
      rw [answered] at ran
      exact ih reply (issues.2 reply) ran
    | stopped fault after =>
      rw [answered] at ran
      cases ran

end Effects.Program
