import Mathlib.Logic.Basic

/-! Programs that reach their environment only through requests, and what it
takes for such a program to establish a postcondition.

A program is a tree of requests. A handler gives each request its effect on a
world, so one program can be run against several worlds and compared once and
for all (`run_simulates`). The rules `wp_bind`, `wp_mono` and `wp_loop` are the
only facts about running that later proofs use. -/
namespace Effects

/-- The requests a program may issue and the type of each one's reply. -/
structure Signature where
  Request : Type
  Reply : Request → Type

/-- A computation that returns, stops with a fault, or issues a request and
continues with its reply. -/
inductive Program (E : Signature) (F A : Type) where
  | pure (value : A)
  | stop (fault : F)
  | request (r : E.Request) (next : E.Reply r → Program E F A)

namespace Program

variable {E : Signature} {F A B C W : Type}

def bind : Program E F A → (A → Program E F B) → Program E F B
  | .pure value, next => next value
  | .stop fault, _ => .stop fault
  | .request r rest, next => .request r fun reply => (rest reply).bind next

instance : Monad (Program E F) where
  pure := Program.pure
  bind := Program.bind

/-- Issue one request and return its reply. -/
def ask (r : E.Request) : Program E F (E.Reply r) := .request r .pure

/-- The C loop `for (i = 0; i < count; i++)` over a loop state. -/
def loop : (count : Nat) → (body : Nat → A → Program E F A) → A → Program E F A
  | 0, _, state => .pure state
  | count + 1, body, state => do
    let state ← loop count body state
    body count state

end Program

/-- How a run ends. The world is kept even when the run stops early. -/
inductive Outcome (F W A : Type) where
  | done (value : A) (world : W)
  | stopped (fault : F) (world : W)

/-- The effect of every request on a world. -/
abbrev Handler (E : Signature) (F W : Type) := (r : E.Request) → W → Outcome F W (E.Reply r)

namespace Program

variable {E : Signature} {F A B C W V : Type}

def run (handler : Handler E F W) : Program E F A → W → Outcome F W A
  | .pure value, world => .done value world
  | .stop fault, world => .stopped fault world
  | .request r next, world =>
    match handler r world with
    | .done reply world => (next reply).run handler world
    | .stopped fault world => .stopped fault world

/-- Every run from `world` ends in `post`, or stops in `fault`. -/
def wp (handler : Handler E F W) (program : Program E F A) (post : A → W → Prop)
    (fault : F → W → Prop) (world : W) : Prop :=
  match program.run handler world with
  | .done value after => post value after
  | .stopped reason after => fault reason after

section Rules

variable {handler : Handler E F W} {post : A → W → Prop} {fault : F → W → Prop} {world : W}

theorem request_bind {r : E.Request} {rest : E.Reply r → Program E F A}
    {next : A → Program E F B} :
    request r rest >>= next = request r fun reply => rest reply >>= next := rfl

theorem bind_assoc {program : Program E F A} {next : A → Program E F B} {last : B → Program E F C} :
    program >>= next >>= last = program >>= fun value => next value >>= last := by
  induction program with
  | pure value => rfl
  | stop reason => rfl
  | request r rest ih => exact congrArg (request r) (funext ih)

theorem run_bind (handler : Handler E F W) (program : Program E F A)
    (next : A → Program E F B) (world : W) :
    (program >>= next).run handler world =
      match program.run handler world with
      | .done value after => (next value).run handler after
      | .stopped reason after => .stopped reason after := by
  induction program generalizing world with
  | pure value => rfl
  | stop reason => rfl
  | request r rest ih =>
    rw [request_bind]
    simp only [run]
    cases handler r world with
    | done reply after => exact ih reply after
    | stopped reason after => rfl

@[simp]
theorem wp_pure {value : A} :
    (Pure.pure value : Program E F A).wp handler post fault world = post value world := rfl

@[simp]
theorem wp_stop {reason : F} :
    (Program.stop reason : Program E F A).wp handler post fault world = fault reason world := rfl

theorem wp_bind {program : Program E F A} {next : A → Program E F B} {post : B → W → Prop} :
    (program >>= next).wp handler post fault world ↔
      program.wp handler (fun value after => (next value).wp handler post fault after)
        fault world := by
  simp only [wp, run_bind]
  cases program.run handler world <;> rfl

theorem wp_ask {r : E.Request} {post : E.Reply r → W → Prop} :
    (ask r : Program E F (E.Reply r)).wp handler post fault world ↔
      match handler r world with
      | .done reply after => post reply after
      | .stopped reason after => fault reason after := by
  simp only [wp, ask, run]
  cases handler r world <;> rfl

theorem wp_mono {program : Program E F A} {post' : A → W → Prop} {fault' : F → W → Prop}
    (holds : program.wp handler post' fault' world)
    (weaker : ∀ value after, post' value after → post value after)
    (milder : ∀ reason after, fault' reason after → fault reason after) :
    program.wp handler post fault world := by
  simp only [wp] at holds ⊢
  cases ended : program.run handler world with
  | done value after => rw [ended] at holds; exact weaker value after holds
  | stopped reason after => rw [ended] at holds; exact milder reason after holds

/-- A run known to have returned satisfies its postcondition. -/
theorem wp_done {program : Program E F A} {value : A} {after : W}
    (holds : program.wp handler post fault world)
    (ended : program.run handler world = .done value after) : post value after := by
  simpa only [wp, ended] using holds

theorem wp_of_done {program : Program E F A} {value : A} {after : W}
    (ended : program.run handler world = .done value after) (holds : post value after) :
    program.wp handler post fault world := by
  simpa only [wp, ended] using holds

/-- A program that may not stop returns. -/
theorem wp_returns {program : Program E F A}
    (holds : program.wp handler post (fun _ _ => False) world) :
    ∃ value after, program.run handler world = .done value after ∧ post value after := by
  simp only [wp] at holds
  cases ended : program.run handler world with
  | done value after => rw [ended] at holds; exact ⟨value, after, rfl, holds⟩
  | stopped reason after => rw [ended] at holds; exact holds.elim

/-- The invariant rule: what holds before the first iteration and is kept by
each one holds after the last. -/
theorem wp_loop {count : Nat} {body : Nat → A → Program E F A} {state : A}
    (inv : Nat → A → W → Prop) (start : inv 0 state world)
    (keep : ∀ i value after, i < count → inv i value after →
      (body i value).wp handler (inv (i + 1)) fault after) :
    (loop count body state).wp handler (inv count) fault world := by
  induction count with
  | zero => exact start
  | succ count ih =>
    rw [loop, wp_bind]
    refine wp_mono (ih fun i value after bound holds => keep i value after (by omega) holds) ?_
      (fun _ _ reached => reached)
    intro value after holds
    exact keep count value after (by omega) holds

end Rules

/-- Two handlers that answer every request alike while keeping a relation
between their worlds. -/
def Simulates (rel : W → V → Prop) (concrete : Handler E F W) (abstract : Handler E F V) : Prop :=
  ∀ r world model, rel world model →
    match concrete r world, abstract r model with
    | .done reply after, .done reply' after' => reply = reply' ∧ rel after after'
    | .stopped reason after, .stopped reason' after' => reason = reason' ∧ rel after after'
    | _, _ => False

/-- A program cannot tell two such handlers apart. -/
theorem run_simulates {rel : W → V → Prop} {concrete : Handler E F W} {abstract : Handler E F V}
    (simulates : Simulates rel concrete abstract) (program : Program E F A)
    {world : W} {model : V} (related : rel world model) :
    match program.run concrete world, program.run abstract model with
    | .done value after, .done value' after' => value = value' ∧ rel after after'
    | .stopped reason after, .stopped reason' after' => reason = reason' ∧ rel after after'
    | _, _ => False := by
  induction program generalizing world model with
  | pure value => exact ⟨rfl, related⟩
  | stop reason => exact ⟨rfl, related⟩
  | request r next ih =>
    have step := simulates r world model related
    simp only [run]
    cases answer : concrete r world with
    | done reply after =>
      cases expected : abstract r model with
      | done reply' after' =>
        rw [answer, expected] at step
        obtain ⟨rfl, related⟩ := step
        exact ih reply related
      | stopped reason' after' => rw [answer, expected] at step; exact step.elim
    | stopped reason after =>
      cases expected : abstract r model with
      | done reply' after' => rw [answer, expected] at step; exact step.elim
      | stopped reason' after' => rw [answer, expected] at step; exact step

end Program
end Effects
