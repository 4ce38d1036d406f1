import Nachos.Effects.Program

/-! Programs that run beside others. Between two requests of a program the rest
of the system may change the world, within what the program relies on; each of
its own requests changes the world within what it guarantees. -/
namespace Effects.Program

variable {E : Signature} {F A B W : Type}

/-- One request of a program is answered. -/
inductive Advances (handler : Handler E F W) : Program E F A → W → Program E F A → W → Prop where
  | request {r : E.Request} {next : E.Reply r → Program E F A} {reply : E.Reply r} {world after : W}
      (answered : handler r world = .done reply after) :
      Advances handler (.request r next) world (next reply) after

/-- The program runs from `world` to a value with `post`, and does not stop on the
way, whatever the others do within `rely` after each request. -/
def under (handler : Handler E F W) (rely guarantee : W → W → Prop) (post : A → W → Prop) :
    Program E F A → W → Prop
  | .pure value, world => post value world
  | .stop _, _ => False
  | .request r next, world => ∃ reply after, handler r world = .done reply after ∧
      guarantee world after ∧
      ∀ later, rely after later → (next reply).under handler rely guarantee post later

section
variable {handler : Handler E F W} {rely guarantee : W → W → Prop} {post : A → W → Prop} {world : W}

theorem under_bind {program : Program E F A} {next : A → Program E F B} {post : B → W → Prop}
    (holds : program.under handler rely guarantee
      (fun value after => (next value).under handler rely guarantee post after) world) :
    (program >>= next).under handler rely guarantee post world := by
  induction program generalizing world with
  | pure value => exact holds
  | stop reason => exact holds
  | request r rest ih =>
    obtain ⟨reply, after, answered, kept, goes⟩ := holds
    exact ⟨reply, after, answered, kept, fun later moved => ih reply (goes later moved)⟩

theorem under_mono {program : Program E F A} {post' : A → W → Prop}
    (holds : program.under handler rely guarantee post' world)
    (weaker : ∀ value after, post' value after → post value after) :
    program.under handler rely guarantee post world := by
  induction program generalizing world with
  | pure value => exact weaker value world holds
  | stop reason => exact holds
  | request r rest ih =>
    obtain ⟨reply, after, answered, kept, goes⟩ := holds
    exact ⟨reply, after, answered, kept, fun later moved => ih reply (goes later moved)⟩

theorem under_loop {count : Nat} {body : Nat → A → Program E F A} {state : A}
    (inv : Nat → A → W → Prop) (start : inv 0 state world)
    (keep : ∀ i value after, i < count → inv i value after →
      (body i value).under handler rely guarantee (inv (i + 1)) after) :
    (loop count body state).under handler rely guarantee (inv count) world := by
  induction count with
  | zero => exact start
  | succ count ih =>
    refine under_bind (under_mono (ih fun i value after bound holds => keep i value after (by omega) holds) ?_)
    intro value after holds
    exact keep count value after (by omega) holds

/-- What a program guarantees, it does with each request, and it goes on. -/
theorem Advances.under {program program' : Program E F A} {after : W}
    (advances : Advances handler program world program' after)
    (holds : program.under handler rely guarantee post world) :
    guarantee world after ∧
      ∀ later, rely after later → program'.under handler rely guarantee post later := by
  cases advances with
  | request answered =>
    obtain ⟨reply, after, answered', kept, goes⟩ := holds
    rw [answered] at answered'
    cases answered'
    exact ⟨kept, goes⟩

/-- The first part of a program is answered within the whole. -/
theorem Advances.bind {program program' : Program E F A} {next : A → Program E F B} {after : W}
    (advances : Advances handler program world program' after) :
    Advances handler (program >>= next) world (program' >>= next) after := by
  cases advances with
  | request answered => exact .request answered

/-- A program that nobody disturbs comes to its end. -/
theorem under_returns {program : Program E F A} (calm : ∀ world, rely world world)
    {P : Program E F A → W → Prop} (reached : P program world)
    (goes : ∀ {p w p' w'}, P p w → Advances handler p w p' w' → P p' w')
    (holds : program.under handler rely guarantee post world) :
    ∃ value after, P (.pure value) after ∧ post value after := by
  induction program generalizing world with
  | pure value => exact ⟨value, world, reached, holds⟩
  | stop reason => exact holds.elim
  | request r rest ih =>
    obtain ⟨reply, after, answered, -, rest⟩ := holds
    exact ih reply (goes reached (.request answered)) (rest after (calm after))

end

/-! ## Replies that do not change

Where the replies that matter are the same whenever they are given, what the
others do in between need not be followed. -/

/-- Every request of the program is allowed, and if it is answered as `answers`
says, what it returns satisfies `post`. -/
def Heeds (allowed : E.Request → Prop) (answers : (r : E.Request) → E.Reply r → Prop)
    (post : A → Prop) : Program E F A → Prop
  | .pure value => post value
  | .stop _ => True
  | .request r next => allowed r ∧ ∀ reply, answers r reply → (next reply).Heeds allowed answers post

section
variable {allowed : E.Request → Prop} {answers : (r : E.Request) → E.Reply r → Prop}

theorem heeds_bind {program : Program E F A} {next : A → Program E F B} {post : B → Prop}
    (heeds : program.Heeds allowed answers fun value => (next value).Heeds allowed answers post) :
    (program >>= next).Heeds allowed answers post := by
  induction program with
  | pure value => exact heeds
  | stop fault => trivial
  | request r rest ih => exact ⟨heeds.1, fun reply given => ih reply (heeds.2 reply given)⟩

theorem heeds_mono {program : Program E F A} {post post' : A → Prop}
    (heeds : program.Heeds allowed answers post') (weaker : ∀ value, post' value → post value) :
    program.Heeds allowed answers post := by
  induction program with
  | pure value => exact weaker value heeds
  | stop fault => trivial
  | request r rest ih => exact ⟨heeds.1, fun reply given => ih reply (heeds.2 reply given)⟩

theorem heeds_loop {count : Nat} {body : Nat → A → Program E F A} {state : A} (inv : Nat → A → Prop)
    (start : inv 0 state)
    (round : ∀ i value, i < count → inv i value → (body i value).Heeds allowed answers (inv (i + 1))) :
    (loop count body state).Heeds allowed answers (inv count) := by
  induction count with
  | zero => exact start
  | succ count ih =>
    refine heeds_bind (heeds_mono (ih fun i value bound holds => round i value (by omega) holds) ?_)
    intro value holds
    exact round count value (by omega) holds

/-- A world that answers so leads such a program on, through an allowed request. -/
theorem Advances.heeds {handler : Handler E F W} {program program' : Program E F A} {post : A → Prop}
    {world after : W} (advances : Advances handler program world program' after)
    (heeds : program.Heeds allowed answers post)
    (given : ∀ r reply, handler r world = .done reply after → answers r reply) :
    program'.Heeds allowed answers post ∧ ∃ r reply, allowed r ∧ handler r world = .done reply after := by
  cases advances with
  | request answered => exact ⟨heeds.2 _ (given _ _ answered), _, _, heeds.1, answered⟩

end
end Effects.Program
