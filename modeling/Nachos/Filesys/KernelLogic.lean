import Nachos.Filesys.FileSystem

/-! Rules for what kernel code establishes, read over the sectors and the open
counters only. Uninitialised storage is quantified at every step: a
postcondition holds whatever bytes `new` or the clock deliver. -/
namespace Nachos
open Effects

/-- The contents of every sector. -/
abbrev Disk := Int → Sector

/-- The open counters `vis_num`. -/
abbrev Counters := Int → Int

/-- From these sectors and counters the program ends in `post`, or stops with
a fault `fault` allows, whatever uninitialised storage holds. -/
def Ensures {A : Type} (program : Kernel A) (post : A → Disk → Counters → Prop)
    (fault : Fault → Prop) (disk : Disk) (vis : Counters) : Prop :=
  ∀ supply, Program.wp Store.handle program (fun value after => post value after.disk after.visNum)
    (fun reason _ => fault reason) { disk := disk, visNum := vis, supply := supply }

section Rules

variable {A B : Type} {post : A → Disk → Counters → Prop} {fault : Fault → Prop}
  {disk : Disk} {vis : Counters}

theorem ensures_pure {value : A} (holds : post value disk vis) :
    Ensures (pure value) post fault disk vis := fun _ => holds

theorem ensures_stop {reason : Fault} (allowed : fault reason) :
    Ensures (Program.stop reason) post fault disk vis := fun _ => allowed

theorem ensures_stop_iff {reason : Fault} :
    Ensures (Program.stop reason : Kernel A) post fault disk vis ↔ fault reason :=
  ⟨fun holds => holds fun _ _ => 0, ensures_stop⟩

theorem ensures_bind {program : Kernel A} {next : A → Kernel B} {post : B → Disk → Counters → Prop}
    (holds : Ensures program (fun value disk vis => Ensures (next value) post fault disk vis)
      fault disk vis) : Ensures (program >>= next) post fault disk vis := by
  intro supply
  rw [Program.wp_bind]
  exact Program.wp_mono (holds supply) (fun _ after rest => rest after.supply) (fun _ _ same => same)

theorem ensures_mono {program : Kernel A} {post' : A → Disk → Counters → Prop}
    {fault' : Fault → Prop} (holds : Ensures program post' fault' disk vis)
    (weaker : ∀ value disk vis, post' value disk vis → post value disk vis)
    (milder : ∀ reason, fault' reason → fault reason) :
    Ensures program post fault disk vis := fun supply =>
  Program.wp_mono (holds supply) (fun value after => weaker value after.disk after.visNum)
    (fun reason _ => milder reason)

theorem ensures_post {program : Kernel A} {post' : A → Disk → Counters → Prop}
    (holds : Ensures program post' fault disk vis)
    (weaker : ∀ value disk vis, post' value disk vis → post value disk vis) :
    Ensures program post fault disk vis := ensures_mono holds weaker fun _ same => same

theorem ensures_loop {count : Nat} {body : Nat → A → Kernel A} {state : A}
    (inv : Nat → A → Disk → Counters → Prop) (start : inv 0 state disk vis)
    (keep : ∀ i value disk vis, i < count → inv i value disk vis →
      Ensures (body i value) (inv (i + 1)) fault disk vis) :
    Ensures (Program.loop count body state) (inv count) fault disk vis := by
  intro supply
  exact Program.wp_loop (fun i value (after : Store) => inv i value after.disk after.visNum) start
    (fun i value after bound holds => keep i value after.disk after.visNum bound holds after.supply)

theorem ensures_ReadSector {s : Int} {post : Sector → Disk → Counters → Prop}
    (inRange : ValidSector s) (holds : post (disk s) disk vis) :
    Ensures (ReadSector s) post fault disk vis := by
  intro supply
  refine Program.wp_ask.mpr ?_
  simpa only [Store.handle, if_pos inRange] using holds

theorem ensures_WriteSector {s : Int} {data : Sector} {post : Unit → Disk → Counters → Prop}
    (inRange : ValidSector s) (holds : post () (Function.update disk s data) vis) :
    Ensures (WriteSector s data) post fault disk vis := by
  intro supply
  refine Program.wp_ask.mpr ?_
  simpa only [Store.handle, if_pos inRange] using holds

theorem ensures_visNum {s : Int} {post : Int → Disk → Counters → Prop}
    (inRange : ValidSector s) (holds : post (vis s) disk vis) :
    Ensures (visNum s) post fault disk vis := by
  intro supply
  refine Program.wp_ask.mpr ?_
  simpa only [Store.handle, if_pos inRange] using holds

theorem ensures_setVisNum {s count : Int} {post : Unit → Disk → Counters → Prop}
    (inRange : ValidSector s) (holds : post () disk (Function.update vis s count)) :
    Ensures (setVisNum s count) post fault disk vis := by
  intro supply
  refine Program.wp_ask.mpr ?_
  simpa only [Store.handle, if_pos inRange] using holds

theorem ensures_uninitialized {post : Memory → Disk → Counters → Prop}
    (holds : ∀ storage, post storage disk vis) :
    Ensures uninitialized post fault disk vis := by
  intro supply
  refine Program.wp_ask.mpr ?_
  exact holds _

theorem ensures_ASSERT {condition : Bool} {post : Unit → Disk → Counters → Prop}
    (passes : condition = true) (holds : post () disk vis) :
    Ensures (ASSERT condition) post fault disk vis := by
  rw [ASSERT, if_pos passes]
  exact ensures_pure holds

theorem ensures_checked {result : Except Fault A} {value : A} (computed : result = .ok value)
    (holds : post value disk vis) : Ensures (checked result) post fault disk vis := by
  rw [computed, checked]
  exact ensures_pure holds

/-- A request the raw disk may refuse: the refusal is a failed `ASSERT`. -/
theorem ensures_ReadSector_or_assert {s : Int} {post : Sector → Disk → Counters → Prop}
    (allowed : fault .assertion) (holds : ValidSector s → post (disk s) disk vis) :
    Ensures (ReadSector s) post fault disk vis := by
  by_cases inRange : ValidSector s
  · exact ensures_ReadSector inRange (holds inRange)
  · intro supply
    refine Program.wp_ask.mpr ?_
    simpa only [Store.handle, if_neg inRange] using allowed

/-- Code that may stop in any way, with nothing to show for its result. -/
theorem ensures_any {program : Kernel A} (stops : ∀ reason, fault reason)
    (always : ∀ value disk vis, post value disk vis) : Ensures program post fault disk vis := by
  intro supply
  unfold Program.wp
  split
  · exact always _ _ _
  · exact stops _

theorem ensures_iff {program : Kernel A} : Ensures program post fault disk vis ↔ ∀ supply,
    Program.wp Store.handle program (fun value after => post value after.disk after.visNum)
      (fun reason _ => fault reason) { disk := disk, visNum := vis, supply := supply } := Iff.rfl

/-- What is true of all the storage there is to hand out stays true of what is left. -/
theorem run_supply (drawn : Memory → Prop) {program : Kernel A} {store after : Store} {value : A}
    (all : ∀ n, drawn (store.supply n))
    (ended : program.run Store.handle store = .done value after) : ∀ n, drawn (after.supply n) := by
  induction program generalizing store with
  | pure result =>
    cases ended
    exact all
  | stop fault => cases ended
  | request r next ih =>
    rw [Program.run] at ended
    cases answer : Store.handle r store with
    | stopped fault stopped =>
      rw [answer] at ended
      cases ended
    | done reply between =>
      rw [answer] at ended
      refine ih reply ?_ ended
      cases r with
      | uninitialized =>
        cases answer
        exact fun n => all (n + 1)
      | readSector s | writeSector s data | visNum s | setVisNum s count =>
        simp only [Store.handle] at answer
        split at answer
        · cases answer
          exact all
        · cases answer

/-- Two guarantees of code that may not stop hold of one and the same result. -/
theorem ensures_both {program : Kernel A} {post' : A → Disk → Counters → Prop}
    (returns : Ensures program post (fun _ => False) disk vis)
    (holds : Ensures program post' fault disk vis) :
    ∃ value disk' vis', post value disk' vis' ∧ post' value disk' vis' := by
  obtain ⟨value, after, ended, first⟩ := Program.wp_returns (returns fun _ _ => 0)
  have second := Program.wp_done (holds fun _ _ => 0) ended
  exact ⟨value, after.disk, after.visNum, first, second⟩

end Rules

-- `apply` would otherwise run the program while it counts arguments
attribute [irreducible] Ensures

end Nachos
