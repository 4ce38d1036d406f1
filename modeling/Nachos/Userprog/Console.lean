import Nachos.Threads.SynchProofs

/-! The console (`machine/console.cc`) and the program that tests it, `ConsoleTest`
(`userprog/progtest.cc`): every character typed is to be echoed, up to a `q`.

`GetChar` signals `readAvail` itself, so that the next turn of the loop does not wait
for a character. The echo is right as long as a character has arrived whenever
`GetChar` looks for one. -/
namespace Nachos.Console
open Effects Threads

/-- An empty buffer, as a `char`. -/
def EOF : UInt8 := 255

/-- The character that ends the test. -/
def q : UInt8 := 113

inductive Signal where
  | readAvail | writeDone
deriving DecidableEq

/-- The console, and the characters typed that it has not read. The last field only
records the run: how often `GetChar` looked into the buffer. -/
structure Memory where
  incoming : UInt8
  keyboard : List UInt8
  putBusy : Bool
  /-- Interrupts that are scheduled for the end of a write. -/
  writing : Nat
  display : List UInt8
  /-- `ASSERT(putBusy == FALSE)` failed. -/
  failed : Bool
  gets : Nat

inductive Point where
  /-- The loop begins. -/
  | loop
  /-- Has come through `readAvail->P()`. -/
  | available
  /-- Has the lock in `GetChar`. -/
  | getting
  | gotten (ch : UInt8)
  /-- Is about to call `PutChar`. -/
  | echoing (ch : UInt8)
  /-- Has the lock in `PutChar`. -/
  | putting (ch : UInt8)
  | put (ch : UInt8)
  /-- Is about to call `writeDone->P()`. -/
  | waiting (ch : UInt8)
  | testing (ch : UInt8)
deriving DecidableEq

namespace Memory

/-- The body of `GetChar`, without its signal. -/
def GetChar (m : Memory) : Memory := { m with incoming := EOF, gets := m.gets + 1 }

/-- The body of `PutChar`, with `WriteDone` up to its signal. -/
def PutChar (m : Memory) (ch : UInt8) : Memory :=
  { m with
    failed := m.failed || m.putBusy
    display := m.display ++ [ch]
    putBusy := false
    writing := m.writing + 1 }

end Memory

/-- The code of `ConsoleTest`. -/
inductive Segment : Point → Memory → Op Unit Signal Unit Empty → Memory → Point → Prop where
  | arrives {m} : Segment .loop m (.p .readAvail) m .available
  | gets {m} : Segment .available m (.acquire ()) m .getting
  | takes {m} : Segment .getting m (.v .readAvail) m.GetChar (.gotten m.incoming)
  | gotten {m ch} : Segment (.gotten ch) m (.release ()) m (.echoing ch)
  | puts {m ch} : Segment (.echoing ch) m (.acquire ()) m (.putting ch)
  | shows {m ch} : Segment (.putting ch) m (.v .writeDone) (m.PutChar ch) (.put ch)
  | put {m ch} : Segment (.put ch) m (.release ()) m (.waiting ch)
  | waits {m ch} : Segment (.waiting ch) m (.p .writeDone) m (.testing ch)
  | quits {m} : Segment (.testing q) m .finish m .loop
  | again {m ch} (other : ch ≠ q) : Segment (.testing ch) m (.p .readAvail) m .available

/-- The interrupts: `CheckCharAvail` finds a character and room for it, or not, and
`WriteDone` when a write is over. -/
inductive Handler : Memory → Option Signal → Memory → Prop where
  | arrives {m c rest} (room : m.incoming = EOF) (typed : m.keyboard = c :: rest) :
      Handler m (some .readAvail) { m with incoming := c, keyboard := rest }
  | polls {m} : Handler m none m
  | written {m n} (writes : m.writing = n + 1) :
      Handler m (some .writeDone) { m with writing := n, putBusy := false }

def code : Code Unit Signal Unit Empty Point Memory where
  segment _ := Segment
  handler := Handler

abbrev State := Threads.State Unit Signal Unit Empty Point Memory
abbrev Phase := Threads.Phase Signal Unit Empty Point

/-- If `GetChar` looks into the buffer, there is a character. -/
def Timely (k k' : State) : Prop := k.memory.gets ≠ k'.memory.gets → k.memory.incoming ≠ EOF

/-- One step in which `GetChar` does not come too early. -/
def TimelyStep (k : State) (events : List (Event Unit Signal Unit Empty)) (k' : State) : Prop :=
  Step code k events k' ∧ Timely k k'

/-- The input up to and including the first `q`. -/
def upToQ (input : List UInt8) : List UInt8 := input.takeWhile (fun c => c ≠ q) ++ [q]

/-! ## Where the program stands -/

/-- The character in the buffer. -/
def Memory.buffered (m : Memory) : List UInt8 := if m.incoming = EOF then [] else [m.incoming]

/-- The signals for characters that are in the buffer or were taken from it. -/
def Memory.signals (m : Memory) : Int := m.gets + m.buffered.length

/-- The characters of the input are on the display, in the hands of the program, in the
buffer, or not read yet. -/
def Memory.Splits (m : Memory) (input held : List UInt8) : Prop :=
  m.display ++ held ++ m.buffered ++ m.keyboard = input

/-- The character is the last one shown. -/
def Memory.Shown (m : Memory) (ch : UInt8) : Prop := ∃ before, m.display = before ++ [ch] ∧ q ∉ before

/-- The values of the semaphores and the characters at each point. -/
def Stands (input : List UInt8) (m : Memory) (read write lock : Int) : Phase → Prop
  | .running .loop => read = m.signals ∧ lock = 1 ∧ q ∉ m.display ∧ m.Splits input []
  | .woken (.plain .readAvail) none .available =>
    1 ≤ read ∧ read = m.signals ∧ lock = 1 ∧ q ∉ m.display ∧ m.Splits input []
  | .queued (.plain .readAvail) none .available =>
    read = 0 ∧ m.signals = 0 ∧ lock = 1 ∧ q ∉ m.display ∧ m.Splits input []
  | .running .available => read + 1 = m.signals ∧ lock = 1 ∧ q ∉ m.display ∧ m.Splits input []
  | .running .getting => read + 1 = m.signals ∧ lock = 0 ∧ q ∉ m.display ∧ m.Splits input []
  | .running (.gotten ch) | .running (.putting ch) =>
    read = m.signals ∧ lock = 0 ∧ q ∉ m.display ∧ m.Splits input [ch]
  | .running (.echoing ch) => read = m.signals ∧ lock = 1 ∧ q ∉ m.display ∧ m.Splits input [ch]
  | .running (.put ch) => read = m.signals ∧ lock = 0 ∧ 1 ≤ write ∧ m.Shown ch ∧ m.Splits input []
  | .running (.waiting ch) => read = m.signals ∧ lock = 1 ∧ 1 ≤ write ∧ m.Shown ch ∧ m.Splits input []
  | .running (.testing ch) => read = m.signals ∧ lock = 1 ∧ m.Shown ch ∧ m.Splits input []
  | .finished => m.Shown q ∧ m.Splits input []
  | _ => False

/-- What every state of a run has. -/
structure Kept (input : List UInt8) (k : State) : Prop where
  stands : Stands input k.memory (k.sem (.plain .readAvail)).value (k.sem (.plain .writeDone)).value
    (k.sem (.ofLock ())).value (k.phase ())
  free : k.memory.putBusy = false
  fine : k.memory.failed = false
  typed : ∀ c ∈ k.memory.keyboard, c ≠ EOF
  nonneg : 0 ≤ (k.sem (.plain .writeDone)).value

/-! ## The characters -/

section
variable {m : Memory} {input : List UInt8}

/-- The character goes from the buffer to the program. -/
theorem splits_GetChar (full : m.incoming ≠ EOF) (splits : m.Splits input []) :
    m.GetChar.Splits input [m.incoming] ∧ m.GetChar.signals = m.signals := by
  have before : m.buffered = [m.incoming] := if_neg full
  have after : m.GetChar.buffered = [] := if_pos rfl
  unfold Memory.Splits Memory.signals at *
  rw [before] at splits ⊢
  rw [after]
  refine ⟨by simpa [Memory.GetChar] using splits, ?_⟩
  simp [Memory.GetChar]

/-- It goes to the display. -/
theorem splits_PutChar {ch : UInt8} (splits : m.Splits input [ch]) : (m.PutChar ch).Splits input [] := by
  have same : (m.PutChar ch).buffered = m.buffered := rfl
  unfold Memory.Splits at *
  rw [same]
  simpa [Memory.PutChar] using splits

/-- It goes from the keyboard to the buffer. -/
theorem splits_arrives {c : UInt8} {rest held : List UInt8} (room : m.incoming = EOF)
    (typed : m.keyboard = c :: rest) (real : c ≠ EOF) (splits : m.Splits input held) :
    { m with incoming := c, keyboard := rest }.Splits input held ∧
      { m with incoming := c, keyboard := rest }.signals = m.signals + 1 := by
  have before : m.buffered = [] := if_pos room
  have after : { m with incoming := c, keyboard := rest }.buffered = [c] := if_neg real
  unfold Memory.Splits Memory.signals at *
  rw [before, typed] at splits
  rw [before, after]
  refine ⟨by simpa using splits, ?_⟩
  simp

end

/-! ## Semaphores of one thread -/

section
variable {k : State}

/-- `P` finds the semaphore free. -/
theorem P_takes (next : Point) {id : SemId Signal Unit} (nonzero : (k.sem id).value ≠ 0) :
    (k.P () id none next).1.phase () = .running next ∧
      ((k.P () id none next).1.sem id).value = (k.sem id).value - 1 ∧
      ∀ id', id' ≠ id → (k.P () id none next).1.sem id' = k.sem id' := by
  cases id with
  | plain s =>
    rw [State.P_takes_plain nonzero]
    simp +contextual
  | ofLock l =>
    rw [State.P_takes_lock nonzero]
    simp +contextual

theorem P_sleeps (next : Point) {id : SemId Signal Unit} (zero : (k.sem id).value = 0) :
    (k.P () id none next).1.phase () = .queued id none next ∧
      ((k.P () id none next).1.sem id).value = (k.sem id).value ∧
      ∀ id', id' ≠ id → (k.P () id none next).1.sem id' = k.sem id' := by
  rw [State.P_sleeps zero]
  simp +contextual

/-- `V` wakes the thread if it sleeps at this semaphore. -/
theorem V_phase (valid : k.Queued) (id : SemId Signal Unit) :
    (k.V id).1.phase () =
      if (k.phase ()).place = some (.sem id) then (k.phase ()).readied else k.phase () := by
  have asleep : () ∈ (k.sem id).queue ↔ (k.phase ()).place = some (.sem id) := valid.member (.sem id) ()
  cases shape : (k.sem id).queue with
  | nil =>
    rw [State.V_alone shape, if_neg (by simp [← asleep, shape])]
    rfl
  | cons t rest =>
    rw [State.V_wakes shape, if_pos (by simp [← asleep, shape])]
    simp

end

/-! ## Every step -/

section
variable {input : List UInt8} {m : Memory} {read write lock : Int} {phase : Phase}

/-- A character arrives; the program is woken if it sleeps. -/
theorem Stands.arrives (stands : Stands input m read write lock phase) {c : UInt8} {rest : List UInt8}
    (room : m.incoming = EOF) (typed : m.keyboard = c :: rest) (real : c ≠ EOF) :
    Stands input { m with incoming := c, keyboard := rest } (read + if Signal.readAvail = .readAvail then 1 else 0)
      (write + if Signal.readAvail = .writeDone then 1 else 0) lock
      (if phase.place = some (.sem (.plain .readAvail)) then phase.readied else phase) := by
  have moved : ∀ held, m.Splits input held → _ := fun held splits =>
    splits_arrives room typed real splits
  rw [if_pos rfl, if_neg (by decide), Int.add_zero]
  unfold Stands at stands
  split at stands
  case h_3 =>
    obtain ⟨none, signals, lock, more, splits⟩ := stands
    obtain ⟨splits, signals'⟩ := moved _ splits
    exact ⟨by omega, by omega, lock, more, splits⟩
  case h_2 =>
    obtain ⟨woken, read, lock, more, splits⟩ := stands
    obtain ⟨splits, signals⟩ := moved _ splits
    exact ⟨by omega, by omega, lock, more, splits⟩
  case h_9 | h_10 =>
    obtain ⟨read, lock, write, shown, splits⟩ := stands
    obtain ⟨splits, signals⟩ := moved _ splits
    exact ⟨by omega, lock, write, shown, splits⟩
  case h_12 => exact ⟨stands.1, (moved _ stands.2).1⟩
  case h_13 => exact stands.elim
  all_goals
    obtain ⟨read, lock, shown, splits⟩ := stands
    obtain ⟨splits, signals⟩ := moved _ splits
    exact ⟨by omega, lock, shown, splits⟩

/-- A write is over. -/
theorem Stands.written (stands : Stands input m read write lock phase) {n : Nat} :
    Stands input { m with writing := n, putBusy := false }
      (read + if Signal.writeDone = .readAvail then 1 else 0)
      (write + if Signal.writeDone = .writeDone then 1 else 0) lock
      (if phase.place = some (.sem (.plain .writeDone)) then phase.readied else phase) := by
  rw [if_neg (by decide), if_pos rfl, Int.add_zero]
  unfold Stands at stands
  split at stands
  case h_9 | h_10 =>
    obtain ⟨read, lock, signalled, shown, splits⟩ := stands
    exact ⟨read, lock, by omega, shown, splits⟩
  case h_13 => exact stands.elim
  all_goals exact stands

end

namespace Kept

variable {input : List UInt8} {k : State}

/-- A segment without a semaphore of its own ends at another point. -/
theorem moves (kept : Kept input k) {k' : State} (memory : k'.memory = k.memory)
    (write : (k'.sem (.plain .writeDone)).value = (k.sem (.plain .writeDone)).value)
    (stands : Stands input k.memory (k'.sem (.plain .readAvail)).value (k.sem (.plain .writeDone)).value
      (k'.sem (.ofLock ())).value (k'.phase ())) : Kept input k' where
  stands := by rw [memory, write]; exact stands
  free := by rw [memory]; exact kept.free
  fine := by rw [memory]; exact kept.fine
  typed := by rw [memory]; exact kept.typed
  nonneg := by rw [write]; exact kept.nonneg

/-- `Lock::Acquire`. The lock is free. -/
theorem acquires (kept : Kept input k) {next : Point} (free : (k.sem (.ofLock ())).value = 1)
    (stands : Stands input k.memory (k.sem (.plain .readAvail)).value (k.sem (.plain .writeDone)).value 0
      (.running next)) : Kept input (k.P () (.ofLock ()) none next).1 := by
  obtain ⟨phase, value, others⟩ := P_takes next (show (k.sem (.ofLock ())).value ≠ 0 by omega)
  refine kept.moves State.P_memory ?_ ?_
  · rw [others _ (by simp)]
  · rw [others _ (by simp), value, free, phase]
    exact stands

/-- `Lock::Release`. -/
theorem releases (kept : Kept input k) (valid : k.Queued) {u next : Point} (runs : k.phase () = .running u)
    (held : (k.sem (.ofLock ())).value = 0)
    (stands : Stands input k.memory (k.sem (.plain .readAvail)).value (k.sem (.plain .writeDone)).value 1
      (.running next)) :
    Kept input ((k.setPhase () (.running next)).Release () ()).1 := by
  have gone : (k.setPhase () (.running next)).Queued := valid.setPhase (by rw [runs]; rfl)
  have phase := V_phase gone (.ofLock ())
  rw [State.setPhase_same, if_neg (by simp [Threads.Phase.place])] at phase
  refine kept.moves (by simp [State.Release]) (by simp [State.Release]) ?_
  simp only [State.Release, State.setOwner_sem, State.setOwner_phase, phase, State.V_value,
    State.setPhase_sem, held]
  rw [State.V_sem_other (by simp)]
  exact stands

/-- `readAvail->P()`. -/
theorem arrives (kept : Kept input k) (read : (k.sem (.plain .readAvail)).value = k.memory.signals)
    (lock : (k.sem (.ofLock ())).value = 1) (more : q ∉ k.memory.display)
    (splits : k.memory.Splits input []) : Kept input (k.P () (.plain .readAvail) none .available).1 := by
  by_cases zero : (k.sem (.plain .readAvail)).value = 0
  · obtain ⟨phase, value, others⟩ := P_sleeps .available zero
    refine kept.moves State.P_memory (by rw [others _ (by simp)]) ?_
    rw [others (.ofLock ()) (by simp), value, phase]
    exact ⟨zero, read.symm.trans zero, lock, more, splits⟩
  · obtain ⟨phase, value, others⟩ := P_takes .available zero
    refine kept.moves State.P_memory (by rw [others _ (by simp)]) ?_
    rw [others (.ofLock ()) (by simp), value, phase]
    exact ⟨by omega, lock, more, splits⟩

/-- `V` by the program itself, or by a handler while the program sleeps or runs. -/
theorem raises (valid : k.Queued) (s : Signal) (phase : Phase)
    (stands : Stands input k.memory ((k.sem (.plain .readAvail)).value + if s = .readAvail then 1 else 0)
      ((k.sem (.plain .writeDone)).value + if s = .writeDone then 1 else 0) (k.sem (.ofLock ())).value phase)
    (phases : (if (k.phase ()).place = some (.sem (.plain s)) then (k.phase ()).readied else k.phase ()) = phase)
    (free : k.memory.putBusy = false) (fine : k.memory.failed = false)
    (typed : ∀ c ∈ k.memory.keyboard, c ≠ EOF) (nonneg : 0 ≤ (k.sem (.plain .writeDone)).value) :
    Kept input (k.V (.plain s)).1 := by
  have value : ∀ s', ((k.V (.plain s)).1.sem (.plain s')).value =
      (k.sem (.plain s')).value + if s = s' then 1 else 0 := by
    intro s'
    by_cases same : s = s'
    · rw [← same, State.V_value, if_pos rfl]
    · rw [State.V_sem_other (by simpa using Ne.symm same), if_neg same, Int.add_zero]
  constructor
  · rw [value, value, State.V_sem_other (by simp), V_phase valid, phases, State.V_memory]
    exact stands
  · rw [State.V_memory]
    exact free
  · rw [State.V_memory]
    exact fine
  · rw [State.V_memory]
    exact typed
  · rw [value]
    split <;> omega

theorem step {k' : State} {events : List (Event Unit Signal Unit Empty)} (kept : Kept input k)
    (valid : k.Queued) (step : TimelyStep k events k') : Kept input k' := by
  obtain ⟨step, timely⟩ := step
  have stands := kept.stands
  cases step with
  | segment runs does once =>
    rename_i t u next op memory
    rw [runs] at stands
    have gone : ∀ (m : Memory) (next : Point),
        ({ k with memory := m }.setPhase () (.running next)).Queued := fun m next =>
      State.Queued.setPhase (k := { k with memory := m }) valid
        (by show none = (k.phase ()).place; rw [runs]; rfl)
    cases does with
    | arrives => exact kept.arrives stands.1 stands.2.1 stands.2.2.1 stands.2.2.2
    | gets => exact kept.acquires stands.2.1 ⟨stands.1, rfl, stands.2.2⟩
    | takes =>
      obtain ⟨read, lock, more, splits⟩ := stands
      have full : k.memory.incoming ≠ EOF := timely (by simp [State.perform, Memory.GetChar])
      obtain ⟨splits, signals⟩ := splits_GetChar full splits
      refine raises (gone k.memory.GetChar (.gotten k.memory.incoming)) .readAvail
        (.running (.gotten k.memory.incoming)) ⟨?_, lock, more, splits⟩ ?_ kept.free kept.fine kept.typed
        kept.nonneg
      · rw [if_pos rfl]
        exact read.trans signals.symm
      · rw [State.setPhase_same]
        rfl
    | gotten => exact kept.releases valid runs stands.2.1 ⟨stands.1, rfl, stands.2.2⟩
    | puts => exact kept.acquires stands.2.1 ⟨stands.1, rfl, stands.2.2⟩
    | shows =>
      rename_i ch
      obtain ⟨read, lock, more, splits⟩ := stands
      refine raises (gone (k.memory.PutChar ch) (.put ch)) .writeDone (.running (.put ch)) ?_ ?_ rfl ?_
        kept.typed kept.nonneg
      · refine ⟨?_, lock, ?_, ⟨_, rfl, more⟩, splits_PutChar splits⟩
        · rw [if_neg (by decide), Int.add_zero]
          exact read
        · rw [if_pos rfl]
          exact Int.le_add_of_nonneg_left kept.nonneg
      · rw [State.setPhase_same]
        rfl
      · show (k.memory.failed || k.memory.putBusy) = false
        rw [kept.free, kept.fine]
        rfl
    | put => exact kept.releases valid runs stands.2.1 ⟨stands.1, rfl, stands.2.2⟩
    | waits =>
      rename_i ch
      obtain ⟨read, lock, write, shown, splits⟩ := stands
      obtain ⟨phase, value, others⟩ :=
        P_takes (k := k) (.testing ch) (show (k.sem (.plain .writeDone)).value ≠ 0 by omega)
      have after : (k.P () (.plain .writeDone) none (.testing ch)).1.memory = k.memory := State.P_memory
      refine ⟨?_, ?_, ?_, ?_, ?_⟩
      · show Stands input (k.P () (.plain .writeDone) none (.testing ch)).1.memory _ _ _
          ((k.P () (.plain .writeDone) none (.testing ch)).1.phase ())
        rw [after, phase]
        refine ⟨?_, ?_, shown, splits⟩
        · exact (congrArg Semaphore.value (others (.plain .readAvail) (by simp))).trans read
        · exact (congrArg Semaphore.value (others (.ofLock ()) (by simp))).trans lock
      · exact (congrArg Memory.putBusy after).trans kept.free
      · exact (congrArg Memory.failed after).trans kept.fine
      · have typed := kept.typed
        rw [← after] at typed
        exact typed
      · have less : ((k.P () (.plain .writeDone) none (.testing ch)).1.sem (.plain .writeDone)).value =
          (k.sem (.plain .writeDone)).value - 1 := value
        show 0 ≤ ((k.P () (.plain .writeDone) none (.testing ch)).1.sem (.plain .writeDone)).value
        omega
    | quits =>
      refine kept.moves rfl rfl ?_
      show Stands input k.memory _ _ _ ((k.setPhase () .finished).phase ())
      rw [State.setPhase_same]
      exact stands.2.2
    | again other =>
      obtain ⟨read, lock, ⟨before, shown, more⟩, splits⟩ := stands
      refine kept.arrives read lock ?_ splits
      rw [shown]
      simp [more, Ne.symm other]
  | retest runs =>
    rename_i t id inWait next
    rw [runs] at stands
    obtain ⟨rfl, rfl, rfl⟩ : id = .plain .readAvail ∧ inWait = none ∧ next = .available := by
      unfold Stands at stands
      split at stands <;> simp_all
    obtain ⟨-, read, lock, more, splits⟩ := stands
    exact kept.arrives read lock more splits
  | reacquire runs =>
    rename_i c l next
    exact c.elim
  | interrupt fires =>
    have still : ∀ m : Memory, State.Queued { k with memory := m } := fun _ => valid
    cases fires with
    | arrives room typed =>
      rename_i c rest
      have real : ∀ c' ∈ c :: rest, c' ≠ EOF := by
        rw [← typed]
        exact kept.typed
      refine raises (still { k.memory with incoming := c, keyboard := rest }) .readAvail _
        (stands.arrives room typed (real c (by simp))) rfl kept.free kept.fine ?_ kept.nonneg
      exact fun c' inside => real c' (List.mem_cons_of_mem _ inside)
    | polls => exact kept
    | written writes =>
      rename_i n
      exact raises (still { k.memory with writing := n, putBusy := false }) .writeDone _
        stands.written rfl rfl kept.fine kept.typed kept.nonneg

end Kept

/-! ## The program goes on -/

/-- The characters not taken from the buffer yet. -/
def Memory.remaining (m : Memory) : Nat := m.buffered.length + m.keyboard.length

/-- How far the program is from the next character, or from its end. -/
def rank : Phase → Nat
  | .running (.gotten _) => 16
  | .running (.echoing _) => 15
  | .running (.putting _) => 14
  | .running (.put _) => 13
  | .running (.waiting _) => 12
  | .running (.testing _) => 11
  | .running .loop => 10
  | .queued _ _ _ => 9
  | .woken _ _ _ => 8
  | .running .available => 7
  | .running .getting => 6
  | _ => 0

def distance (k : State) : Nat := 20 * k.memory.remaining + rank (k.phase ())

/-- Some steps bring the program closer to its end. -/
def Proceeds (k : State) : Prop := ∃ trace k', Runs TimelyStep k trace k' ∧ distance k' < distance k

theorem proceeds_of_step {k k' : State} {events : List (Event Unit Signal Unit Empty)} {u : Phase}
    (step : Step code k events k') (memory : k'.memory = k.memory) (phase : k'.phase () = u)
    (closer : rank u < rank (k.phase ())) : Proceeds k := by
  refine ⟨events, k', .single ⟨step, fun looked => ?_⟩, ?_⟩
  · rw [memory] at looked
    exact absurd rfl looked
  · unfold distance
    rw [memory, phase]
    omega

/-- `readAvail->P()`. -/
theorem proceeds_P {k : State} {events : List (Event Unit Signal Unit Empty)}
    (step : Step code k events (k.P () (.plain .readAvail) none .available).1)
    (close : 9 < rank (k.phase ()) ∨ (k.sem (.plain .readAvail)).value ≠ 0 ∧ 7 < rank (k.phase ())) :
    Proceeds k := by
  by_cases zero : (k.sem (.plain .readAvail)).value = 0
  · exact proceeds_of_step step State.P_memory (P_sleeps .available zero).1
      (close.resolve_right fun both => both.1 zero)
  · refine proceeds_of_step step State.P_memory (P_takes .available zero).1 ?_
    show 7 < rank (k.phase ())
    omega

namespace Kept

variable {input : List UInt8} {k : State}

/-- There is a character left as long as no `q` was shown. -/
theorem typed_left (present : q ∈ input) {m : Memory} (more : q ∉ m.display) (splits : m.Splits input [])
    (empty : m.incoming = EOF) : ∃ c rest, m.keyboard = c :: rest := by
  have none : m.buffered = [] := if_pos empty
  cases typed : m.keyboard with
  | cons c rest => exact ⟨c, rest, rfl⟩
  | nil =>
    rw [Memory.Splits, none, typed] at splits
    rw [← splits] at present
    simp at present
    exact absurd present more

/-- `GetChar` takes the character in the buffer. -/
theorem takes (valid : k.Queued) (stands : k.phase () = .running .getting)
    (full : k.memory.incoming ≠ EOF) : Proceeds k := by
  have gone : ({ k with memory := k.memory.GetChar }.setPhase () (.running (.gotten k.memory.incoming))).Queued :=
    State.Queued.setPhase (k := { k with memory := k.memory.GetChar }) valid
      (by show none = (k.phase ()).place; rw [stands]; rfl)
  have phase := V_phase gone (.plain .readAvail)
  rw [State.setPhase_same, if_neg (by simp [Threads.Phase.place])] at phase
  have fewer : k.memory.GetChar.remaining + 1 = k.memory.remaining := by
    have before : k.memory.buffered = [k.memory.incoming] := if_neg full
    have after : k.memory.GetChar.buffered = [] := if_pos rfl
    unfold Memory.remaining
    rw [before, after]
    show 0 + k.memory.keyboard.length + 1 = 1 + k.memory.keyboard.length
    omega
  refine ⟨_, _, .single ⟨.segment stands .takes (by simp), fun _ => full⟩, ?_⟩
  unfold distance
  simp only [State.perform, phase, State.V_memory, State.setPhase_memory, stands, rank]
  omega

/-- The poll finds the next character, and wakes the program if it sleeps. -/
theorem polled (kept : Kept input k) (valid : k.Queued) (present : q ∈ input) (more : q ∉ k.memory.display)
    (splits : k.memory.Splits input []) (empty : k.memory.incoming = EOF) :
    ∃ events k', TimelyStep k events k' ∧ k'.memory.incoming ≠ EOF ∧
      k'.memory.remaining = k.memory.remaining ∧
      k'.phase () = if (k.phase ()).place = some (.sem (.plain .readAvail)) then (k.phase ()).readied
        else k.phase () := by
  obtain ⟨c, rest, typed⟩ := typed_left present more splits empty
  have real : c ≠ EOF := kept.typed c (by rw [typed]; exact List.mem_cons_self)
  have still : State.Queued { k with memory := { k.memory with incoming := c, keyboard := rest } } := valid
  refine ⟨_, _, ⟨.interrupt (.arrives empty typed), ?_⟩, ?_, ?_, V_phase still (.plain .readAvail)⟩
  · intro looked
    simp [State.interrupt] at looked
  · simpa [State.interrupt] using real
  · have before : k.memory.buffered = [] := if_pos empty
    have after : { k.memory with incoming := c, keyboard := rest }.buffered = [c] := if_neg real
    simp only [State.interrupt, State.V_memory, Memory.remaining, before, after, typed]
    simp
    omega

/-- The lock is free. -/
theorem proceeds_acquire {u next : Point} (phase : k.phase () = .running u)
    (does : Segment u k.memory (.acquire ()) k.memory next) (free : (k.sem (.ofLock ())).value = 1)
    (closer : rank (.running next) < rank (.running u)) : Proceeds k := by
  refine proceeds_of_step (.segment phase does (fun _ impossible => by cases impossible)) State.P_memory
    (P_takes next (show (k.sem (.ofLock ())).value ≠ 0 by omega)).1 ?_
  rw [phase]
  exact closer

theorem proceeds_release {u next : Point} (valid : k.Queued) (phase : k.phase () = .running u)
    (does : Segment u k.memory (.release ()) k.memory next)
    (closer : rank (.running next) < rank (.running u)) : Proceeds k := by
  have gone : (k.setPhase () (.running next)).Queued := valid.setPhase (by rw [phase]; rfl)
  have after := V_phase gone (.ofLock ())
  rw [State.setPhase_same, if_neg (by simp [Threads.Phase.place])] at after
  refine proceeds_of_step (.segment phase does (fun _ impossible => by cases impossible)) ?_ ?_
    (show rank (.running next) < _ by rw [phase]; exact closer)
  · simp [State.perform, State.Release]
  · simpa [State.perform, State.Release] using after

/-- The character is in the buffer, or arrives first. -/
theorem proceeds_takes (kept : Kept input k) (valid : k.Queued) (present : q ∈ input)
    (phase : k.phase () = .running .getting) : Proceeds k := by
  by_cases empty : k.memory.incoming = EOF
  · have stands := kept.stands
    rw [phase] at stands
    obtain ⟨events, k', step, full, same, phase'⟩ :=
      kept.polled valid present stands.2.2.1 stands.2.2.2 empty
    rw [phase, if_neg (by simp [Threads.Phase.place])] at phase'
    obtain ⟨trace, last, run, closer⟩ := takes (step.1.queued valid) phase' full
    refine ⟨_, _, (Runs.single step).append run, ?_⟩
    unfold distance at closer ⊢
    rw [phase, ← phase', ← same]
    exact closer
  · exact takes valid phase empty

/-- `PutChar` shows the character. -/
theorem proceeds_shows (valid : k.Queued) {ch : UInt8} (phase : k.phase () = .running (.putting ch)) :
    Proceeds k := by
  have gone : ({ k with memory := k.memory.PutChar ch }.setPhase () (.running (.put ch))).Queued :=
    State.Queued.setPhase (k := { k with memory := k.memory.PutChar ch }) valid
      (by show none = (k.phase ()).place; rw [phase]; rfl)
  have after := V_phase gone (.plain .writeDone)
  rw [State.setPhase_same, if_neg (by simp [Threads.Phase.place])] at after
  refine ⟨_, _, .single ⟨.segment phase .shows (fun _ impossible => by cases impossible), fun looked => ?_⟩, ?_⟩
  · simp [State.perform, Memory.PutChar] at looked
  · unfold distance
    simp only [State.perform, after, State.V_memory, State.setPhase_memory, phase, rank]
    show 20 * k.memory.remaining + 13 < 20 * k.memory.remaining + 14
    omega

/-- From every point the program gets closer to its end. -/
theorem proceeds (kept : Kept input k) (valid : k.Queued) (present : q ∈ input)
    (more : k.phase () ≠ .finished) : Proceeds k := by
  have stands := kept.stands
  cases phase : k.phase () with
  | fresh u =>
    rw [phase] at stands
    exact stands.elim
  | waiting c l u => exact c.elim
  | signalled c l u => exact c.elim
  | finished => exact absurd phase more
  | queued id inWait u =>
    rw [phase] at stands
    obtain ⟨rfl, rfl, rfl⟩ : id = .plain .readAvail ∧ inWait = none ∧ u = .available := by
      unfold Stands at stands
      split at stands <;> simp_all
    obtain ⟨-, signals, -, more, splits⟩ := stands
    have empty : k.memory.incoming = EOF := by
      by_contra full
      have before : k.memory.buffered = [k.memory.incoming] := if_neg full
      rw [Memory.signals, before] at signals
      simp at signals
      omega
    obtain ⟨events, k', step, -, same, phase'⟩ := kept.polled valid present more splits empty
    rw [phase, if_pos (by simp [Threads.Phase.place])] at phase'
    refine ⟨events, k', .single step, ?_⟩
    unfold distance
    rw [same, phase, phase']
    exact Nat.lt_succ_self _
  | woken id inWait u =>
    rw [phase] at stands
    obtain ⟨rfl, rfl, rfl⟩ : id = .plain .readAvail ∧ inWait = none ∧ u = .available := by
      unfold Stands at stands
      split at stands <;> simp_all
    have signalled : 1 ≤ (k.sem (.plain .readAvail)).value := stands.1
    exact proceeds_P (.retest phase) (.inr ⟨by omega, by rw [phase]; exact Nat.lt_succ_self 7⟩)
  | running u =>
    rw [phase] at stands
    cases u with
    | loop =>
      have step : Step code k _ _ := .segment phase Segment.arrives (fun _ impossible => by cases impossible)
      exact proceeds_P step (.inl (by rw [phase]; decide))
    | available => exact proceeds_acquire phase .gets stands.2.1 (by decide)
    | getting => exact kept.proceeds_takes valid present phase
    | gotten ch => exact proceeds_release valid phase .gotten (Nat.lt_succ_self 15)
    | echoing ch => exact proceeds_acquire phase .puts stands.2.1 (Nat.lt_succ_self 14)
    | putting ch => exact proceeds_shows valid phase
    | put ch => exact proceeds_release valid phase .put (Nat.lt_succ_self 12)
    | waiting ch =>
      have written : 1 ≤ (k.sem (.plain .writeDone)).value := stands.2.2.1
      refine proceeds_of_step (.segment phase Segment.waits (fun _ impossible => by cases impossible)) State.P_memory
        (P_takes (.testing ch) (show (k.sem (.plain .writeDone)).value ≠ 0 by omega)).1 ?_
      rw [phase]
      exact Nat.lt_succ_self 11
    | testing ch =>
      by_cases last : ch = q
      · subst last
        refine proceeds_of_step (.segment phase Segment.quits (fun _ impossible => by cases impossible)) rfl
          (State.setPhase_same _) ?_
        rw [phase]
        exact Nat.succ_pos 10
      · have step : Step code k _ _ := .segment phase (Segment.again last) (fun _ impossible => by cases impossible)
        refine proceeds_P step (.inl ?_)
        rw [phase]
        exact Nat.le_succ 10

/-- From every state the program can reach its end. -/
theorem ends (kept : Kept input k) (valid : k.Queued) (present : q ∈ input) :
    ∃ trace k', Runs TimelyStep k trace k' ∧ k'.phase () = .finished := by
  induction far : distance k using Nat.strong_induction_on generalizing k with
  | _ n ih =>
    by_cases finished : k.phase () = .finished
    · exact ⟨[], k, .start, finished⟩
    · obtain ⟨trace, k', run, closer⟩ := kept.proceeds valid present finished
      have both : Kept input k' ∧ k'.Queued := run.invariant_state
        (P := fun k => Kept input k ∧ k.Queued) ⟨kept, valid⟩
        fun both step => ⟨both.1.step both.2 step, step.1.queued both.2⟩
      obtain ⟨rest, last, more, done⟩ := ih (distance k') (by omega) both.1 both.2 rfl
      exact ⟨trace ++ rest, last, run.append more, done⟩

end Kept

/-! ## The echo -/

/-- `ConsoleTest` begins, with the input to be typed. -/
structure Begins (input : List UInt8) (k : State) : Prop where
  starts : Starts k
  signals (s : Signal) : (k.sem (.plain s)).value = 0
  stands : k.phase () = .running .loop
  memory : k.memory =
    { incoming := EOF, keyboard := input, putBusy := false, writing := 0, display := [], failed := false,
      gets := 0 }

section
variable {input : List UInt8} {k : State}

theorem Begins.kept (begins : Begins input k) (typed : ∀ c ∈ input, c ≠ EOF) : Kept input k := by
  constructor
  · rw [begins.stands, begins.memory, begins.signals, begins.signals, (begins.starts.free ()).1]
    exact ⟨rfl, rfl, List.not_mem_nil, rfl⟩
  · rw [begins.memory]
  · rw [begins.memory]
  · rw [begins.memory]
    exact typed
  · rw [begins.signals]

/-- What comes before the first `q` is kept. -/
theorem upToQ_append {before rest : List UInt8} (clean : q ∉ before) :
    upToQ (before ++ rest) = before ++ upToQ rest := by
  have others : ∀ c ∈ before, decide (c ≠ q) = true := by
    intro c inside
    simp only [decide_eq_true_eq]
    rintro rfl
    exact clean inside
  rw [upToQ, List.takeWhile_append_of_pos others, List.append_assoc]
  rfl

theorem prefix_upToQ {before rest : List UInt8} (clean : q ∉ before) (splits : before ++ rest = input) :
    before <+: upToQ input := by
  rw [← splits, upToQ_append clean]
  exact List.prefix_append _ _

theorem Memory.Shown.upToQ {m : Memory} (shown : m.Shown q) (splits : m.Splits input []) :
    m.display = upToQ input := by
  obtain ⟨before, display, clean⟩ := shown
  have split : before ++ (q :: (m.buffered ++ m.keyboard)) = input := by
    rw [← splits, display]
    simp
  have stop : Console.upToQ (q :: (m.buffered ++ m.keyboard)) = [q] := by
    rw [Console.upToQ, List.takeWhile_cons_of_neg (by simp)]
    rfl
  rw [← split, upToQ_append clean, stop, display]

theorem Memory.Shown.starts {m : Memory} {ch : UInt8} (shown : m.Shown ch) (splits : m.Splits input []) :
    m.display <+: Console.upToQ input := by
  by_cases last : ch = q
  · subst last
    rw [shown.upToQ splits]
  · obtain ⟨before, display, clean⟩ := shown
    have split : m.display ++ (m.buffered ++ m.keyboard) = input := by
      rw [← splits]
      simp
    refine prefix_upToQ ?_ split
    rw [display]
    simp [clean, Ne.symm last]

/-- Only characters of the input are shown, in order and up to the `q`. -/
theorem Kept.shown (kept : Kept input k) : k.memory.display <+: upToQ input := by
  have stands := kept.stands
  unfold Stands at stands
  split at stands
  case h_2 | h_3 => exact prefix_upToQ stands.2.2.2.1 (by rw [← stands.2.2.2.2]; simp; rfl)
  case h_9 | h_10 => exact stands.2.2.2.1.starts stands.2.2.2.2
  case h_11 => exact stands.2.2.1.starts stands.2.2.2
  case h_12 => exact stands.1.starts stands.2
  case h_13 => exact stands.elim
  all_goals exact prefix_upToQ stands.2.2.1 (by rw [← stands.2.2.2]; simp; rfl)

/-- No write is begun before the last one is over, whenever `GetChar` looks. -/
theorem never_fails {k' : State} {events : List (Event Unit Signal Unit Empty)}
    (idle : k.memory.putBusy = false ∧ k.memory.failed = false) (step : Step code k events k') :
    k'.memory.putBusy = false ∧ k'.memory.failed = false := by
  cases step with
  | segment stands does once =>
    rename_i t u next op memory
    have same : ({ k with memory := memory }.perform t op next).1.memory = memory := by
      cases does <;> simp [State.perform, State.Release]
    rw [same]
    cases does with
    | shows => exact ⟨rfl, by simp [Memory.PutChar, idle]⟩
    | arrives | gets | takes | gotten | puts | put | waits | quits | again => exact idle
  | retest stands => rw [State.P_memory]; exact idle
  | reacquire stands => rw [State.P_memory]; exact idle
  | interrupt fires =>
    rename_i raised memory
    have same : ({ k with memory := memory }.interrupt raised).1.memory = memory := by
      cases raised <;> simp [State.interrupt]
    rw [same]
    cases fires with
    | arrives | polls => exact idle
    | written => exact ⟨rfl, idle.2⟩

end

/-- The assertion of `PutChar` never fails. If a character is in the buffer whenever
`GetChar` looks for one, the display shows the input up to the first `q`, each
character once and in order: a part of it at any time, all of it at the end, and the
end can always be reached. -/
theorem console_echoes_up_to_q {input : List UInt8} {start : State} (begins : Begins input start)
    (typed : ∀ c ∈ input, c ≠ EOF) (present : q ∈ input) :
    (∀ trace k, Runs (Step code) start trace k → k.memory.failed = false) ∧
      ∀ trace k, Runs TimelyStep start trace k →
        k.memory.display <+: upToQ input ∧
        (k.phase () = .finished → k.memory.display = upToQ input) ∧
        ∃ rest k', Runs TimelyStep k rest k' ∧ k'.phase () = .finished := by
  refine ⟨fun trace k run => ?_, fun trace k run => ?_⟩
  · have idle : start.memory.putBusy = false ∧ start.memory.failed = false := by
      rw [begins.memory]
      exact ⟨rfl, rfl⟩
    exact (run.invariant_state (P := fun k => k.memory.putBusy = false ∧ k.memory.failed = false) idle
      never_fails).2
  · have both : Kept input k ∧ k.Queued := run.invariant_state
      (P := fun k => Kept input k ∧ k.Queued) ⟨begins.kept typed, begins.starts.queued⟩
      fun both step => ⟨both.1.step both.2 step, step.1.queued both.2⟩
    refine ⟨both.1.shown, fun finished => ?_, both.1.ends both.2 present⟩
    have stands := both.1.stands
    rw [finished] at stands
    exact stands.1.upToQ stands.2

/-- `ConsoleTest` begins. -/
def begun (input : List UInt8) : State where
  sem
    | .plain _ => { value := 0, queue := [] }
    | .ofLock _ => { value := 1, queue := [] }
  owner _ := none
  queue c := c.elim
  phase _ := .running .loop
  memory :=
    { incoming := EOF, keyboard := input, putBusy := false, writing := 0, display := [], failed := false,
      gets := 0 }

theorem begun_begins (input : List UInt8) : Begins input (begun input) where
  starts :=
    { value := fun id => by cases id <;> simp [begun]
      asleep := fun id => by cases id <;> rfl
      free := fun _ => ⟨rfl, rfl⟩
      conditions := fun c => c.elim
      phase := fun _ => ⟨.loop, .inr rfl⟩ }
  signals _ := rfl
  stands := rfl
  memory := rfl

/-- The second character is typed while the first one is being shown. -/
theorem console_echoes_up_to_q_in_time :
    ∃ trace k, Runs TimelyStep (begun [97, q]) trace k ∧ k.phase () = .finished ∧
      k.memory.display = upToQ [97, q] := by
  have sleeps : Runs TimelyStep (begun [97, q]) _ _ :=
    .next .start ⟨.segment (t := ()) rfl .arrives (by simp), fun looked => absurd rfl looked⟩
  have typed := sleeps.next ⟨.interrupt (.arrives rfl rfl), fun looked => absurd rfl looked⟩
  have wakes := typed.next ⟨.retest (t := ()) rfl, fun looked => absurd rfl looked⟩
  have gets := wakes.next ⟨.segment (t := ()) rfl .gets (by simp), fun looked => absurd rfl looked⟩
  have takes := gets.next ⟨.segment (t := ()) rfl .takes (by simp), fun _ => by decide⟩
  have gotten := takes.next ⟨.segment (t := ()) rfl .gotten (by simp), fun looked => absurd rfl looked⟩
  have puts := gotten.next ⟨.segment (t := ()) rfl .puts (by simp), fun looked => absurd rfl looked⟩
  have shows := puts.next ⟨.segment (t := ()) rfl .shows (by simp), fun looked => absurd rfl looked⟩
  have typed' := shows.next ⟨.interrupt (.arrives rfl rfl), fun looked => absurd rfl looked⟩
  have put := typed'.next ⟨.segment (t := ()) rfl .put (by simp), fun looked => absurd rfl looked⟩
  have waits := put.next ⟨.segment (t := ()) rfl .waits (by simp), fun looked => absurd rfl looked⟩
  have again := waits.next
    ⟨.segment (t := ()) rfl (.again (by decide)) (by simp), fun looked => absurd rfl looked⟩
  have written := again.next ⟨.interrupt (.written rfl), fun looked => absurd rfl looked⟩
  have gets' := written.next ⟨.segment (t := ()) rfl .gets (by simp), fun looked => absurd rfl looked⟩
  have takes' := gets'.next ⟨.segment (t := ()) rfl .takes (by simp), fun _ => by decide⟩
  have gotten' := takes'.next ⟨.segment (t := ()) rfl .gotten (by simp), fun looked => absurd rfl looked⟩
  have puts' := gotten'.next ⟨.segment (t := ()) rfl .puts (by simp), fun looked => absurd rfl looked⟩
  have shows' := puts'.next ⟨.segment (t := ()) rfl .shows (by simp), fun looked => absurd rfl looked⟩
  have put' := shows'.next ⟨.segment (t := ()) rfl .put (by simp), fun looked => absurd rfl looked⟩
  have waits' := put'.next ⟨.segment (t := ()) rfl .waits (by simp), fun looked => absurd rfl looked⟩
  have quits := waits'.next ⟨.segment (t := ()) rfl .quits (by simp), fun looked => absurd rfl looked⟩
  exact ⟨_, _, quits, rfl,
    ((console_echoes_up_to_q (begun_begins [97, q]) (by simp [q, EOF]) (by simp)).2 _ _ quits).2.1 rfl⟩

/-- The second turn does not wait for a character: an empty buffer is echoed. -/
theorem empty_buffer_is_echoed :
    ∃ trace k, Runs (Step code) (begun [97, q]) trace k ∧ k.memory.display = [97, EOF] ∧
      ¬ k.memory.display <+: upToQ [97, q] := by
  have sleeps : Runs (Step code) (begun [97, q]) _ _ :=
    .next .start (.segment (t := ()) rfl .arrives (by simp))
  have typed := sleeps.next (.interrupt (.arrives rfl rfl))
  have wakes := typed.next (.retest (t := ()) rfl)
  have gets := wakes.next (.segment (t := ()) rfl .gets (by simp))
  have takes := gets.next (.segment (t := ()) rfl .takes (by simp))
  have gotten := takes.next (.segment (t := ()) rfl .gotten (by simp))
  have puts := gotten.next (.segment (t := ()) rfl .puts (by simp))
  have shows := puts.next (.segment (t := ()) rfl .shows (by simp))
  have put := shows.next (.segment (t := ()) rfl .put (by simp))
  have waits := put.next (.segment (t := ()) rfl .waits (by simp))
  have again := waits.next (.segment (t := ()) rfl (.again (by decide)) (by simp))
  have gets' := again.next (.segment (t := ()) rfl .gets (by simp))
  have takes' := gets'.next (.segment (t := ()) rfl .takes (by simp))
  have gotten' := takes'.next (.segment (t := ()) rfl .gotten (by simp))
  have puts' := gotten'.next (.segment (t := ()) rfl .puts (by simp))
  have shows' := puts'.next (.segment (t := ()) rfl .shows (by simp))
  exact ⟨_, _, shows', rfl, by decide⟩

end Nachos.Console
