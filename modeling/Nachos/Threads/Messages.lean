import Mathlib.Logic.Function.Basic
import Mathlib.Data.List.Nodup
import Mathlib.Data.Fintype.Card
import Mathlib.Data.List.FinRange
import Nachos.Effects.Bytes

/-! Messages between threads (`Thread::SendMsg`, `Thread::GetMsg`): a table of
twenty slots, the first free one for a new message, the first one with the right
destination for the receiver.

The table stands for a queue of messages as long as a message never goes into a
slot below one that still holds a message for the same thread. -/
namespace Nachos.Messages
open Effects

/-! ## The table -/

/-- A C string without its `NUL`. -/
structure Text where
  bytes : List UInt8
  nonzero : ∀ c ∈ bytes, c ≠ 0

def Text.length (text : Text) : Nat := text.bytes.length

/-- The bytes of a string and what is behind them. -/
def Text.chars (text : Text) : Memory := fun k => text.bytes.getD k 0

/-- `strncpy(destination, source, n)`: behind a `NUL` all bytes are 0. -/
def strncpy (destination source : Memory) (n : Nat) : Memory := fun k =>
  if k < n then
    if (List.range (k + 1)).any fun j => source j == 0 then 0 else source k
  else destination k

structure Message where
  valid : Bool
  data : Memory
  size : Nat
  des : Int

/-- The global `msg`. -/
abbrev Table := Fin 20 → Message

/-- `Thread::SendMsg`, with the text copied into the slot's `data`. -/
def SendMsg (msg : Table) (buffer : Text) (des : Int) : Bool × Table :=
  match (List.finRange 20).find? fun i => !(msg i).valid with
  | none => (false, msg)
  | some i =>
    (true, Function.update msg i
      { data := strncpy (msg i).data buffer.chars buffer.length
        des := des
        size := buffer.length
        valid := true })

/-- `Thread::GetMsg` of the thread with this `tid`. -/
def GetMsg (msg : Table) (tid : Int) (buffer : Memory) : Bool × Memory × Table :=
  match (List.finRange 20).find? fun i => (msg i).valid && decide ((msg i).des = tid) with
  | none => (false, buffer, msg)
  | some i =>
    (true, strncpy buffer (msg i).data (msg i).size,
      Function.update msg i { msg i with valid := false })

inductive Call where
  | send (buffer : Text) (des : Int)
  | get (tid : Int) (buffer : Memory)

/-- What a call returns, and the receiver's buffer. -/
inductive Reply where
  | sent (success : Bool)
  | got (success : Bool) (buffer : Memory)

def perform (msg : Table) : Call → Reply × Table
  | .send buffer des => (.sent (SendMsg msg buffer des).1, (SendMsg msg buffer des).2)
  | .get tid buffer =>
    (.got (GetMsg msg tid buffer).1 (GetMsg msg tid buffer).2.1, (GetMsg msg tid buffer).2.2)

def performAll (msg : Table) : List Call → List Reply × Table
  | [] => ([], msg)
  | call :: rest =>
    let (reply, msg) := perform msg call
    let (replies, msg) := performAll msg rest
    (reply :: replies, msg)

/-! ## The queue it stands for -/

/-- The outstanding messages in the order of sending. -/
abbrev Queue := List (Text × Int)

def Queue.perform (queue : Queue) : Call → Reply × Queue
  | .send buffer des =>
    if queue.length = 20 then (.sent false, queue) else (.sent true, queue ++ [(buffer, des)])
  | .get tid buffer =>
    match queue.find? fun message => decide (message.2 = tid) with
    | none => (.got false buffer, queue)
    | some message =>
      (.got true (buffer.splice 0 message.1.length message.1.chars),
        queue.eraseP fun message => decide (message.2 = tid))

def Queue.performAll (queue : Queue) : List Call → List Reply × Queue
  | [] => ([], queue)
  | call :: rest =>
    let (reply, queue) := queue.perform call
    let (replies, queue) := performAll queue rest
    (reply :: replies, queue)

/-- The messages accepted and the messages delivered by a sequence of calls. -/
def Queue.history (queue : Queue) : List Call → Queue × Queue
  | [] => ([], [])
  | .send buffer des :: rest =>
    let (accepted, delivered) := Queue.history (queue.perform (.send buffer des)).2 rest
    (if queue.length = 20 then accepted else (buffer, des) :: accepted, delivered)
  | .get tid buffer :: rest =>
    let (accepted, delivered) := Queue.history (queue.perform (.get tid buffer)).2 rest
    (accepted, (queue.find? fun message => decide (message.2 = tid)).toList ++ delivered)

/-- A new message does not go into a slot below one that holds a message for the same
thread. -/
def Call.Above (msg : Table) : Call → Prop
  | .send _ des => ∀ i, (msg i).valid = true → (msg i).des = des → ∀ j, j < i → (msg j).valid = true
  | .get _ _ => True

/-- So it is with every call of a sequence. -/
def AllAbove (msg : Table) : List Call → Prop
  | [] => True
  | call :: rest => call.Above msg ∧ AllAbove (perform msg call).2 rest

/-! ## Slots and messages -/

/-- The slot holds this message. -/
def Holds (msg : Table) (i : Fin 20) (message : Text × Int) : Prop :=
  (msg i).valid = true ∧ (msg i).size = message.1.length ∧ (msg i).des = message.2 ∧
    ∀ k, k < message.1.length → (msg i).data k = message.1.chars k

/-- The outstanding messages with their slots, in the order of sending. -/
structure Stands (msg : Table) (letters : List (Fin 20 × (Text × Int))) : Prop where
  nodup : (letters.map Prod.fst).Nodup
  valid (i : Fin 20) : (msg i).valid = true ↔ i ∈ letters.map Prod.fst
  holds : ∀ letter ∈ letters, Holds msg letter.1 letter.2
  rising : letters.Pairwise fun earlier later => earlier.2.2 = later.2.2 → earlier.1 < later.1

theorem strncpy_text (destination source : Memory) (text : Text)
    (same : ∀ k, k < text.length → source k = text.chars k) :
    strncpy destination source text.length = destination.splice 0 text.length text.chars := by
  funext k
  unfold strncpy Memory.splice
  by_cases inside : k < text.length
  · have clean : ((List.range (k + 1)).any fun j => source j == 0) = false := by
      apply List.any_eq_false.mpr
      intro j bound
      have below : j < text.bytes.length := by
        have := List.mem_range.mp bound
        have : k < text.bytes.length := inside
        omega
      have nonzero := text.nonzero _ (List.getElem_mem below)
      rw [same j below]
      simpa [Text.chars, below] using nonzero
    rw [if_pos inside, clean, if_neg (by decide), if_pos (by omega), same k inside]
    rfl
  · rw [if_neg inside, if_neg (by omega)]

theorem Holds.congr {msg msg' : Table} {i : Fin 20} {message : Text × Int} (holds : Holds msg i message)
    (same : msg' i = msg i) : Holds msg' i message := by
  unfold Holds
  rw [same]
  exact holds

/-- A loop over the slots stops at the first one that passes the test. -/
theorem first_slot {test : Fin 20 → Bool} {i : Fin 20} (found : (List.finRange 20).find? test = some i) :
    test i = true ∧ ∀ j, j < i → test j = false := by
  obtain ⟨passes, k, inside, here, earlier⟩ := List.find?_eq_some_iff_getElem.mp found
  refine ⟨passes, fun j below => ?_⟩
  rw [List.getElem_finRange] at here
  have position : (i : Nat) = k := by
    rw [← here]
    rfl
  have fails := earlier j (by omega)
  rw [List.getElem_finRange] at fails
  simpa using fails

variable {msg : Table} {letters : List (Fin 20 × (Text × Int))}

/-! ## Sending -/

/-- All slots are taken when twenty messages are outstanding. -/
theorem Stands.full_iff (stands : Stands msg letters) :
    (∀ i, (msg i).valid = true) ↔ letters.length = 20 := by
  have card := List.toFinset_card_of_nodup stands.nodup
  rw [List.length_map] at card
  constructor
  · intro full
    have all : (letters.map Prod.fst).toFinset = Finset.univ := by
      ext i
      have inside := (stands.valid i).mp (full i)
      exact iff_of_true (List.mem_toFinset.mpr inside) (Finset.mem_univ i)
    rw [← card, all]
    rfl
  · intro many i
    have all : (letters.map Prod.fst).toFinset = Finset.univ := by
      apply Finset.eq_univ_of_card
      rw [card, many]
      rfl
    refine (stands.valid i).mpr (List.mem_toFinset.mp ?_)
    rw [all]
    exact Finset.mem_univ i

theorem Stands.refuses (stands : Stands msg letters) (many : letters.length = 20) (buffer : Text)
    (des : Int) : SendMsg msg buffer des = (false, msg) := by
  have full := stands.full_iff.mpr many
  have none : (List.finRange 20).find? (fun i => !(msg i).valid) = none := by
    apply List.find?_eq_none.mpr
    intro i _
    simp [full i]
  unfold SendMsg
  rw [none]

/-- The slot of a message that has just been sent. -/
def written (message : Message) (buffer : Text) (des : Int) : Message where
  data := strncpy message.data buffer.chars buffer.length
  des := des
  size := buffer.length
  valid := true

/-- The message goes into the first free slot. -/
theorem Stands.accepts (stands : Stands msg letters) (few : letters.length ≠ 20) (buffer : Text)
    (des : Int) : ∃ i, (msg i).valid = false ∧ (∀ j, j < i → (msg j).valid = true) ∧
      SendMsg msg buffer des = (true, Function.update msg i (written (msg i) buffer des)) := by
  cases found : (List.finRange 20).find? fun i => !(msg i).valid with
  | none =>
    refine absurd (stands.full_iff.mp fun i => ?_) few
    have taken := List.find?_eq_none.mp found i (List.mem_finRange i)
    simpa using taken
  | some i =>
    obtain ⟨free, earlier⟩ := first_slot found
    refine ⟨i, by simpa using free, fun j below => ?_, by unfold SendMsg; rw [found]; rfl⟩
    simpa using earlier j below

theorem holds_written (message : Message) (i : Fin 20) (buffer : Text) (des : Int) :
    Holds (Function.update msg i (written message buffer des)) i (buffer, des) := by
  unfold Holds
  rw [Function.update_self]
  refine ⟨rfl, rfl, rfl, fun k inside => ?_⟩
  have inside : k < buffer.length := inside
  have copied := strncpy_text message.data buffer.chars buffer fun _ _ => rfl
  show strncpy message.data buffer.chars buffer.length k = buffer.chars k
  rw [copied, Memory.splice_inside (Nat.zero_le k) (by omega)]
  rfl

theorem Stands.sends (stands : Stands msg letters) {buffer : Text} {des : Int} {i : Fin 20}
    (free : (msg i).valid = false) (first : ∀ j, j < i → (msg j).valid = true)
    (above : Call.Above msg (.send buffer des)) :
    Stands (Function.update msg i (written (msg i) buffer des)) (letters ++ [(i, (buffer, des))]) := by
  have absent : i ∉ letters.map Prod.fst := by
    rw [← stands.valid i, free]
    decide
  have other : ∀ letter ∈ letters, letter.1 ≠ i := by
    rintro letter inside rfl
    exact absent (List.mem_map_of_mem inside)
  refine ⟨?_, fun j => ?_, fun letter inside => ?_, ?_⟩
  · rw [List.map_append]
    refine List.nodup_append.mpr ⟨stands.nodup, List.nodup_singleton i, fun j inside k last same => ?_⟩
    rw [same, List.mem_singleton.mp last] at inside
    exact absent inside
  · rw [List.map_append, List.mem_append, ← stands.valid j]
    by_cases here : j = i
    · subst here
      simp [written]
    · simp [here]
  · obtain old | last := List.mem_append.mp inside
    · exact (stands.holds letter old).congr (Function.update_of_ne (other letter old) _ _)
    · rw [List.mem_singleton.mp last]
      exact holds_written (msg i) i buffer des
  · refine List.pairwise_append.mpr ⟨stands.rising, List.pairwise_singleton _ _, ?_⟩
    intro letter old last inside same
    rw [List.mem_singleton.mp inside] at same ⊢
    obtain ⟨valid, -, to_des, -⟩ := stands.holds letter old
    -- A lower free slot would be one below a message for the same thread.
    by_contra low
    have taken := above letter.1 valid (to_des.trans same) i
      (lt_of_le_of_ne (not_lt.mp low) (Ne.symm (other letter old)))
    rw [free] at taken
    cases taken

/-! ## Receiving -/

theorem Stands.misses (stands : Stands msg letters) {tid : Int}
    (none : ∀ letter ∈ letters, letter.2.2 ≠ tid) (buffer : Memory) :
    GetMsg msg tid buffer = (false, buffer, msg) := by
  have nobody : (List.finRange 20).find?
      (fun i => (msg i).valid && decide ((msg i).des = tid)) = Option.none := by
    apply List.find?_eq_none.mpr
    intro i _ test
    rw [Bool.and_eq_true, decide_eq_true_eq] at test
    obtain ⟨letter, inside, rfl⟩ := List.mem_map.mp ((stands.valid i).mp test.1)
    exact none letter inside ((stands.holds letter inside).2.2.1.symm.trans test.2)
  unfold GetMsg
  rw [nobody]

/-- The first slot with a message for the thread has the oldest one. -/
theorem Stands.finds {before after : List (Fin 20 × (Text × Int))} {letter : Fin 20 × (Text × Int)}
    (stands : Stands msg (before ++ letter :: after)) {tid : Int} (mine : letter.2.2 = tid)
    (others : ∀ earlier ∈ before, earlier.2.2 ≠ tid) :
    (List.finRange 20).find? (fun i => (msg i).valid && decide ((msg i).des = tid)) =
      some letter.1 := by
  have member : letter ∈ before ++ letter :: after := by simp
  obtain ⟨valid, -, des, -⟩ := stands.holds letter member
  have passes : ((msg letter.1).valid && decide ((msg letter.1).des = tid)) = true := by
    simp [valid, des, mine]
  cases found : (List.finRange 20).find? fun i => (msg i).valid && decide ((msg i).des = tid) with
  | none => exact absurd passes (List.find?_eq_none.mp found letter.1 (List.mem_finRange _))
  | some i =>
    obtain ⟨test, earlier⟩ := first_slot found
    rw [Bool.and_eq_true, decide_eq_true_eq] at test
    obtain ⟨other, inside, rfl⟩ := List.mem_map.mp ((stands.valid i).mp test.1)
    have same : other.2.2 = tid := (stands.holds other inside).2.2.1.symm.trans test.2
    obtain old | rest := List.mem_append.mp inside
    · exact absurd same (others other old)
    · obtain rfl | later := List.mem_cons.mp rest
      · rfl
      · have order := (List.pairwise_append.mp stands.rising).2.1
        have below := (List.pairwise_cons.mp order).1 other later (mine.trans same.symm)
        exact absurd passes (by rw [earlier letter.1 below]; decide)

theorem Stands.receives {before after : List (Fin 20 × (Text × Int))} {letter : Fin 20 × (Text × Int)}
    (stands : Stands msg (before ++ letter :: after)) :
    Stands (Function.update msg letter.1 { msg letter.1 with valid := false }) (before ++ after) := by
  have nodup := stands.nodup
  rw [List.map_append, List.map_cons, List.nodup_middle] at nodup
  obtain ⟨absent, nodup⟩ := List.nodup_cons.mp nodup
  rw [← List.map_append] at absent nodup
  have kept : before ++ after ⊆ before ++ letter :: after := by
    intro other inside
    simp only [List.mem_append, List.mem_cons] at inside ⊢
    tauto
  have other : ∀ l ∈ before ++ after, l.1 ≠ letter.1 := by
    intro l inside same
    exact absent (same ▸ List.mem_map_of_mem inside)
  refine ⟨nodup, fun j => ?_, fun l inside => ?_, ?_⟩
  · by_cases here : j = letter.1
    · subst here
      rw [Function.update_self]
      exact iff_of_false (fun impossible => by cases impossible) absent
    · rw [Function.update_of_ne here, stands.valid j]
      simp only [List.map_append, List.map_cons, List.mem_append, List.mem_cons]
      tauto
  · exact (stands.holds l (kept inside)).congr (Function.update_of_ne (other l inside) _ _)
  · exact stands.rising.sublist (List.Sublist.append_left (List.sublist_cons_self _ _) _)

/-! ## Every sequence of calls -/

/-- The call failed. -/
def Reply.Failed : Reply → Prop
  | .sent success | .got success _ => success = false

theorem Stands.perform (stands : Stands msg letters) {call : Call} (above : call.Above msg) :
    (∃ letters', Stands (perform msg call).2 letters' ∧
      letters'.map Prod.snd = (Queue.perform (letters.map Prod.snd) call).2) ∧
    (perform msg call).1 = (Queue.perform (letters.map Prod.snd) call).1 ∧
    ((perform msg call).1.Failed → (perform msg call).2 = msg) := by
  cases call with
  | send buffer des =>
    simp only [Messages.perform, Queue.perform, List.length_map]
    by_cases many : letters.length = 20
    · rw [if_pos many, stands.refuses many]
      exact ⟨⟨letters, stands, rfl⟩, rfl, fun _ => rfl⟩
    · obtain ⟨i, free, first, sent⟩ := stands.accepts many buffer des
      rw [if_neg many, sent]
      refine ⟨⟨_, stands.sends free first above, by simp⟩, rfl, fun failed => ?_⟩
      cases failed
  | get tid buffer =>
    simp only [Messages.perform, Queue.perform, List.find?_map, List.eraseP_map]
    cases found : letters.find? ((fun message : Text × Int => decide (message.2 = tid)) ∘ Prod.snd) with
    | none =>
      have nobody : ∀ letter ∈ letters, letter.2.2 ≠ tid := by
        intro letter inside
        simpa using List.find?_eq_none.mp found letter inside
      rw [stands.misses nobody]
      exact ⟨⟨letters, stands, rfl⟩, rfl, fun _ => rfl⟩
    | some letter =>
      obtain ⟨mine, before, after, rfl, others⟩ := List.find?_eq_some_iff_append.mp found
      have mine : letter.2.2 = tid := by simpa using mine
      have others : ∀ earlier ∈ before, earlier.2.2 ≠ tid := by
        intro earlier inside
        simpa using others earlier inside
      obtain ⟨-, size, -, data⟩ := stands.holds letter (by simp)
      have erased : (before ++ letter :: after).eraseP
          ((fun message : Text × Int => decide (message.2 = tid)) ∘ Prod.snd) = before ++ after := by
        rw [List.eraseP_append_right _ (by simpa using others),
          List.eraseP_cons_of_pos (by simpa using mine)]
      have got : GetMsg msg tid buffer = (true, buffer.splice 0 letter.2.1.length letter.2.1.chars,
          Function.update msg letter.1 { msg letter.1 with valid := false }) := by
        unfold GetMsg
        rw [stands.finds mine others]
        simp only [size, strncpy_text buffer _ letter.2.1 data]
      rw [got, erased]
      refine ⟨⟨_, stands.receives, rfl⟩, rfl, fun failed => ?_⟩
      cases failed

theorem Stands.performAll (stands : Stands msg letters) {calls : List Call} (above : AllAbove msg calls) :
    (∃ letters', Stands (performAll msg calls).2 letters' ∧
      letters'.map Prod.snd = (Queue.performAll (letters.map Prod.snd) calls).2) ∧
    (performAll msg calls).1 = (Queue.performAll (letters.map Prod.snd) calls).1 := by
  induction calls generalizing msg letters with
  | nil => exact ⟨⟨letters, stands, rfl⟩, rfl⟩
  | cons call rest ih =>
    obtain ⟨here, later⟩ := above
    obtain ⟨⟨letters₁, stands₁, queue₁⟩, reply, -⟩ := stands.perform here
    obtain ⟨⟨letters₂, stands₂, queue₂⟩, replies⟩ := ih stands₁ later
    rw [queue₁] at queue₂ replies
    exact ⟨⟨letters₂, stands₂, queue₂⟩, congrArg₂ List.cons reply replies⟩

/-- The messages to one thread are delivered in the order of sending, each once. -/
theorem Queue.in_order (queue : Queue) (calls : List Call) (des : Int) :
    (queue ++ (queue.history calls).1).filter (fun message => decide (message.2 = des)) =
      ((queue.history calls).2 ++ (queue.performAll calls).2).filter
        fun message => decide (message.2 = des) := by
  induction calls generalizing queue with
  | nil => simp [Queue.history, Queue.performAll]
  | cons call rest ih =>
    have later := ih (queue.perform call).2
    cases call with
    | send buffer to_ =>
      unfold Queue.perform at later
      by_cases many : queue.length = 20
      · simp only [if_pos many] at later
        simpa [Queue.history, Queue.performAll, Queue.perform, many] using later
      · simp only [if_neg many] at later
        simpa [Queue.history, Queue.performAll, Queue.perform, many] using later
    | get tid buffer =>
      cases found : queue.find? fun message => decide (message.2 = tid) with
      | none =>
        simp only [Queue.perform, found] at later
        simpa [Queue.history, Queue.performAll, Queue.perform, found] using later
      | some message =>
        obtain ⟨mine, before, after, rfl, others⟩ := List.find?_eq_some_iff_append.mp found
        have erased : (before ++ message :: after).eraseP
            (fun message => decide (message.2 = tid)) = before ++ after := by
          rw [List.eraseP_append_right _ (by simpa using others),
            List.eraseP_cons_of_pos (by simpa using mine)]
        simp only [Queue.perform, found, erased] at later
        simp only [Queue.history, Queue.performAll, Queue.perform, found, erased, Option.toList_some]
        have mine : message.2 = tid := by simpa using mine
        by_cases same : tid = des
        · have skipped : before.filter (fun message => decide (message.2 = des)) = [] := by
            apply List.filter_eq_nil_iff.mpr
            intro earlier inside
            simpa [same] using others earlier inside
          have passes : message.2 = des := mine.trans same
          simp only [List.filter_append, skipped, List.nil_append] at later
          simp [List.filter_append, skipped, passes, later]
        · have fails : message.2 ≠ des := fun to_des => same (mine.symm.trans to_des)
          simp only [List.filter_append, List.append_assoc] at later
          simp [List.filter_append, fails, later]

/-- The table answers every sequence of calls as the queue does; it holds the outstanding
messages, and a call that fails leaves it alone. -/
theorem messages_are_a_queue (empty : ∀ i, (msg i).valid = false) {calls : List Call}
    (above : AllAbove msg calls) :
    (performAll msg calls).1 = (Queue.performAll [] calls).1 ∧
    (∃ letters, Stands (performAll msg calls).2 letters ∧
      letters.map Prod.snd = (Queue.performAll [] calls).2) ∧
    (∀ call : Call, call.Above (performAll msg calls).2 →
      (perform (performAll msg calls).2 call).1.Failed →
      (perform (performAll msg calls).2 call).2 = (performAll msg calls).2) ∧
    ∀ des, ((Queue.history [] calls).1).filter (fun message => decide (message.2 = des)) =
      ((Queue.history [] calls).2 ++ (Queue.performAll [] calls).2).filter
        fun message => decide (message.2 = des) := by
  have stands : Stands msg [] := by
    refine ⟨List.nodup_nil, fun i => ?_, (fun _ inside => by cases inside), List.Pairwise.nil⟩
    simp [empty i]
  obtain ⟨⟨letters, stands, queue⟩, replies⟩ := stands.performAll above
  refine ⟨replies, ⟨letters, stands, queue⟩, fun call next => (stands.perform next).2.2, fun des => ?_⟩
  simpa using Queue.in_order [] calls des

/-! ## Two messages and a third -/

def emptyTable : Table := fun _ => { valid := false, data := fun _ => 0, size := 0, des := 0 }

def letterA : Text := ⟨[65], by simp⟩
def letterB : Text := ⟨[66], by simp⟩
def letterC : Text := ⟨[67], by simp⟩

theorem messages_are_a_queue_two : ∃ buffer,
    (performAll emptyTable [.send letterA 1, .send letterB 1, .get 1 fun _ => 0]).1 =
      [.sent true, .sent true, .got true buffer] ∧ buffer 0 = 65 := by
  have above : AllAbove emptyTable [.send letterA 1, .send letterB 1, .get 1 fun _ => 0] := by
    refine ⟨(fun i valid => by cases valid), fun i valid _ j below => ?_, trivial, trivial⟩
    -- Only the slot of the first message is taken, and nothing is below it.
    have only : ∀ i, ((perform emptyTable (.send letterA 1)).2 i).valid = true → i = 0 := by decide
    rw [only i valid] at below
    exact absurd below (Fin.not_lt_zero j)
  have results := messages_are_a_queue (fun _ => rfl) above
  exact ⟨_, results.1, rfl⟩

/-- A message that is sent into a slot that has become free overtakes an older one. -/
theorem message_is_overtaken : ∃ buffer buffer',
    (performAll emptyTable [.send letterA 1, .send letterB 1, .get 1 fun _ => 0, .send letterC 1,
      .get 1 fun _ => 0]).1 =
      [.sent true, .sent true, .got true buffer, .sent true, .got true buffer'] ∧ buffer' 0 = 67 ∧
    ∃ queue, (Queue.performAll [] [.send letterA 1, .send letterB 1, .get 1 fun _ => 0,
      .send letterC 1]).2 = queue ∧ queue.find? (fun message => decide (message.2 = 1)) =
        some (letterB, 1) :=
  ⟨_, _, rfl, rfl, _, rfl, rfl⟩

end Nachos.Messages
