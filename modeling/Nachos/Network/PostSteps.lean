import Nachos.Network.PostOffice

/-! What one step can do to the mail: how packets carry it, where each thread can
stand, and the list of moves that every later argument goes through. -/
namespace Nachos.PostOffice
open Effects Threads

/-! ## Packets carry mails -/

/-- The bytes are a mail header followed by the data. -/
structure Carries (bytes : Memory) (mailHdr : MailHeader) (data : Memory) : Prop where
  header : MailHeader.read bytes = mailHdr
  data (i : Nat) (inside : i < mailHdr.length.toNat) : bytes (12 + i) = data i

theorem MailHeader.read_congr {bytes bytes' : Memory} (same : ∀ i, i < 12 → bytes i = bytes' i) :
    MailHeader.read bytes = MailHeader.read bytes' := by
  have dest : bytes.word 0 = bytes'.word 0 := Memory.word_congr fun k _ => same _ (by omega)
  have reply : bytes.word 4 = bytes'.word 4 := Memory.word_congr fun k _ => same _ (by omega)
  have length : bytes.word 8 = bytes'.word 8 := Memory.word_congr fun k _ => same _ (by omega)
  simp [MailHeader.read, dest, reply, length]

@[simp] theorem MailHeader.read_write (bytes : Memory) (hdr : MailHeader) :
    MailHeader.read (MailHeader.write bytes hdr) = hdr := by
  unfold MailHeader.read MailHeader.write
  rw [Memory.word_setWord_of_disjoint (by omega), Memory.word_setWord_of_disjoint (by omega),
    Memory.word_setWord, Memory.word_setWord_of_disjoint (by omega), Memory.word_setWord,
    Memory.word_setWord]

theorem PacketHeader.read_congr {bytes bytes' : Memory} (same : ∀ i, i < 12 → bytes i = bytes' i) :
    PacketHeader.read bytes = PacketHeader.read bytes' := by
  have dest : bytes.word 0 = bytes'.word 0 := Memory.word_congr fun k _ => same _ (by omega)
  have sender : bytes.word 4 = bytes'.word 4 := Memory.word_congr fun k _ => same _ (by omega)
  have length : bytes.word 8 = bytes'.word 8 := Memory.word_congr fun k _ => same _ (by omega)
  simp [PacketHeader.read, dest, sender, length]

@[simp] theorem PacketHeader.read_write (bytes : Memory) (hdr : PacketHeader) :
    PacketHeader.read (PacketHeader.write bytes hdr) = hdr := by
  unfold PacketHeader.read PacketHeader.write
  rw [Memory.word_setWord_of_disjoint (by omega), Memory.word_setWord_of_disjoint (by omega),
    Memory.word_setWord, Memory.word_setWord_of_disjoint (by omega), Memory.word_setWord,
    Memory.word_setWord]

/-- Only the header and as many bytes of data as it tells matter. -/
theorem Carries.congr {bytes bytes' : Memory} {mailHdr : MailHeader} {data : Memory}
    (carries : Carries bytes mailHdr data)
    (same : ∀ i, i < 12 + mailHdr.length.toNat → bytes' i = bytes i) :
    Carries bytes' mailHdr data where
  header := (MailHeader.read_congr fun i inside => same i (by omega)).trans carries.header
  data i inside := (same _ (by omega)).trans (carries.data i inside)

theorem concatenate_carries (fresh : Memory) (mailHdr : MailHeader) (data : Memory) :
    Carries (concatenate fresh mailHdr data) mailHdr data where
  header := by
    rw [← MailHeader.read_write fresh mailHdr]
    apply MailHeader.read_congr
    intro i inside
    rw [concatenate, Memory.splice_outside (.inl inside), MailHeader.read_write]
  data i inside := by
    rw [concatenate, Memory.splice_inside (by omega) (by omega), Nat.add_sub_cancel_left]

/-- The length of a packet does not wrap around. -/
theorem outgoing_length {mailHdr : MailHeader} (short : mailHdr.length.toNat ≤ MaxMailSize)
    (m dest : Address) : (outgoing m dest mailHdr).length.toNat = 12 + mailHdr.length.toNat := by
  have bound : mailHdr.length.toNat ≤ 40 := short
  have twelve : (12 : BitVec 32).toNat = 12 := rfl
  simp only [outgoing, BitVec.toNat_add, twelve]
  omega

theorem outgoing_nonempty {mailHdr : MailHeader} (short : mailHdr.length.toNat ≤ MaxMailSize)
    (m dest : Address) : (outgoing m dest mailHdr).length ≠ 0 := by
  intro zero
  have length := outgoing_length short m dest
  have none : (0 : BitVec 32).toNat = 0 := rfl
  rw [zero, none] at length
  omega

theorem frame_header (fresh : Memory) (hdr : PacketHeader) (data : Memory) :
    PacketHeader.read (frame fresh hdr data) = hdr := by
  rw [← PacketHeader.read_write fresh hdr]
  apply PacketHeader.read_congr
  intro i inside
  rw [frame, Memory.splice_outside (.inl inside), PacketHeader.read_write]

/-- A datagram that carries a letter of the machine `sender` to `m`. -/
structure Wire.Holds (wire : Wire) (sender m : Address) : Prop where
  posted : wire.letter.sender = sender
  dest : wire.letter.dest = m
  header : PacketHeader.read wire.bytes = outgoing sender m wire.letter.header
  carries : Carries (fun i => wire.bytes (12 + i)) wire.letter.header wire.letter.data

theorem framed_holds {letter : Letter} {buffer : Memory}
    (short : letter.header.length.toNat ≤ MaxMailSize)
    (carries : Carries buffer letter.header letter.data) (fresh : Memory) :
    (letter.framed fresh (outgoing letter.sender letter.dest letter.header) buffer).Holds
      letter.sender letter.dest where
  posted := rfl
  dest := rfl
  header := frame_header _ _ _
  carries := by
    apply carries.congr
    intro i inside
    have length := outgoing_length short letter.sender letter.dest
    show (PacketHeader.write _ _).splice _ _ _ _ = _
    rw [Memory.splice_inside (by omega) (by omega), Nat.add_sub_cancel_left]

/-! ## Where a thread can stand -/

/-- The stages of the postal worker and of the other threads. A sender's buffer
carries what it was called with. -/
inductive Fits (numBoxes : Nat) {I : Type} : ThreadId I → Stage → Prop where
  | born {m} : Fits numBoxes (m, none) (.fresh .idle)
  | idle {m} : Fits numBoxes (m, none) (.at .idle)
  | awaiting {m} : Fits numBoxes (m, none) (.inP (.plain (.available m)) .fetching)
  | fetching {m} : Fits numBoxes (m, none) (.at .fetching)
  | entering {m mail} :
      Fits numBoxes (m, none) (.inP (.ofLock (.box m mail.mailHdr.dest)) (.putting mail))
  | putting {m mail} : Fits numBoxes (m, none) (.at (.putting mail))
  | putDone {m b} : Fits numBoxes (m, none) (.at (.putDone b))
  | new {m i} : Fits numBoxes (m, some i) (.fresh .outside)
  | outside {m i} : Fits numBoxes (m, some i) (.at .outside)
  | queueing {m i dest mailHdr data buffer} (short : mailHdr.length.toNat ≤ MaxMailSize)
      (legal : legalBox numBoxes mailHdr.dest = true) (carries : Carries buffer mailHdr data) :
      Fits numBoxes (m, some i) (.inP (.ofLock (.send m)) (.sending dest mailHdr data buffer))
  | sending {m i dest mailHdr data buffer} (short : mailHdr.length.toNat ≤ MaxMailSize)
      (legal : legalBox numBoxes mailHdr.dest = true) (carries : Carries buffer mailHdr data) :
      Fits numBoxes (m, some i) (.at (.sending dest mailHdr data buffer))
  | sleeping {m i} : Fits numBoxes (m, some i) (.inP (.plain (.sent m)) .sendDone)
  | sendDone {m i} : Fits numBoxes (m, some i) (.at .sendDone)
  | asking {m i b into} : Fits numBoxes (m, some i) (.inP (.ofLock (.box m b)) (.receiving b into))
  | receiving {m i b into} : Fits numBoxes (m, some i) (.at (.receiving b into))
  | waiting {m i b into} :
      Fits numBoxes (m, some i) (.inWait (m, b) (.box m b) (.receiving b into))
  | finished {m i} : Fits numBoxes (m, some i) .finished

/-- The worker has passed `messageAvailable->P()` and fetches next. -/
def fetches : Stage → Bool
  | .at .fetching => true
  | _ => false

/-- The mail that the worker has fetched and not put into its box. -/
def hand : Stage → Option Mail
  | .at (.putting mail) | .inP _ (.putting mail) => some mail
  | _ => none

@[simp] theorem hand_fetching : hand (.at .fetching) = none := rfl

@[simp] theorem hand_putting (mail : Mail) : hand (.at (.putting mail)) = some mail := rfl

@[simp] theorem hand_putDone (b : BitVec 32) : hand (.at (.putDone b)) = none := rfl

/-! ## Moves -/

/-- What one step does to the mail and to `messageAvailable`. -/
inductive Act (numBoxes : Nat) {I : Type} [DecidableEq I] : View I → View I → Prop where
  | still {v} : Act numBoxes v v
  /-- A thread moves on, and neither the mail nor `messageAvailable` changes. -/
  | aside {v t stage value} (fits : Fits numBoxes t stage) (hands : hand stage = hand (v.stage t))
      (before : fetches (v.stage t) = false) (after : fetches stage = false)
      (available : ∀ m, value (.plain (.available m)) = v.value (.plain (.available m))) :
      Act numBoxes v
        { stage := Function.update v.stage t stage, value := value, memory := v.memory }
  | passes {v m} (empty : hand (v.stage (m, none)) = none)
      (before : fetches (v.stage (m, none)) = false) :
      Act numBoxes v ((v.add (.plain (.available m)) (-1)).setStage (m, none) (.at .fetching))
  | fetches {v : View I} {m stage value letter fresh}
      (fits : Fits (I := I) numBoxes (m, none) stage) (stands : v.stage (m, none) = .at .fetching)
      (recorded : (v.memory.office m).buffered.getD letter = letter)
      (hands : hand stage = some ((v.memory.office m).delivery letter fresh))
      (after : PostOffice.fetches stage = false)
      (available : ∀ m, value (.plain (.available m)) = v.value (.plain (.available m))) :
      Act numBoxes v
        { stage := Function.update v.stage (m, none) stage, value := value
          memory := v.memory.setOffice m ((v.memory.office m).fetch numBoxes) }
  | puts {v m mail} (stands : v.stage (m, none) = .at (.putting mail)) :
      Act numBoxes v
        { stage := Function.update v.stage (m, none) (.at (.putDone mail.mailHdr.dest))
          value := v.value, memory := v.memory.setOffice m ((v.memory.office m).put mail) }
  | sends {v m i stage value letter wires dest mailHdr data buffer}
      (fits : Fits numBoxes (m, some i) stage) (hands : hand stage = none)
      (after : PostOffice.fetches stage = false)
      (stands : v.stage (m, some i) = .at (.sending dest mailHdr data buffer))
      (recorded : letter = (v.memory.office m).posted m dest mailHdr data)
      (sent : wires = [] ∨ ∃ fresh, wires = [letter.framed fresh (outgoing m dest mailHdr) buffer])
      (available : ∀ m, value (.plain (.available m)) = v.value (.plain (.available m))) :
      Act numBoxes v
        { stage := Function.update v.stage (m, some i) stage, value := value
          memory := (v.memory.setOffice m
            ((v.memory.office m).send m (outgoing m dest mailHdr) letter)).setChannel m dest
              (v.memory.channel m dest ++ wires) }
  | gets {v m i b into mail rest value} (stands : v.stage (m, some i) = .at (.receiving b into))
      (first : (v.memory.office m).boxes b = mail :: rest)
      (available : ∀ m, value (.plain (.available m)) = v.value (.plain (.available m))) :
      Act numBoxes v
        { stage := Function.update v.stage (m, some i) (.at .outside), value := value
          memory := v.memory.setOffice m ((v.memory.office m).get b mail rest into) }
  | polls {v m sender wire rest} (empty : (v.memory.office m).inHdr.length = 0)
      (arrived : v.memory.channel sender m = wire :: rest) :
      Act numBoxes v ({ v with
        memory := (v.memory.setOffice m ((v.memory.office m).poll m wire)).setChannel sender m rest
        }.add (.plain (.available m)) 1)
  | sendDone {v m value}
      (available : ∀ m, value (.plain (.available m)) = v.value (.plain (.available m))) :
      Act numBoxes v
        { v with value := value, memory := v.memory.setOffice m (v.memory.office m).sendDone }
  | drops {v sender m before wire after}
      (under : v.memory.channel sender m = before ++ wire :: after) :
      Act numBoxes v { v with memory := v.memory.setChannel sender m (before ++ after) }

section
variable {I : Type} {numBoxes : Nat} {v v' : View I}

private theorem add_lock (v : View I) (l : LockId) (amount : Int) (m : Address) :
    (v.add (.ofLock l) amount).value (.plain (.available m)) = v.value (.plain (.available m)) := by
  simp [View.add]

private theorem add_sent (v : View I) (s : Address) (amount : Int) (m : Address) :
    (v.add (.plain (.sent s)) amount).value (.plain (.available m)) =
      v.value (.plain (.available m)) := by
  simp [View.add]

/-- A mail that is lost leaves its channel as it was. -/
private theorem setChannel_nothing (net : Net) (m dest : Address) (office : Office) :
    (net.setOffice m office).setChannel m dest (net.channel m dest ++ []) =
      net.setOffice m office := by
  simp [Net.setChannel, Net.setOffice]

variable [DecidableEq I]

theorem act_of_step (fits : ∀ t, Fits numBoxes t (v.stage t))
    (step : View.Step (code numBoxes I) v v') : Act numBoxes v v' := by
  cases step with
  | still => exact .still
  | goes stands does quiet =>
    cases does <;> cases quiet
    · exact .puts stands
    · exact .aside .outside (by rw [stands]) (by rw [stands]; rfl) rfl fun _ => rfl
  | takes stands does takes nonzero =>
    cases does with
    | awaits =>
      cases takes
      exact .passes (by rw [stands]; rfl) (by rw [stands]; rfl)
    | fetches letter fresh recorded =>
      cases takes
      exact .fetches .putting stands recorded rfl rfl (add_lock v _ _)
    | send dest mailHdr data fresh short legal =>
      cases takes
      exact .aside (.sending short legal (concatenate_carries _ _ _)) (by rw [stands]; rfl)
        (by rw [stands]; rfl) rfl (add_lock v _ _)
    | transmits fresh letter recorded =>
      cases takes
      exact .sends .sendDone rfl rfl stands recorded (.inr ⟨fresh, rfl⟩) (add_sent v _ _)
    | @loses m _ _ _ _ _ _ letter recorded =>
      cases takes
      have lost : Act numBoxes v _ :=
        .sends .sendDone rfl rfl stands recorded (.inl rfl) (add_sent v m (-1))
      rwa [setChannel_nothing] at lost
    | receive b into legal =>
      cases takes
      exact .aside .receiving (by rw [stands]; rfl) (by rw [stands]; rfl) rfl (add_lock v _ _)
    | _ => cases takes
  | sleeps stands does takes zero =>
    cases does with
    | awaits =>
      cases takes
      exact .aside .awaiting (by rw [stands]; rfl) (by rw [stands]; rfl) rfl fun _ => rfl
    | fetches letter fresh recorded =>
      cases takes
      exact .fetches .entering stands recorded rfl rfl fun _ => rfl
    | send dest mailHdr data fresh short legal =>
      cases takes
      exact .aside (.queueing short legal (concatenate_carries _ _ _)) (by rw [stands]; rfl)
        (by rw [stands]; rfl) rfl fun _ => rfl
    | transmits fresh letter recorded =>
      cases takes
      exact .sends .sleeping rfl rfl stands recorded (.inr ⟨fresh, rfl⟩) fun _ => rfl
    | loses letter recorded =>
      cases takes
      have lost : Act numBoxes v _ :=
        .sends .sleeping rfl rfl stands recorded (.inl rfl) fun _ => rfl
      rwa [setChannel_nothing] at lost
    | receive b into legal =>
      cases takes
      exact .aside .asking (by rw [stands]; rfl) (by rw [stands]; rfl) rfl fun _ => rfl
    | _ => cases takes
  | retakes stands nonzero =>
    rename_i t next id
    have stage := fits t
    rw [stands] at stage
    cases stage with
    | awaiting => exact .passes (by rw [stands]; rfl) (by rw [stands]; rfl)
    | entering =>
      exact .aside .putting (by rw [stands]; rfl) (by rw [stands]; rfl) rfl (add_lock v _ _)
    | queueing short legal carries =>
      exact .aside (.sending short legal carries) (by rw [stands]; rfl) (by rw [stands]; rfl) rfl
        (add_lock v _ _)
    | sleeping =>
      exact .aside .sendDone (by rw [stands]; rfl) (by rw [stands]; rfl) rfl (add_sent v _ _)
    | asking =>
      exact .aside .receiving (by rw [stands]; rfl) (by rw [stands]; rfl) rfl (add_lock v _ _)
  | raises stands does raises =>
    cases does with
    | putAway =>
      cases raises
      exact .aside .idle (by rw [stands]; rfl) (by rw [stands]; rfl) rfl (add_lock v _ _)
    | sent =>
      cases raises
      exact .aside .outside (by rw [stands]; rfl) (by rw [stands]; rfl) rfl (add_lock v _ _)
    | gets first =>
      cases raises
      exact .gets stands first (add_lock v _ _)
    | _ => cases raises
  | waits stands does =>
    cases does
    exact .aside .waiting (by rw [stands]; rfl) (by rw [stands]; rfl) rfl (add_lock v _ _)
  | returns stands nonzero =>
    rename_i t c l next
    have stage := fits t
    rw [stands] at stage
    cases stage
    exact .aside .receiving (by rw [stands]; rfl) (by rw [stands]; rfl) rfl (add_lock v _ _)
  | reacquires stands zero =>
    rename_i t c l next
    have stage := fits t
    rw [stands] at stage
    cases stage
    exact .aside .asking (by rw [stands]; rfl) (by rw [stands]; rfl) rfl fun _ => rfl
  | forks stands does fresh => cases does
  | finishes stands does =>
    cases does
    exact .aside .finished (by rw [stands]; rfl) (by rw [stands]; rfl) rfl fun _ => rfl
  | interrupt fires =>
    cases fires with
    | drops under => exact .drops under
  | interrupts fires =>
    cases fires with
    | poll empty arrived => exact .polls empty arrived
    | @sendDone m pending => exact .sendDone (add_sent v m 1)

/-- Every thread stays where it can stand. -/
theorem Act.fits (act : Act numBoxes v v') (fits : ∀ t, Fits numBoxes t (v.stage t)) :
    ∀ t, Fits numBoxes t (v'.stage t) := by
  have moved : ∀ {t stage}, Fits numBoxes t stage →
      ∀ t', Fits numBoxes t' (Function.update v.stage t stage t') := by
    intro t stage new t'
    by_cases same : t' = t
    · subst same
      simpa using new
    · simpa [same] using fits t'
  cases act with
  | still => exact fits
  | aside new hands before after available => exact moved new
  | passes empty before => exact moved .fetching
  | fetches new stands recorded hands after available => exact moved new
  | puts stands => exact moved .putDone
  | sends new hands after stands recorded sent available => exact moved new
  | gets stands first available => exact moved .outside
  | polls empty arrived => exact fits
  | sendDone available => exact fits
  | drops under => exact fits

end

end Nachos.PostOffice
