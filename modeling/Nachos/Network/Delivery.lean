import Nachos.Network.PostSteps

/-! Every mail that `Receive` returns is one that was sent there, unchanged, at
most once and in the order of sending; and the one-packet buffer of the network
device is never overwritten and never fetched from when it is empty.

The letters of one sender to one mailbox form a line from the wire to the hands
of the receiver. A step adds a letter at its end, moves one along, or loses one,
and never changes the order. -/
namespace Nachos.PostOffice
open Effects Threads

variable {I : Type} {numBoxes : Nat}

/-! ## The contents of letters -/

/-- The letter was passed to `Send` as it is. -/
structure Letter.Genuine (numBoxes : Nat) (net : Net) (letter : Letter) : Prop where
  recorded : (net.office letter.sender).sent[letter.serial]? = some letter
  short : letter.header.length.toNat ≤ MaxMailSize
  legal : legalBox numBoxes letter.header.dest = true

/-- A mail on machine `m` is the letter it was made of. -/
structure Mail.Holds (mail : Mail) (m : Address) : Prop where
  dest : mail.letter.dest = m
  packet : mail.pktHdr = outgoing mail.letter.sender m mail.letter.header
  header : mail.mailHdr = mail.letter.header
  data (i : Nat) (inside : i < mail.letter.header.length.toNat) : mail.data i = mail.letter.data i

/-- What `Receive` returned is the letter it was made of. -/
structure Receipt.Holds (receipt : Receipt) (m : Address) : Prop where
  dest : receipt.letter.dest = m
  box : receipt.letter.header.dest = receipt.box
  packet : receipt.pktHdr = outgoing receipt.letter.sender m receipt.letter.header
  header : receipt.mailHdr = receipt.letter.header
  data (i : Nat) (inside : i < receipt.letter.header.length.toNat) :
    receipt.data i = receipt.letter.data i

/-- The packet in the network's buffer is the letter it was made of. -/
structure Buffers (inHdr : PacketHeader) (inbox : Memory) (m : Address) (letter : Letter) : Prop where
  dest : letter.dest = m
  header : inHdr = outgoing letter.sender m letter.header
  carries : Carries inbox letter.header letter.data

/-- Everything a machine keeps, and the mail its postal worker holds, are genuine
letters, and no `ASSERT` has failed. -/
structure Keeps (numBoxes : Nat) (net : Net) (m : Address) (office : Office)
    (held : Option Mail) : Prop where
  empty : office.buffered = none → office.inHdr.length = 0
  buffered (letter : Letter) : office.buffered = some letter →
    Buffers office.inHdr office.inbox m letter ∧ letter.Genuine numBoxes net
  hands (mail : Mail) : held = some mail → mail.Holds m ∧ mail.letter.Genuine numBoxes net
  boxes (b : BitVec 32) (mail : Mail) : mail ∈ office.boxes b →
    mail.Holds m ∧ mail.letter.Genuine numBoxes net ∧ mail.letter.header.dest = b
  received (receipt : Receipt) : receipt ∈ office.received →
    receipt.Holds m ∧ receipt.letter.Genuine numBoxes net
  free : office.sendBusy = false
  fine : office.failed = false

namespace Keeps

variable {net net' : Net} {m : Address} {office : Office} {held : Option Mail}

theorem mono (kept : Keeps numBoxes net m office held)
    (later : ∀ letter : Letter, letter.Genuine numBoxes net → letter.Genuine numBoxes net') :
    Keeps numBoxes net' m office held where
  empty := kept.empty
  buffered letter is := ⟨(kept.buffered letter is).1, later _ (kept.buffered letter is).2⟩
  hands mail is := ⟨(kept.hands mail is).1, later _ (kept.hands mail is).2⟩
  boxes b mail inside := by
    obtain ⟨holds, genuine, dest⟩ := kept.boxes b mail inside
    exact ⟨holds, later _ genuine, dest⟩
  received receipt inside :=
    ⟨(kept.received receipt inside).1, later _ (kept.received receipt inside).2⟩
  free := kept.free
  fine := kept.fine

/-- A packet is in the buffer exactly when its length is not zero. -/
theorem buffered_iff (kept : Keeps numBoxes net m office held) :
    office.inHdr.length = 0 ↔ office.buffered = none := by
  refine ⟨fun zero => ?_, kept.empty⟩
  cases shape : office.buffered with
  | none => rfl
  | some letter =>
    obtain ⟨buffers, genuine⟩ := kept.buffered letter shape
    rw [buffers.header] at zero
    exact absurd zero (outgoing_nonempty genuine.short letter.sender m)

/-- `poll` brings in a genuine packet. -/
theorem poll (kept : Keeps numBoxes net m office held) {wire : Wire} {sender : Address}
    (holds : wire.Holds sender m) (genuine : wire.letter.Genuine numBoxes net) :
    Keeps numBoxes net m (office.poll m wire) held where
  empty none := by simp [Office.poll] at none
  buffered letter is := by
    obtain rfl : wire.letter = letter := by simpa [Office.poll] using is
    refine ⟨⟨holds.dest, ?_, ?_⟩, genuine⟩
    · show PacketHeader.read wire.bytes = _
      rw [holds.header, holds.posted]
    · apply holds.carries.congr
      intro i inside
      have length := outgoing_length genuine.short sender m
      simp only [Office.poll, holds.header]
      rw [Memory.splice_inside (by omega) (by omega), Nat.sub_zero]
  hands := kept.hands
  boxes := kept.boxes
  received := kept.received
  free := kept.free
  fine := by
    have length := outgoing_length genuine.short sender m
    have short : wire.letter.header.length.toNat ≤ 40 := genuine.short
    have fits : ¬ MaxPacketSize < (outgoing sender m wire.letter.header).length.toNat := by
      rw [length]
      show ¬ 52 < _
      omega
    simp only [Office.poll, holds.header, kept.fine, decide_eq_false fits]
    simp [outgoing]

/-- What `network->Receive` gives the worker. -/
theorem fetched (kept : Keeps numBoxes net m office held) {letter : Letter}
    (is : office.buffered = some letter) : Carries office.fetched letter.header letter.data := by
  obtain ⟨buffers, genuine⟩ := kept.buffered letter is
  have length := outgoing_length genuine.short letter.sender m
  have nonzero : office.inHdr.length ≠ 0 := by
    rw [ne_eq, kept.buffered_iff, is]
    exact fun none => by cases none
  apply buffers.carries.congr
  intro i inside
  rw [Office.fetched, if_neg nonzero, buffers.header, Memory.splice_inside (by omega) (by omega),
    Nat.sub_zero]

/-- The worker makes a mail of the packet it fetches. -/
theorem fetch (kept : Keeps numBoxes net m office held) {letter : Letter}
    (is : office.buffered = some letter) (fresh : Memory) :
    Keeps numBoxes net m (office.fetch numBoxes) (some (office.delivery letter fresh)) where
  empty _ := rfl
  buffered _ none := by simp [Office.fetch] at none
  hands mail made := by
    obtain rfl : office.delivery letter fresh = mail := by simpa using made
    obtain ⟨buffers, genuine⟩ := kept.buffered letter is
    have carries := kept.fetched is
    refine ⟨⟨buffers.dest, buffers.header, carries.header, fun i inside => ?_⟩, genuine⟩
    have copied : i < 0 + letter.header.length.toNat := by
      rw [Nat.zero_add]
      exact inside
    simp only [Office.delivery, carries.header]
    rw [Memory.splice_inside (Nat.zero_le i) copied, Nat.sub_zero]
    exact carries.data i inside
  boxes := kept.boxes
  received := kept.received
  free := kept.free
  fine := by
    obtain ⟨buffers, genuine⟩ := kept.buffered letter is
    have header := (kept.fetched is).header
    simp [Office.fetch, header, kept.fine, genuine.legal, genuine.short]

theorem put {mail : Mail} (kept : Keeps numBoxes net m office (some mail)) :
    Keeps numBoxes net m (office.put mail) none where
  empty := kept.empty
  buffered := kept.buffered
  hands _ none := by cases none
  boxes b other inside := by
    by_cases same : b = mail.mailHdr.dest
    · subst same
      obtain earlier | rfl := by simpa [Office.put] using inside
      · exact kept.boxes _ other earlier
      · obtain ⟨holds, genuine⟩ := kept.hands other rfl
        exact ⟨holds, genuine, by rw [holds.header]⟩
    · exact kept.boxes b other (by simpa [Office.put, same] using inside)
  received := kept.received
  free := kept.free
  fine := kept.fine

theorem get (kept : Keeps numBoxes net m office held) {b : BitVec 32} {mail : Mail}
    {rest : List Mail} (first : office.boxes b = mail :: rest) (into : Memory) :
    Keeps numBoxes net m (office.get b mail rest into) held where
  empty := kept.empty
  buffered := kept.buffered
  hands := kept.hands
  boxes b' other inside := by
    by_cases same : b' = b
    · subst same
      apply kept.boxes b' other
      rw [first]
      exact List.mem_cons_of_mem _ (by simpa [Office.get] using inside)
    · exact kept.boxes b' other (by simpa [Office.get, same] using inside)
  received receipt inside := by
    obtain earlier | rfl := by simpa [Office.get] using inside
    · exact kept.received receipt earlier
    · obtain ⟨holds, genuine, dest⟩ := kept.boxes b mail (by simp [first])
      refine ⟨⟨holds.dest, dest, holds.packet, holds.header, fun i bound => ?_⟩, genuine⟩
      have copied : i < 0 + mail.letter.header.length.toNat := by
        rw [Nat.zero_add]
        exact bound
      simp only [Mail.receipt, holds.header]
      rw [Memory.splice_inside (Nat.zero_le i) copied, Nat.sub_zero]
      exact holds.data i bound
  free := kept.free
  fine := by
    obtain ⟨holds, genuine, dest⟩ := kept.boxes b mail (by simp [first])
    simp [Office.get, kept.fine, holds.header, genuine.short]

theorem send (kept : Keeps numBoxes net m office held) {dest : Address} {mailHdr : MailHeader}
    (short : mailHdr.length.toNat ≤ MaxMailSize) (letter : Letter) :
    Keeps numBoxes net m (office.send m (outgoing m dest mailHdr) letter) held where
  empty := kept.empty
  buffered := kept.buffered
  hands := kept.hands
  boxes := kept.boxes
  received := kept.received
  free := kept.free
  fine := by
    have length := outgoing_length short m dest
    have bound : mailHdr.length.toNat ≤ 40 := short
    have nonzero := outgoing_nonempty short m dest
    have fits : ¬ MaxPacketSize < (outgoing m dest mailHdr).length.toNat := by
      rw [length]
      show ¬ 52 < _
      omega
    simp only [Office.send, kept.fine, kept.free, decide_eq_false fits]
    simp only [beq_eq_false_iff_ne.mpr nonzero, Bool.or_self, Bool.false_or]
    simp [outgoing]

theorem sendDone (kept : Keeps numBoxes net m office held) :
    Keeps numBoxes net m office.sendDone held where
  empty := kept.empty
  buffered := kept.buffered
  hands := kept.hands
  boxes := kept.boxes
  received := kept.received
  free := rfl
  fine := kept.fine

end Keeps

/-! ## The buffer and its semaphore -/

/-- A machine in a run. `messageAvailable` and a worker that has passed it count
the packet in the buffer. -/
structure Machine (numBoxes : Nat) (v : View I) (m : Address) : Prop extends
    Keeps numBoxes v.memory m (v.memory.office m) (hand (v.stage (m, none))) where
  guarded : v.value (.plain (.available m)) + (if fetches (v.stage (m, none)) then 1 else 0) =
    if (v.memory.office m).buffered.isSome then 1 else 0
  kept : (v.memory.office m).overwrote = false
  fetchedSome : (v.memory.office m).fetchedNothing = false

structure Sound (numBoxes : Nat) (v : View I) : Prop where
  fits (t : ThreadId I) : Fits numBoxes t (v.stage t)
  wires (sender m : Address) (wire : Wire) : wire ∈ v.memory.channel sender m →
    wire.Holds sender m ∧ wire.letter.Genuine numBoxes v.memory
  machines (m : Address) : Machine numBoxes v m

section
variable {net : Net} {m : Address}

@[simp] theorem Net.setOffice_same (office : Office) : (net.setOffice m office).office m = office := by
  simp [Net.setOffice]

theorem Net.setOffice_other {m' : Address} (office : Office) (other : m' ≠ m) :
    (net.setOffice m office).office m' = net.office m' := by
  simp [Net.setOffice, other]

@[simp] theorem Net.setOffice_channel (office : Office) :
    (net.setOffice m office).channel = net.channel := rfl

@[simp] theorem Net.setChannel_office (sender dest : Address) (wires : List Wire) :
    (net.setChannel sender dest wires).office = net.office := rfl

/-- A channel after one of them has changed. -/
theorem Net.setChannel_channel (sender dest : Address) (wires : List Wire) (sender' dest' : Address) :
    (net.setChannel sender dest wires).channel sender' dest' =
      if sender' = sender ∧ dest' = dest then wires else net.channel sender' dest' := by
  by_cases from_ : sender' = sender
  · subst from_
    by_cases at_ : dest' = dest
    · simp [Net.setChannel, at_]
    · simp [Net.setChannel, at_]
  · simp [Net.setChannel, from_]

end

variable {v v' : View I}

theorem Machine.congr {m : Address} (machine : Machine numBoxes v m)
    (later : ∀ letter : Letter, letter.Genuine numBoxes v.memory → letter.Genuine numBoxes v'.memory)
    (office : v'.memory.office m = v.memory.office m)
    (hands : hand (v'.stage (m, none)) = hand (v.stage (m, none)))
    (fetching : fetches (v'.stage (m, none)) = fetches (v.stage (m, none)))
    (value : v'.value (.plain (.available m)) = v.value (.plain (.available m))) :
    Machine numBoxes v' m where
  toKeeps := by
    rw [office, hands]
    exact machine.toKeeps.mono later
  guarded := by
    rw [office, fetching, value]
    exact machine.guarded
  kept := by
    rw [office]
    exact machine.kept
  fetchedSome := by
    rw [office]
    exact machine.fetchedSome

/-- The packet that the worker is about to fetch. -/
theorem Machine.fetchable {m : Address} (machine : Machine numBoxes v m)
    (stands : v.stage (m, none) = .at .fetching) (nonneg : 0 ≤ v.value (.plain (.available m))) :
    ∃ letter, (v.memory.office m).buffered = some letter := by
  have guarded := machine.guarded
  rw [stands] at guarded
  cases shape : (v.memory.office m).buffered with
  | some letter => exact ⟨letter, rfl⟩
  | none =>
    simp only [PostOffice.fetches, shape, if_true, Option.isSome_none, Bool.false_eq_true,
      if_false] at guarded
    omega

/-- The machines that a step does not concern. -/
private theorem Machine.passes {m : Address} (machine : Machine numBoxes v m)
    (empty : hand (v.stage (m, none)) = none) (before : fetches (v.stage (m, none)) = false)
    (memory : v'.memory = v.memory) (stands : v'.stage (m, none) = .at .fetching)
    (available : v'.value (.plain (.available m)) = v.value (.plain (.available m)) - 1) :
    Machine numBoxes v' m where
  toKeeps := by
    have keeps := machine.toKeeps
    rw [empty] at keeps
    rw [memory, stands]
    exact keeps
  guarded := by
    have guarded := machine.guarded
    rw [before] at guarded
    rw [memory, stands, available, ← guarded]
    simp only [PostOffice.fetches, if_true, Bool.false_eq_true, if_false]
    omega
  kept := by
    rw [memory]
    exact machine.kept
  fetchedSome := by
    rw [memory]
    exact machine.fetchedSome

/-- The worker takes the packet from the buffer. -/
private theorem Machine.fetches {m : Address} {letter : Letter} {fresh : Memory}
    (machine : Machine numBoxes v m) (stands : v.stage (m, none) = .at .fetching)
    (is : (v.memory.office m).buffered = some letter)
    (later : ∀ letter : Letter, letter.Genuine numBoxes v.memory → letter.Genuine numBoxes v'.memory)
    (office : v'.memory.office m = (v.memory.office m).fetch numBoxes)
    (hands : hand (v'.stage (m, none)) = some ((v.memory.office m).delivery letter fresh))
    (after : PostOffice.fetches (v'.stage (m, none)) = false)
    (available : v'.value (.plain (.available m)) = v.value (.plain (.available m))) :
    Machine numBoxes v' m where
  toKeeps := by
    rw [office, hands]
    exact (machine.toKeeps.fetch is fresh).mono later
  guarded := by
    have guarded := machine.guarded
    simp only [stands, PostOffice.fetches, is, Option.isSome_some, if_true] at guarded
    rw [office, after, available]
    simp only [Office.fetch, Option.isSome_none, Bool.false_eq_true, if_false]
    omega
  kept := by
    rw [office]
    exact machine.kept
  fetchedSome := by
    rw [office]
    simpa [Office.fetch, is] using machine.fetchedSome

/-- A packet arrives in the empty buffer. -/
private theorem Machine.polls {m sender : Address} {wire : Wire} (machine : Machine numBoxes v m)
    (empty : (v.memory.office m).inHdr.length = 0) (holds : wire.Holds sender m)
    (genuine : wire.letter.Genuine numBoxes v.memory)
    (later : ∀ letter : Letter, letter.Genuine numBoxes v.memory → letter.Genuine numBoxes v'.memory)
    (office : v'.memory.office m = (v.memory.office m).poll m wire) (stages : v'.stage = v.stage)
    (available : v'.value (.plain (.available m)) = v.value (.plain (.available m)) + 1) :
    Machine numBoxes v' m := by
  have unread := machine.toKeeps.buffered_iff.mp empty
  refine ⟨?_, ?_, ?_, ?_⟩
  · rw [office, stages]
    exact (machine.toKeeps.poll holds genuine).mono later
  · have guarded := machine.guarded
    simp only [unread, Option.isSome_none, Bool.false_eq_true, if_false] at guarded
    rw [office, stages, available]
    simp only [Office.poll, Option.isSome_some, if_true]
    omega
  · rw [office]
    simpa [Office.poll, unread] using machine.kept
  · rw [office]
    exact machine.fetchedSome

section
variable [DecidableEq I]

/-- Mails are only ever added to what was sent. -/
theorem Act.sent (act : Act numBoxes v v') (m : Address) :
    (v.memory.office m).sent <+: (v'.memory.office m).sent := by
  have updated : ∀ {net : Net} {m' : Address} {office : Office},
      (net.office m').sent <+: office.sent →
      (net.office m).sent <+: ((net.setOffice m' office).office m).sent := by
    intro net m' office grown
    by_cases same : m = m'
    · subst same
      rwa [Net.setOffice_same]
    · rw [Net.setOffice_other _ same]
  cases act with
  | still => exact List.prefix_rfl
  | aside fits hands before after available => exact List.prefix_rfl
  | passes empty before => exact List.prefix_rfl
  | fetches fits stands recorded hands after available => exact updated List.prefix_rfl
  | puts stands => exact updated List.prefix_rfl
  | sends fits hands after stands recorded sent available => exact updated ⟨_, rfl⟩
  | gets stands first available => exact updated List.prefix_rfl
  | polls empty arrived => exact updated List.prefix_rfl
  | sendDone available => exact updated List.prefix_rfl
  | drops under => exact List.prefix_rfl

theorem Act.genuine (act : Act numBoxes v v') (letter : Letter)
    (genuine : letter.Genuine numBoxes v.memory) : letter.Genuine numBoxes v'.memory where
  recorded := by
    obtain ⟨later, grown⟩ := act.sent letter.sender
    obtain ⟨bound, -⟩ := List.getElem?_eq_some_iff.mp genuine.recorded
    rw [← grown, List.getElem?_append_left bound]
    exact genuine.recorded
  short := genuine.short
  legal := genuine.legal

private theorem Sound.elsewhere (sound : Sound numBoxes v) (act : Act numBoxes v v') {m : Address}
    (office : v'.memory.office m = v.memory.office m)
    (hands : hand (v'.stage (m, none)) = hand (v.stage (m, none)))
    (fetching : fetches (v'.stage (m, none)) = fetches (v.stage (m, none)))
    (value : v'.value (.plain (.available m)) = v.value (.plain (.available m))) :
    Machine numBoxes v' m :=
  (sound.machines m).congr act.genuine office hands fetching value

/-- Datagrams that were under way before are still as they were. -/
private theorem Sound.onTheWay (sound : Sound numBoxes v) (act : Act numBoxes v v')
    {sender m : Address} {wire : Wire} (inside : wire ∈ v.memory.channel sender m) :
    wire.Holds sender m ∧ wire.letter.Genuine numBoxes v'.memory :=
  ⟨(sound.wires sender m wire inside).1, act.genuine _ (sound.wires sender m wire inside).2⟩

/-- The worker gets past `messageAvailable->P()`. -/
theorem Sound.wires_act (sound : Sound numBoxes v) (act : Act numBoxes v v') {sender' m' : Address}
    {wire' : Wire} (inside : wire' ∈ v'.memory.channel sender' m') :
    wire'.Holds sender' m' ∧ wire'.letter.Genuine numBoxes v'.memory := by
  have known := @Sound.onTheWay _ _ _ _ _ sound act
  cases act with
  | still => exact known inside
  | aside fits hands before after available => exact known inside
  | passes empty before => exact known inside
  | fetches fits stands recorded hands after available => exact known inside
  | puts stands => exact known inside
  | gets stands first available => exact known inside
  | sendDone available => exact known inside
  | @sends m i stage value letter wires dest mailHdr data buffer fits hands after stands recorded
      sent available =>
    rw [Net.setChannel_channel] at inside
    split at inside
    · rename_i here
      obtain ⟨rfl, rfl⟩ := here
      obtain earlier | new := List.mem_append.mp inside
      · exact known earlier
      · obtain rfl | ⟨fresh, rfl⟩ := sent
        · simp at new
        · obtain rfl := List.mem_singleton.mp new
          have stage := sound.fits (sender', some i)
          rw [stands] at stage
          cases stage with
          | sending short legal carries =>
            subst recorded
            refine ⟨framed_holds short carries fresh, ⟨?_, short, legal⟩⟩
            simp [Letter.framed, Office.posted, Office.send]
    · exact known inside
  | @polls m sender wire rest empty arrived =>
    have under : wire' ∈ ((v.memory.setOffice m ((v.memory.office m).poll m wire)).setChannel
        sender m rest).channel sender' m' := inside
    rw [Net.setChannel_channel] at under
    split at under
    · rename_i here
      obtain ⟨rfl, rfl⟩ := here
      exact known (by rw [arrived]; exact List.mem_cons_of_mem _ under)
    · exact known under
  | drops under =>
    rw [Net.setChannel_channel] at inside
    split at inside
    · rename_i here
      obtain ⟨rfl, rfl⟩ := here
      apply known
      rw [under]
      obtain before | after := List.mem_append.mp inside
      · exact List.mem_append_left _ before
      · exact List.mem_append_right _ (List.mem_cons_of_mem _ after)
    · exact known inside

theorem Sound.machines_act (sound : Sound numBoxes v) (act : Act numBoxes v v')
    (nonneg : ∀ id, 0 ≤ v.value id) (m' : Address) : Machine numBoxes v' m' := by
  have elsewhere := @Sound.elsewhere _ _ _ _ _ sound act
  have later := act.genuine
  have machine := sound.machines m'
  cases act with
  | still => exact machine
  | @aside t stage value fits hands before after available =>
    by_cases at_t : t = (m', none)
    · subst at_t
      exact elsewhere rfl (by simpa using hands) (by simp [before, after]) (available m')
    · exact elsewhere rfl (by simp [Ne.symm at_t]) (by simp [Ne.symm at_t]) (available m')
  | @passes m empty before =>
    by_cases same : m' = m
    · subst same
      refine machine.passes empty before rfl ?_ ?_
      · simp [View.setStage]
      · simp [View.setStage, View.add]
        rfl
    · refine elsewhere rfl ?_ ?_ ?_ <;> simp [View.setStage, View.add, same]
  | @fetches m stage value letter fresh fits stands recorded hands after available =>
    by_cases same : m' = m
    · subst same
      obtain ⟨known, is⟩ := machine.fetchable stands (nonneg _)
      obtain rfl : known = letter := by simpa [is] using recorded
      exact machine.fetches stands is later (Net.setOffice_same _) (by simpa using hands)
        (by simpa using after) (available m')
    · exact elsewhere (Net.setOffice_other _ same) (by simp [same]) (by simp [same]) (available m')
  | @puts m mail stands =>
    by_cases same : m' = m
    · subst same
      have guarded := machine.guarded
      have keeps := machine.toKeeps
      rw [stands] at keeps guarded
      refine ⟨?_, ?_, ?_, ?_⟩
      · simpa [hand] using (Keeps.put keeps).mono later
      · simpa [PostOffice.fetches, Office.put] using guarded
      · simpa [Office.put] using machine.kept
      · simpa [Office.put] using machine.fetchedSome
    · exact elsewhere (Net.setOffice_other _ same) (by simp [same]) (by simp [same]) rfl
  | @sends m i stage value letter wires dest mailHdr data buffer fits hands after stands recorded
      sent available =>
    by_cases same : m' = m
    · subst same
      have stage := sound.fits (m', some i)
      rw [stands] at stage
      cases stage with
      | sending short legal carries =>
        have kept : Keeps numBoxes v.memory m' ((v.memory.office m').send m'
            (outgoing m' dest mailHdr) letter) _ := machine.toKeeps.send short letter
        refine ⟨?_, ?_, ?_, ?_⟩
        · simpa using kept.mono later
        · simpa [available, Office.send] using machine.guarded
        · simpa [Office.send] using machine.kept
        · simpa [Office.send] using machine.fetchedSome
    · exact elsewhere (Net.setOffice_other _ same) (by simp) (by simp) (available m')
  | @gets m i b into mail rest value stands first available =>
    by_cases same : m' = m
    · subst same
      refine ⟨?_, ?_, ?_, ?_⟩
      · simpa using (machine.toKeeps.get first into).mono later
      · simpa [available, Office.get] using machine.guarded
      · simpa [Office.get] using machine.kept
      · simpa [Office.get] using machine.fetchedSome
    · exact elsewhere (Net.setOffice_other _ same) (by simp) (by simp) (available m')
  | @polls m sender wire rest empty arrived =>
    by_cases same : m' = m
    · subst same
      obtain ⟨holds, genuine⟩ := sound.wires sender m' wire (by simp [arrived])
      exact machine.polls empty holds genuine later (Net.setOffice_same _) rfl (by simp [View.add])
    · exact elsewhere (Net.setOffice_other _ same) rfl rfl (by simp [View.add, same])
  | @sendDone m value available =>
    by_cases same : m' = m
    · subst same
      refine ⟨?_, ?_, ?_, ?_⟩
      · simpa using machine.toKeeps.sendDone.mono later
      · simpa [available, Office.sendDone] using machine.guarded
      · simpa [Office.sendDone] using machine.kept
      · simpa [Office.sendDone] using machine.fetchedSome
    · exact elsewhere (Net.setOffice_other _ same) rfl rfl (available m')
  | drops under => exact elsewhere rfl rfl rfl rfl

theorem Sound.act (sound : Sound numBoxes v) (act : Act numBoxes v v')
    (nonneg : ∀ id, 0 ≤ v.value id) : Sound numBoxes v' where
  fits := act.fits sound.fits
  wires _ _ _ inside := sound.wires_act act inside
  machines := sound.machines_act act nonneg

/-! ## The line of letters -/

/-- Letters in the order of sending, all of them among the first `bound`. -/
structure Increasing (bound : Nat) (letters : List Letter) : Prop where
  ordered : letters.Pairwise fun first second => first.serial < second.serial
  below (letter : Letter) : letter ∈ letters → letter.serial < bound

theorem Increasing.sublist {bound : Nat} {letters letters' : List Letter}
    (increasing : Increasing bound letters) (fewer : letters'.Sublist letters) :
    Increasing bound letters' where
  ordered := increasing.ordered.sublist fewer
  below letter inside := increasing.below letter (fewer.subset inside)

theorem Increasing.mono {bound bound' : Nat} {letters : List Letter}
    (increasing : Increasing bound letters) (more : bound ≤ bound') : Increasing bound' letters where
  ordered := increasing.ordered
  below letter inside := Nat.lt_of_lt_of_le (increasing.below letter inside) more

theorem Increasing.posted {bound : Nat} {letters : List Letter} {letter : Letter}
    (increasing : Increasing bound letters) (next : letter.serial = bound) :
    Increasing (bound + 1) (letters ++ [letter]) where
  ordered := by
    refine List.pairwise_append.mpr ⟨increasing.ordered, List.pairwise_singleton _ _, ?_⟩
    intro first earlier second last
    rw [List.mem_singleton.mp last, next]
    exact increasing.below first earlier
  below other inside := by
    obtain earlier | last := List.mem_append.mp inside
    · exact Nat.lt_succ_of_lt (increasing.below other earlier)
    · rw [List.mem_singleton.mp last, next]
      exact Nat.lt_succ_self _

/-- The letters that have arrived in a mailbox or are on their way there. -/
def arrived (office : Office) (held : Option Mail) (b : BitVec 32) : List Letter :=
  office.received.map (·.letter) ++ ((office.boxes b).map (·.letter) ++
    ((held.map (·.letter)).toList ++ office.buffered.toList))

/-- Of all the letters, those of one sender to one mailbox. -/
def between (sender : Address) (b : BitVec 32) (letters : List Letter) : List Letter :=
  letters.filter fun letter => letter.sender = sender ∧ letter.header.dest = b

/-- The letters of one sender to one mailbox, the first sent first. -/
def line (v : View I) (sender m : Address) (b : BitVec 32) : List Letter :=
  between sender b (arrived (v.memory.office m) (hand (v.stage (m, none))) b ++
    (v.memory.channel sender m).map (·.letter))

def InLine (v : View I) : Prop :=
  ∀ sender m b, Increasing (v.memory.office sender).sent.length (line v sender m b)

theorem between_append (sender : Address) (b : BitVec 32) (letters letters' : List Letter) :
    between sender b (letters ++ letters') =
      between sender b letters ++ between sender b letters' := List.filter_append _ _

theorem between_other {sender : Address} {b : BitVec 32} {letter : Letter}
    (other : ¬ (letter.sender = sender ∧ letter.header.dest = b)) (letters : List Letter) :
    between sender b (letter :: letters) = between sender b letters := by
  simp [between, other]

theorem arrived_fetch {office : Office} {letter : Letter} (is : office.buffered = some letter)
    (fresh : Memory) (b : BitVec 32) :
    arrived (office.fetch numBoxes) (some (office.delivery letter fresh)) b =
      arrived office none b := by
  simp [arrived, Office.fetch, Office.delivery, is]

/-- The mail goes from the worker's hand to the end of its box. -/
theorem arrived_put (office : Office) {mail : Mail} (header : mail.mailHdr = mail.letter.header)
    (sender : Address) (b : BitVec 32) :
    between sender b (arrived (office.put mail) none b) =
      between sender b (arrived office (some mail) b) := by
  by_cases here : b = mail.mailHdr.dest
  · subst here
    simp [arrived, Office.put]
  · have other : ¬ (mail.letter.sender = sender ∧ mail.letter.header.dest = b) := by
      rw [← header]
      exact fun same => here same.2.symm
    simp only [arrived, Office.put, Function.update_of_ne here, Option.map_some, Option.toList_some,
      Option.map_none, Option.toList_none, between_append, List.singleton_append,
      between_other other, List.nil_append]

/-- The first mail of a box goes to the receiver. -/
theorem arrived_get {office : Office} {held : Option Mail} {mail : Mail} {rest : List Mail}
    {b' : BitVec 32} (first : office.boxes b' = mail :: rest) (dest : mail.letter.header.dest = b')
    (into : Memory) (sender : Address) (b : BitVec 32) :
    between sender b (arrived (office.get b' mail rest into) held b) =
      between sender b (arrived office held b) := by
  by_cases here : b = b'
  · subst here
    simp [arrived, Office.get, Mail.receipt, first]
  · have other : ¬ (mail.letter.sender = sender ∧ mail.letter.header.dest = b) := by
      rw [dest]
      exact fun same => here same.2.symm
    simp only [arrived, Office.get, Mail.receipt, Function.update_of_ne here, List.map_append,
      List.map_cons, List.map_nil, between_append, between_other other]
    simp [between]

/-- The first datagram of a channel goes to the buffer. -/
theorem arrived_poll {office : Office} {held : Option Mail} {wire : Wire}
    (unread : office.buffered = none) (m sender : Address) (b : BitVec 32) :
    between sender b (arrived (office.poll m wire) held b) =
      between sender b (arrived office held b ++ [wire.letter]) := by
  simp [arrived, Office.poll, unread]

theorem arrived_send (office : Office) (held : Option Mail) (m : Address) (hdr : PacketHeader)
    (letter : Letter) (b : BitVec 32) :
    arrived (office.send m hdr letter) held b = arrived office held b := rfl

/-- A line that has only lost letters. -/
private theorem InLine.fewer (inLine : InLine v) (act : Act numBoxes v v') {sender m : Address}
    {b : BitVec 32} (fewer : (line v' sender m b).Sublist (line v sender m b)) :
    Increasing (v'.memory.office sender).sent.length (line v' sender m b) :=
  ((inLine sender m b).sublist fewer).mono (act.sent sender).length_le

private theorem InLine.unchanged (inLine : InLine v) (act : Act numBoxes v v') {sender m : Address}
    {b : BitVec 32}
    (arrivals : between sender b (arrived (v'.memory.office m) (hand (v'.stage (m, none))) b) =
      between sender b (arrived (v.memory.office m) (hand (v.stage (m, none))) b))
    (channel : v'.memory.channel sender m = v.memory.channel sender m) :
    Increasing (v'.memory.office sender).sent.length (line v' sender m b) := by
  apply inLine.fewer act
  rw [line, line, between_append, between_append, arrivals, channel]

/-- A mail has been given to the network, and perhaps to the wire. -/
private theorem InLine.sends (inLine : InLine v) (act : Act numBoxes v v') {sender m : Address}
    {b : BitVec 32} {letter : Letter} {wires : List Wire}
    (next : letter.serial = (v.memory.office sender).sent.length)
    (posted : (v'.memory.office sender).sent = (v.memory.office sender).sent ++ [letter])
    (sent : wires.map (·.letter) = [] ∨ wires.map (·.letter) = [letter])
    (arrivals : arrived (v'.memory.office m) (hand (v'.stage (m, none))) b =
      arrived (v.memory.office m) (hand (v.stage (m, none))) b)
    (channel : v'.memory.channel sender m = v.memory.channel sender m ++ wires) :
    Increasing (v'.memory.office sender).sent.length (line v' sender m b) := by
  have longer : line v' sender m b =
      line v sender m b ++ between sender b (wires.map (·.letter)) := by
    rw [line, line, arrivals, channel, List.map_append, ← List.append_assoc, between_append]
  obtain lost | transmitted := sent
  · apply inLine.fewer act
    rw [longer, lost]
    simp [between]
  · by_cases ours : letter.sender = sender ∧ letter.header.dest = b
    · have counted : (v'.memory.office sender).sent.length =
          (v.memory.office sender).sent.length + 1 := by simp [posted]
      have last : between sender b [letter] = [letter] := by simp [between, ours]
      rw [longer, transmitted, counted, last]
      exact (inLine sender m b).posted next
    · apply inLine.fewer act
      rw [longer, transmitted, between_other ours]
      simp [between]

/-- A datagram has gone from a channel to the buffer. -/
private theorem InLine.polls (inLine : InLine v) (act : Act numBoxes v v') {sender sender' m : Address}
    {b : BitVec 32} {wire : Wire} {rest : List Wire}
    (arrivals : between sender' b (arrived (v'.memory.office m) (hand (v'.stage (m, none))) b) =
      between sender' b (arrived (v.memory.office m) (hand (v.stage (m, none))) b ++ [wire.letter]))
    (posted : wire.letter.sender = sender) (first : v.memory.channel sender m = wire :: rest)
    (channel : v'.memory.channel sender' m =
      if sender' = sender then rest else v.memory.channel sender' m) :
    Increasing (v'.memory.office sender').sent.length (line v' sender' m b) := by
  apply inLine.fewer act
  by_cases same : sender' = sender
  · subst same
    rw [if_pos rfl] at channel
    rw [line, line, between_append, arrivals, ← between_append, channel, first, List.map_cons,
      List.append_assoc, List.singleton_append]
  · rw [if_neg same] at channel
    have other : ¬ (wire.letter.sender = sender' ∧ wire.letter.header.dest = b) := by
      rw [posted]
      exact fun both => same both.1.symm
    have none : between sender' b [wire.letter] = [] := by
      rw [between_other other]
      rfl
    rw [line, line, between_append, arrivals, between_append, none, List.append_nil, ← between_append,
      channel]

theorem InLine.act (inLine : InLine v) (sound : Sound numBoxes v) (act : Act numBoxes v v')
    (nonneg : ∀ id, 0 ≤ v.value id) : InLine v' := by
  intro sender' m' b'
  have fewer := @InLine.fewer _ _ _ _ _ inLine act sender' m' b'
  have unchanged := @InLine.unchanged _ _ _ _ _ inLine act sender' m' b'
  have sends := @InLine.sends _ _ _ _ _ inLine act sender' m' b'
  have polls := @InLine.polls _ _ _ _ _ inLine act
  cases act with
  | still => exact inLine sender' m' b'
  | @aside t stage value fits hands before after available =>
    refine unchanged ?_ rfl
    by_cases at_t : t = (m', none)
    · subst at_t
      simp [hands]
    · simp [Ne.symm at_t]
  | @passes m empty before =>
    refine unchanged ?_ rfl
    by_cases same : m' = m
    · subst same
      simp [View.setStage, View.add, empty]
    · simp [View.setStage, View.add, same]
  | @fetches m stage value letter fresh fits stands recorded hands after available =>
    refine unchanged ?_ rfl
    by_cases same : m' = m
    · subst same
      obtain ⟨known, is⟩ := (sound.machines m').fetchable stands (nonneg _)
      obtain rfl : known = letter := by simpa [is] using recorded
      simp [hands, arrived_fetch is, stands]
    · simp [Net.setOffice_other _ same, same]
  | @puts m mail stands =>
    refine unchanged ?_ rfl
    by_cases same : m' = m
    · subst same
      have holds := ((sound.machines m').hands mail (by rw [stands]; rfl)).1
      simp [stands, arrived_put _ holds.header]
    · simp [Net.setOffice_other _ same, same]
  | @gets m i b into mail rest value stands first available =>
    refine unchanged ?_ rfl
    by_cases same : m' = m
    · subst same
      obtain ⟨-, -, dest⟩ := (sound.machines m').boxes b mail (by simp [first])
      simp [arrived_get first dest]
    · simp [Net.setOffice_other _ same]
  | @sendDone m value available =>
    refine unchanged ?_ rfl
    by_cases same : m' = m
    · subst same
      simp [arrived, Office.sendDone]
    · simp [Net.setOffice_other _ same]
  | @sends m i stage value letter wires dest mailHdr data buffer fits hands after stands recorded
      sent available =>
    have arrivals : ∀ held, arrived ((v.memory.setOffice m ((v.memory.office m).send m
        (outgoing m dest mailHdr) letter)).office m') held b' =
        arrived (v.memory.office m') held b' := by
      intro held
      by_cases same : m' = m
      · subst same
        simp [arrived_send]
      · simp [Net.setOffice_other _ same]
    by_cases here : sender' = m ∧ m' = dest
    · obtain ⟨rfl, rfl⟩ := here
      have wired : wires.map (·.letter) = [] ∨ wires.map (·.letter) = [letter] := by
        obtain rfl | ⟨fresh, rfl⟩ := sent
        · exact .inl rfl
        · exact .inr rfl
      refine sends (by rw [recorded]; rfl) ?_ wired ?_ ?_
      · simp [Office.send]
      · simp [arrivals]
      · simp [Net.setChannel_channel]
    · refine unchanged ?_ ?_
      · simp [arrivals]
      · rw [Net.setChannel_channel, if_neg here, Net.setOffice_channel]
  | @polls m sender wire rest empty arrived =>
    by_cases same : m' = m
    · subst same
      have unread := (sound.machines m').toKeeps.buffered_iff.mp empty
      have posted := (sound.wires sender m' wire (by simp [arrived])).1.posted
      refine polls ?_ posted arrived ?_
      · simp [View.add, arrived_poll unread]
      · show (Net.setChannel _ _ _ _).channel _ _ = _
        simp [Net.setChannel_channel]
    · refine unchanged ?_ ?_
      · simp [View.add, Net.setOffice_other _ same]
      · show (Net.setChannel _ _ _ _).channel _ _ = _
        simp [Net.setChannel_channel, same]
  | @drops sender m before wire after under =>
    apply fewer
    by_cases here : sender' = sender ∧ m' = m
    · obtain ⟨rfl, rfl⟩ := here
      have shorter : (before ++ after).Sublist (v.memory.channel sender' m') := by
        rw [under]
        exact (List.sublist_cons_self wire after).append_left before
      simp only [line, Net.setChannel_channel, and_self, if_true]
      exact ((shorter.map _).append_left _).filter _
    · simp only [line, Net.setChannel_channel, if_neg here]
      exact List.Sublist.refl _

end

/-! ## Runs -/

/-- Two letters of one sender to one mailbox, in the order in which they were
received. -/
theorem InLine.received (inLine : InLine v) {m : Address} :
    (v.memory.office m).received.Pairwise fun first second =>
      first.letter.sender = second.letter.sender →
      first.letter.header.dest = second.letter.header.dest →
      first.letter.serial < second.letter.serial := by
  rw [List.pairwise_iff_getElem]
  intro i j boundI boundJ earlier sameSender sameBox
  have increasing := (inLine (v.memory.office m).received[i].letter.sender m
    (v.memory.office m).received[i].letter.header.dest).ordered
  rw [line, arrived, List.append_assoc, between, List.pairwise_filter] at increasing
  have ordered := (List.pairwise_append.mp increasing).1
  rw [List.pairwise_map, List.pairwise_iff_getElem] at ordered
  simpa [sameSender, sameBox] using ordered i j boundI boundJ earlier

theorem Begins.worker_rests {k : State I} (begins : Begins k) (m : Address) :
    hand (k.view.stage (m, none)) = none ∧ fetches (k.view.stage (m, none)) = false := by
  obtain fresh | running := begins.worker m
  · simp only [State.view, fresh]
    exact ⟨rfl, rfl⟩
  · simp only [State.view, running]
    exact ⟨rfl, rfl⟩

theorem Begins.sound {k : State I} (begins : Begins k) : Sound numBoxes k.view where
  fits t := by
    obtain ⟨m, _ | i⟩ := t
    · obtain fresh | running := begins.worker m
      · simp only [State.view, fresh]
        exact .born
      · simp only [State.view, running]
        exact .idle
    · obtain fresh | running := begins.outside m i
      · simp only [State.view, fresh]
        exact .new
      · simp only [State.view, running]
        exact .outside
  wires sender m wire inside := by
    simp [State.view, begins.channels] at inside
  machines m := by
    obtain ⟨length, boxes, free, fine⟩ := begins.empty m
    obtain ⟨buffered, overwrote, fetchedNothing, sent, received⟩ := begins.unrecorded m
    obtain ⟨idle, resting⟩ := begins.worker_rests m
    refine ⟨⟨fun _ => length, ?_, ?_, ?_, ?_, free, fine⟩, ?_, overwrote, fetchedNothing⟩
    · intro letter is
      simp [State.view, buffered] at is
    · intro mail is
      simp [idle] at is
    · intro b mail inside
      simp [State.view, boxes] at inside
    · intro receipt inside
      simp [State.view, received] at inside
    · rw [resting]
      simp [State.view, begins.down, buffered]

theorem Begins.inLine {k : State I} (begins : Begins k) : InLine k.view := by
  intro sender m b
  obtain ⟨length, boxes, free, fine⟩ := begins.empty m
  obtain ⟨buffered, overwrote, fetchedNothing, sent, received⟩ := begins.unrecorded m
  have empty : line k.view sender m b = [] := by
    rw [line, (begins.worker_rests m).1]
    simp [between, arrived, State.view, boxes, buffered, received, begins.channels]
  rw [empty]
  exact ⟨List.Pairwise.nil, fun letter none => by cases none⟩

section
variable [DecidableEq I]

/-- What holds in every state of a run. -/
theorem Begins.run {start k : State I} {trace : List (Event (ThreadId I) Sem LockId CondId)}
    (begins : Begins start) (run : Runs (Threads.Step (code numBoxes I)) start trace k) :
    Sound numBoxes k.view ∧ InLine k.view := by
  have kept : (∀ id, 0 ≤ k.view.value id) ∧ Sound numBoxes k.view ∧ InLine k.view := by
    refine run.invariant_state
      (P := fun k => (∀ id, 0 ≤ k.view.value id) ∧ Sound numBoxes k.view ∧ InLine k.view)
      ⟨begins.value, begins.sound, begins.inLine⟩ ?_
    intro k events k' ⟨nonneg, sound, inLine⟩ step
    have act := act_of_step sound.fits step.view
    exact ⟨step.view.nonneg nonneg, sound.act act nonneg, inLine.act sound act nonneg⟩
  exact kept.2

/-- Machines send mails to one another in any interleaving of calls, interrupts
and postal workers, over wires that lose any datagram and keep the rest in order.
What `Receive` returns was sent to that mailbox of that machine and is unchanged;
a mail is received at most once; the mails of one sender to one mailbox are
received in the order of sending; and no packet is read over one that was not
fetched, nor fetched when there is none. -/
theorem mail_is_delivered_once_and_in_order {start k : State I}
    {trace : List (Event (ThreadId I) Sem LockId CondId)} (begins : Begins start)
    (run : Runs (Threads.Step (code numBoxes I)) start trace k) :
    (∀ m, ∀ receipt ∈ (k.memory.office m).received,
      (k.memory.office receipt.letter.sender).sent[receipt.letter.serial]? = some receipt.letter ∧
      receipt.letter.dest = m ∧ receipt.letter.header.dest = receipt.box ∧
      receipt.pktHdr.dest = m ∧ receipt.pktHdr.sender = receipt.letter.sender ∧
      receipt.mailHdr.dest = receipt.box ∧ receipt.mailHdr.reply = receipt.letter.header.reply ∧
      receipt.mailHdr.length = receipt.letter.header.length ∧
      ∀ i < receipt.letter.header.length.toNat, receipt.data i = receipt.letter.data i) ∧
    (∀ (m m' : Address) (i j : Nat) (receipt receipt' : Receipt),
      (k.memory.office m).received[i]? = some receipt →
      (k.memory.office m').received[j]? = some receipt' →
      receipt.letter.sender = receipt'.letter.sender →
      receipt.letter.serial = receipt'.letter.serial → m = m' ∧ i = j) ∧
    (∀ (m : Address) (i j : Nat) (receipt receipt' : Receipt),
      (k.memory.office m).received[i]? = some receipt →
      (k.memory.office m).received[j]? = some receipt' →
      receipt.letter.sender = receipt'.letter.sender → receipt.box = receipt'.box → i < j →
      receipt.letter.serial < receipt'.letter.serial) ∧
    ∀ m, (k.memory.office m).overwrote = false ∧ (k.memory.office m).fetchedNothing = false := by
  obtain ⟨sound, inLine⟩ := begins.run run
  have known : ∀ (m : Address) (i : Nat) (receipt : Receipt), (k.memory.office m).received[i]? = some receipt →
      receipt.Holds m ∧ receipt.letter.Genuine numBoxes k.memory := by
    intro m i receipt at_i
    exact (sound.machines m).received receipt (List.mem_of_getElem? at_i)
  have ordered : ∀ (m : Address) (i j : Nat) (receipt receipt' : Receipt),
      (k.memory.office m).received[i]? = some receipt →
      (k.memory.office m).received[j]? = some receipt' →
      receipt.letter.sender = receipt'.letter.sender →
      receipt.letter.header.dest = receipt'.letter.header.dest → i < j →
      receipt.letter.serial < receipt'.letter.serial := by
    intro m i j receipt receipt' at_i at_j sender dest earlier
    have received := List.pairwise_iff_getElem.mp (inLine.received (m := m))
    obtain ⟨boundI, rfl⟩ := List.getElem?_eq_some_iff.mp at_i
    obtain ⟨boundJ, rfl⟩ := List.getElem?_eq_some_iff.mp at_j
    exact received i j boundI boundJ earlier sender dest
  refine ⟨?_, ?_, ?_, fun m => ⟨(sound.machines m).kept, (sound.machines m).fetchedSome⟩⟩
  · intro m receipt inside
    obtain ⟨holds, genuine⟩ := (sound.machines m).received receipt inside
    refine ⟨genuine.recorded, holds.dest, holds.box, ?_, ?_, ?_, ?_, ?_, holds.data⟩
    · rw [holds.packet]
      rfl
    · rw [holds.packet]
      rfl
    · rw [holds.header, holds.box]
    · rw [holds.header]
    · rw [holds.header]
  · intro m m' i j receipt receipt' at_i at_j sender serial
    obtain ⟨holds, genuine⟩ := known m i receipt at_i
    obtain ⟨holds', genuine'⟩ := known m' j receipt' at_j
    have same : receipt.letter = receipt'.letter := by
      have recorded := genuine.recorded
      rw [sender, serial, genuine'.recorded] at recorded
      exact (Option.some.inj recorded).symm
    obtain rfl : m = m' := by rw [← holds.dest, ← holds'.dest, same]
    refine ⟨rfl, ?_⟩
    obtain earlier | equal | later := Nat.lt_trichotomy i j
    · have order := ordered m i j receipt receipt' at_i at_j sender (by rw [same]) earlier
      omega
    · exact equal
    · have order := ordered m j i receipt' receipt at_j at_i sender.symm (by rw [same]) later
      omega
  · intro m i j receipt receipt' at_i at_j sender box earlier
    obtain ⟨holds, genuine⟩ := known m i receipt at_i
    obtain ⟨holds', genuine'⟩ := known m j receipt' at_j
    exact ordered m i j receipt receipt' at_i at_j sender (by rw [holds.box, holds'.box, box]) earlier

end

/-! Machine 0 sends one mail to machine 1. -/

/-- Nothing has happened on a machine. -/
def newOffice : Office where
  inHdr := { dest := 0, sender := 0, length := 0 }
  inbox _ := 0
  sendBusy := false
  sendsPending := 0
  buffer _ := 0
  boxes _ := []
  failed := false
  buffered := none
  overwrote := false
  fetchedNothing := false
  sent := []
  received := []

def quietNet : State Unit where
  sem
    | .plain _ => { value := 0, queue := [] }
    | .ofLock _ => { value := 1, queue := [] }
  owner _ := none
  queue _ := []
  phase
    | (_, none) => .running .idle
    | (_, some ()) => .running .outside
  memory := { office := fun _ => newOffice, channel := fun _ _ => [] }

theorem quietNet_begins : Begins quietNet where
  value id := by
    cases id with
    | plain s => exact Int.le_refl 0
    | ofLock l => exact Int.one_nonneg
  asleep id := by cases id <;> rfl
  free _ := ⟨rfl, rfl⟩
  conditions _ := rfl
  phase t := by
    obtain ⟨m, _ | ⟨⟩⟩ := t
    · exact ⟨.idle, .inr rfl⟩
    · exact ⟨.outside, .inr rfl⟩
  worker _ := .inr rfl
  outside _ _ := .inr rfl
  down _ := rfl
  channels _ _ := rfl
  empty _ := ⟨rfl, fun _ => rfl, rfl, rfl⟩
  unrecorded _ := ⟨rfl, rfl, rfl, rfl, rfl⟩

def greeting : MailHeader := { dest := 0, reply := 0, length := 1 }

theorem mail_is_delivered_once_and_in_order_once :
    ∃ trace k, Runs (Threads.Step (code 1 Unit)) quietNet trace k ∧
      (k.memory.office 1).received.length = 1 ∧ (k.memory.office 1).overwrote = false := by
  have queues : Runs (Threads.Step (code 1 Unit)) quietNet _ _ :=
    .next .start (.segment (t := (0, some ())) rfl
      (.send 1 greeting (fun _ => 65) (fun _ => 0) (by decide) (by decide)) (by simp))
  have sends := queues.next
    (.segment (t := (0, some ())) rfl (.transmits (fun _ => 0) _ rfl) (by simp))
  have arrives := sends.next (.interrupt (@Fires.poll _ 1 0 _ _ rfl rfl))
  have wakes := arrives.next (.segment (t := (1, none)) rfl .awaits (by simp))
  have fetches := wakes.next (.segment (t := (1, none)) rfl (.fetches _ (fun _ => 0) rfl) (by simp))
  have puts := fetches.next (.segment (t := (1, none)) rfl .puts (by simp))
  have leaves := puts.next (.segment (t := (1, none)) rfl .putAway (by simp))
  have asks := leaves.next
    (.segment (t := (1, some ())) rfl (.receive 0 (fun _ => 0) (by decide)) (by simp))
  have gets := asks.next (.segment (t := (1, some ())) rfl (.gets rfl) (by simp))
  exact ⟨_, _, gets, rfl, ((mail_is_delivered_once_and_in_order quietNet_begins gets).2.2.2 1).1⟩
end Nachos.PostOffice
