import Nachos.Network.Delivery
import Nachos.Threads.Projection

/-! The test of the network (`network/nettest.cc`): every machine sends a mail to
another, reads the mail it is sent, acknowledges it to whoever sent it, and waits
for the acknowledgement of its own. -/
namespace Nachos.MailTest
open Effects Threads PostOffice

/-- `data` and `ack`: `"Hello there!"` and `"Got it!"`. -/
def data : List UInt8 := [72, 101, 108, 108, 111, 32, 116, 104, 101, 114, 101, 33]
def ack : List UInt8 := [71, 111, 116, 32, 105, 116, 33]

/-- A string constant, with the zero behind it. -/
def chars (text : List UInt8) : Memory := fun i => text.getD i 0

/-- `strlen(text) + 1`. -/
def size (text : List UInt8) : BitVec 32 := BitVec.ofNat 32 (text.length + 1)

/-- What `%s` prints of a buffer of this many bytes; `none` when no zero is in it. -/
def textOf (buffer : Memory) : Nat → Option (List UInt8)
  | 0 => none
  | count + 1 =>
    if buffer 0 = 0 then some []
    else (textOf (fun i => buffer (i + 1)) count).map (buffer 0 :: ·)

/-- A line that `MailTest` printed. -/
structure Got where
  text : Option (List UInt8)
  sender : Address
  box : BitVec 32
deriving DecidableEq

structure Vars where
  outPktHdr : PacketHeader
  inPktHdr : PacketHeader
  outMailHdr : MailHeader
  inMailHdr : MailHeader
  buffer : Memory

/-- The calls of `MailTest`, one after the other. -/
inductive Line where
  | sendData
  | receiveData
  | printData
  | sendAck
  | receiveAck
  | printAck
  | halt
deriving DecidableEq

namespace Line

def next : Line → Line
  | .sendData => .receiveData
  | .receiveData => .printData
  | .printData => .sendAck
  | .sendAck => .receiveAck
  | .receiveAck => .printAck
  | .printAck | .halt => .halt

/-- What is given to `Send`. -/
def message : Line → Option (List UInt8)
  | .sendData => some data
  | .sendAck => some ack
  | _ => none

/-- The mailbox that `Receive` is called for. -/
def box : Line → Option (BitVec 32)
  | .receiveData => some 0
  | .receiveAck => some 1
  | _ => none

def prints : Line → Bool
  | .printData | .printAck => true
  | _ => false

end Line

namespace Vars

/-- The assignments before a call of `Send`. -/
def assign (vars : Vars) (farAddr : Address) : Line → Vars
  | .sendData =>
    { vars with
      outPktHdr := { vars.outPktHdr with dest := farAddr }
      outMailHdr := { dest := 0, reply := 1, length := size data } }
  | .sendAck =>
    { vars with
      outPktHdr := { vars.outPktHdr with dest := vars.inPktHdr.sender }
      outMailHdr := { vars.outMailHdr with dest := vars.inMailHdr.reply, length := size ack } }
  | _ => vars

/-- `Receive(box, &inPktHdr, &inMailHdr, buffer)` has returned this mail. -/
def take (vars : Vars) (mail : Mail) : Vars :=
  { vars with
    inPktHdr := mail.pktHdr
    inMailHdr := mail.mailHdr
    buffer := vars.buffer.splice 0 mail.mailHdr.length.toNat mail.data }

/-- `printf("Got \"%s\" from %d, box %d\n", buffer, inPktHdr.from, inMailHdr.from)`. -/
def got (vars : Vars) : Got where
  text := textOf vars.buffer MaxMailSize
  sender := vars.inPktHdr.sender
  box := vars.inMailHdr.reply

end Vars

/-- All machines, what they have printed, and whether their Nachos has exited, on
which its socket is gone. -/
structure World where
  net : Net
  printed : Address → List Got
  halted : Address → Bool
  /-- An `ASSERT` of `PostOffice::Send` failed. -/
  aborted : Address → Bool
  /-- The `ASSERT` of `SendToSocket` failed. -/
  refused : Address → Bool

namespace World

def print (w : World) (m : Address) (line : Got) : World :=
  { w with printed := Function.update w.printed m (w.printed m ++ [line]) }

@[simp] theorem print_same (w : World) (m : Address) (line : Got) :
    (w.print m line).printed m = w.printed m ++ [line] := Function.update_self ..

def exit (w : World) (m : Address) : World := { w with halted := Function.update w.halted m true }

def abort (w : World) (m : Address) : World :=
  { w.exit m with aborted := Function.update w.aborted m true }

def refuse (w : World) (m : Address) : World :=
  { w.exit m with refused := Function.update w.refused m true }

theorem exit_halted {w : World} {m m' : Address} (off : w.halted m' = true) :
    (w.exit m).halted m' = true := by
  by_cases same : m' = m
  · simp [exit, same]
  · simpa [exit, same] using off

end World

/-- The post office of each machine has ten boxes. -/
abbrev numBoxes : Nat := 10

/-- A postal worker, or the main thread: where it is in the post office, the call
it is in or comes to next, and its variables. -/
inductive Place where
  | worker (point : Point)
  | main (point : Point) (line : Line) (vars : Vars)

def Place.point : Place → Point
  | .worker point => point
  | .main point _ _ => point

/-- The `ASSERT`s of `PostOffice::Send`. -/
def Sendable (mailHdr : MailHeader) : Prop :=
  mailHdr.length.toNat ≤ MaxMailSize ∧ legalBox numBoxes mailHdr.dest = true

abbrev TestOp := PostOp Unit

/-- The postal workers, and `MailTest` on each machine. A machine that has exited
does nothing. -/
inductive Segment (farAddr : Address → Address) :
    ThreadId Unit → Place → World → TestOp → World → Place → Prop where
  | worker {m : Address} {u u' : Point} {w : World} {op : TestOp} {net : Net}
      (on : w.halted m = false) (does : PostOffice.Segment numBoxes (m, none) u w.net op net u') :
      Segment farAddr (m, none) (.worker u) w op { w with net := net } (.worker u')
  | sends {m : Address} {line : Line} {vars vars' : Vars} {w : World} {message : List UInt8}
      (on : w.halted m = false) (calls : line.message = some message)
      (assigned : vars' = vars.assign (farAddr m) line) (legal : Sendable vars'.outMailHdr)
      (fresh : Memory) :
      Segment farAddr (m, some ()) (.main .outside line vars) w (.acquire (.send m)) w
        (.main (.sending vars'.outPktHdr.dest vars'.outMailHdr (chars message)
          (concatenate fresh vars'.outMailHdr (chars message))) line vars')
  | aborts {m : Address} {line : Line} {vars vars' : Vars} {w : World} {message : List UInt8}
      (on : w.halted m = false) (calls : line.message = some message)
      (assigned : vars' = vars.assign (farAddr m) line) (illegal : ¬ Sendable vars'.outMailHdr) :
      Segment farAddr (m, some ()) (.main .outside line vars) w .finish (w.abort m)
        (.main .outside line vars')
  | receives {m : Address} {line : Line} {vars : Vars} {w : World} {b : BitVec 32}
      (on : w.halted m = false) (calls : line.box = some b) :
      Segment farAddr (m, some ()) (.main .outside line vars) w (.acquire (.box m b)) w
        (.main (.receiving b vars.buffer) line vars)
  /-- Within `Send` or `Receive`. No packet gets into the socket of a machine that has exited. -/
  | goesOn {m : Address} {u u' : Point} {line : Line} {vars : Vars} {w : World} {op : TestOp} {net : Net}
      (on : w.halted m = false) (inside : u ≠ .outside) (stays : u' ≠ .outside)
      (does : PostOffice.Segment numBoxes (m, some ()) u w.net op net u')
      (gone : ∀ dest, w.halted dest = true → net.channel m dest = w.net.channel m dest) :
      Segment farAddr (m, some ()) (.main u line vars) w op { w with net := net } (.main u' line vars)
  /-- `sendto` fails because there is no socket: `SendToSocket` aborts. -/
  | refused {m dest : Address} {mailHdr : MailHeader} {data buffer : Memory} {line : Line} {vars : Vars}
      {w : World} (on : w.halted m = false) (gone : w.halted dest = true) :
      Segment farAddr (m, some ()) (.main (.sending dest mailHdr data buffer) line vars) w .tick
        (w.refuse m) (.main (.sending dest mailHdr data buffer) line vars)
  | sent {m : Address} {line : Line} {vars : Vars} {w : World} (on : w.halted m = false) :
      Segment farAddr (m, some ()) (.main .sendDone line vars) w (.release (.send m)) w
        (.main .outside line.next vars)
  | gets {m : Address} {line : Line} {vars : Vars} {w : World} {b : BitVec 32} {mail : Mail} {rest : List Mail}
      (on : w.halted m = false) (first : (w.net.office m).boxes b = mail :: rest) :
      Segment farAddr (m, some ()) (.main (.receiving b vars.buffer) line vars) w (.release (.box m b))
        { w with net := w.net.setOffice m ((w.net.office m).get b mail rest vars.buffer) }
        (.main .outside line.next (vars.take mail))
  | prints {m : Address} {line : Line} {vars : Vars} {w : World} (on : w.halted m = false)
      (shows : line.prints = true) :
      Segment farAddr (m, some ()) (.main .outside line vars) w .tick (w.print m vars.got)
        (.main .outside line.next vars)
  | halts {m : Address} {vars : Vars} {w : World} (on : w.halted m = false) :
      Segment farAddr (m, some ()) (.main .outside .halt vars) w .finish (w.exit m)
        (.main .outside .halt vars)

/-- The machine whose device raises the interrupt. -/
def machineOf : Sem → Address
  | .available m | .sent m => m

/-- A machine that has exited handles no interrupts. -/
inductive Fires : World → Option Sem → World → Prop where
  | device {w : World} {s : Sem} {net : Net} (on : w.halted (machineOf s) = false)
      (fires : PostOffice.Fires w.net (some s) net) : Fires w (some s) { w with net := net }
  | drops {w : World} {net : Net} (fires : PostOffice.Fires w.net none net) :
      Fires w none { w with net := net }

def code (farAddr : Address → Address) : Code (ThreadId Unit) Sem LockId CondId Place World where
  segment := Segment farAddr
  handler := Fires

abbrev TestState := Threads.State (ThreadId Unit) Sem LockId CondId Place World
abbrev TestView := Threads.View (ThreadId Unit) Sem LockId CondId Place World

/-- The machines have just been started. -/
structure Begins (k : TestState) : Prop where
  offices : PostOffice.Begins (k.part Place.point World.net)
  main (m : Address) : ∃ vars, k.phase (m, some ()) = .fresh (.main .outside .sendData vars) ∨
    k.phase (m, some ()) = .running (.main .outside .sendData vars)
  silent (m : Address) : k.memory.printed m = [] ∧ k.memory.halted m = false ∧
    k.memory.aborted m = false ∧ k.memory.refused m = false

/-! ## Strings -/

/-- What is printed of a buffer that holds a string constant. -/
theorem textOf_chars {text : List UInt8} {buffer : Memory} {count : Nat} (fits : text.length < count)
    (nonzero : ∀ c ∈ text, c ≠ 0) (holds : ∀ i, i < text.length + 1 → buffer i = chars text i) :
    textOf buffer count = some text := by
  induction text generalizing buffer count with
  | nil =>
    cases count with
    | zero => exact absurd fits (Nat.not_lt_zero _)
    | succ count =>
      have zero : buffer 0 = 0 := holds 0 (Nat.succ_pos _)
      rw [textOf, if_pos zero]
  | cons c text ih =>
    cases count with
    | zero => exact absurd fits (Nat.not_lt_zero _)
    | succ count =>
      have first : buffer 0 = c := holds 0 (Nat.succ_pos _)
      have rest := ih (Nat.lt_of_succ_lt_succ fits) (fun c' member => nonzero c' (List.mem_cons_of_mem c member))
        fun i inside => holds (i + 1) (Nat.succ_lt_succ inside)
      rw [textOf, first, if_neg (nonzero c (List.mem_cons_self ..)), rest]
      rfl

/-! ## What a machine has done when it comes to a line -/

variable {farAddr : Address → Address} {m : Address} {line : Line} {vars : Vars} {w w' : World}

/-- The mails that `MailTest` sends on machine `m`. -/
def dataFrom (farAddr : Address → Address) (m : Address) : Letter where
  sender := m
  serial := 0
  dest := farAddr m
  header := { dest := 0, reply := 1, length := size data }
  data := chars data

def ackFor (m : Address) (receipt : Receipt) : Letter where
  sender := m
  serial := 1
  dest := receipt.pktHdr.sender
  header := { dest := receipt.mailHdr.reply, reply := 1, length := size ack }
  data := chars ack

/-- The line printed of a mail. -/
def gotOf (receipt : Receipt) : Got where
  text := textOf receipt.data MaxMailSize
  sender := receipt.pktHdr.sender
  box := receipt.mailHdr.reply

/-- The variables hold the mail received last. -/
structure Vars.Have (vars : Vars) (receipt : Receipt) : Prop where
  pktHdr : vars.inPktHdr = receipt.pktHdr
  mailHdr : vars.inMailHdr = receipt.mailHdr
  buffer : vars.buffer = receipt.data

/-- The mails sent and received and the lines printed when `MailTest` comes to a
line. -/
inductive Reached (farAddr : Address → Address) (m : Address) :
    Line → Vars → List Letter → List Receipt → List Got → Prop where
  | sendData {vars : Vars} : Reached farAddr m .sendData vars [] [] []
  | receiveData {vars : Vars} (replies : vars.outMailHdr.reply = 1) :
      Reached farAddr m .receiveData vars [dataFrom farAddr m] [] []
  | printData {vars : Vars} {first : Receipt} (replies : vars.outMailHdr.reply = 1) (have_ : vars.Have first)
      (box : first.box = 0) : Reached farAddr m .printData vars [dataFrom farAddr m] [first] []
  | sendAck {vars : Vars} {first : Receipt} (replies : vars.outMailHdr.reply = 1) (have_ : vars.Have first)
      (box : first.box = 0) :
      Reached farAddr m .sendAck vars [dataFrom farAddr m] [first] [gotOf first]
  | receiveAck {vars : Vars} {first : Receipt} (box : first.box = 0) :
      Reached farAddr m .receiveAck vars [dataFrom farAddr m, ackFor m first] [first] [gotOf first]
  | printAck {vars : Vars} {first second : Receipt} (have_ : vars.Have second) (box : first.box = 0)
      (box' : second.box = 1) :
      Reached farAddr m .printAck vars [dataFrom farAddr m, ackFor m first] [first, second] [gotOf first]
  | halt {vars : Vars} {first second : Receipt} (box : first.box = 0) (box' : second.box = 1) :
      Reached farAddr m .halt vars [dataFrom farAddr m, ackFor m first] [first, second]
        [gotOf first, gotOf second]

namespace Reached

variable {sent : List Letter} {received : List Receipt} {printed : List Got}

theorem took {b : BitVec 32} {mail : Mail} (reached : Reached farAddr m line vars sent received printed)
    (calls : line.box = some b) :
    Reached farAddr m line.next (vars.take mail) sent (received ++ [mail.receipt b vars.buffer]) printed := by
  have taken : (vars.take mail).Have (mail.receipt b vars.buffer) := ⟨rfl, rfl, rfl⟩
  cases reached with
  | receiveData replies =>
    cases calls
    exact .printData replies taken rfl
  | receiveAck box =>
    cases calls
    exact .printAck taken box rfl
  | _ => cases calls

theorem shown (reached : Reached farAddr m line vars sent received printed) (shows : line.prints = true) :
    Reached farAddr m line.next vars sent received (printed ++ [vars.got]) := by
  have same : ∀ {receipt : Receipt}, vars.Have receipt → vars.got = gotOf receipt := by
    intro receipt have_
    unfold Vars.got gotOf
    rw [have_.pktHdr, have_.mailHdr, have_.buffer]
  cases reached with
  | printData replies have_ box =>
    rw [same have_]
    exact .sendAck replies have_ box
  | printAck have_ box box' =>
    rw [same have_]
    exact .halt box box'
  | _ => cases shows

/-- The mail that `Send` is called with is the next of the two. -/
theorem sends {message : List UInt8} (reached : Reached farAddr m line vars sent received printed)
    (calls : line.message = some message) :
    Reached farAddr m line.next (vars.assign (farAddr m) line)
      (sent ++ [{ sender := m, serial := sent.length
                  dest := (vars.assign (farAddr m) line).outPktHdr.dest
                  header := (vars.assign (farAddr m) line).outMailHdr, data := chars message }])
      received printed := by
  cases reached with
  | sendData =>
    cases calls
    exact .receiveData rfl
  | @sendAck _ first replies have_ box =>
    cases calls
    have letter : ({ sender := m, serial := [dataFrom farAddr m].length
                     dest := (vars.assign (farAddr m) .sendAck).outPktHdr.dest
                     header := (vars.assign (farAddr m) .sendAck).outMailHdr
                     data := chars ack } : Letter) = ackFor m first := by
      simp only [Vars.assign, ackFor, have_.pktHdr, have_.mailHdr, replies, List.length_singleton]
    rw [letter]
    exact .receiveAck box
  | _ => cases calls

/-- Every mail sent asks for a reply in box 1. -/
theorem reply (reached : Reached farAddr m line vars sent received printed) {letter : Letter}
    (inside : letter ∈ sent) : letter.header.reply = 1 := by
  cases reached with
  | sendData => cases inside
  | receiveData | printData | sendAck =>
    rw [List.mem_singleton.mp inside]
    rfl
  | receiveAck | printAck | halt =>
    obtain rfl | rfl : letter = _ ∨ letter = _ := by simpa using inside
    · rfl
    · rfl

/-- Before the first mail is sent nothing was printed. -/
theorem nothing (reached : Reached farAddr m .sendData vars sent received printed) :
    sent = [] ∧ printed = [] := by
  cases reached with
  | sendData => exact ⟨rfl, rfl⟩

/-- The second mail goes to the sender of the one received. -/
theorem acknowledges (reached : Reached farAddr m .sendAck vars sent received printed) :
    ∃ first ∈ received, first.box = 0 ∧
      (vars.assign (farAddr m) .sendAck).outPktHdr.dest = first.pktHdr.sender ∧
      sent = [dataFrom farAddr m] := by
  cases reached with
  | @sendAck _ first replies have_ box =>
    refine ⟨first, List.mem_singleton_self _, box, ?_, rfl⟩
    simp only [Vars.assign, have_.pktHdr]

/-- If the mails received ask for replies in box 1, `Send` can be called. -/
theorem sendable {message : List UInt8} (reached : Reached farAddr m line vars sent received printed)
    (calls : line.message = some message) (replies : ∀ receipt ∈ received, receipt.mailHdr.reply = 1) :
    Sendable (vars.assign (farAddr m) line).outMailHdr := by
  cases reached with
  | sendData => exact ⟨show (size data).toNat ≤ MaxMailSize by decide, show legalBox numBoxes 0 = true by decide⟩
  | @sendAck _ first _ have_ box =>
    refine ⟨show (size ack).toNat ≤ MaxMailSize by decide, ?_⟩
    simp only [Vars.assign, have_.mailHdr, replies first (List.mem_singleton_self _)]
    decide
  | _ => cases calls

end Reached

/-! ## Steps -/

/-- Where the main thread of a machine stands, given what the machine has done. A
mail is among those sent from when `Send` has given it to the network. -/
def Script (farAddr : Address → Address) (m : Address) (sent : List Letter) (received : List Receipt)
    (printed : List Got) : Option Place → Prop
  | some (.main .outside line vars) => Reached farAddr m line vars sent received printed
  | some (.main (.sending dest mailHdr message _) line vars) => ∃ text before,
      line.message = some text ∧ vars = before.assign (farAddr m) line ∧ dest = vars.outPktHdr.dest ∧
        mailHdr = vars.outMailHdr ∧ message = chars text ∧ Reached farAddr m line before sent received printed
  | some (.main .sendDone line vars) => Reached farAddr m line.next vars sent received printed
  | some (.main (.receiving b into) line vars) =>
      line.box = some b ∧ into = vars.buffer ∧ Reached farAddr m line vars sent received printed
  | some _ => False
  | none => ∃ vars, Reached farAddr m .halt vars sent received printed

/-- A machine in a run. Only its first mail can be refused, by the machine it was
started to send to. -/
structure Follows (farAddr : Address → Address) (w : World) (m : Address) (place : Option Place) : Prop where
  script : Script farAddr m (w.net.office m).sent (w.net.office m).received (w.printed m) place
  fine : w.aborted m = false
  ends : w.halted m = true → place = none ∨ w.refused m = true
  refused : w.refused m = true → w.halted m = true ∧ w.halted (farAddr m) = true ∧
    (w.net.office m).sent = [] ∧ w.printed m = []

/-- What a machine has done is not for others to change. -/
structure Same (m : Address) (w w' : World) : Prop where
  sent : (w'.net.office m).sent = (w.net.office m).sent
  received : (w'.net.office m).received = (w.net.office m).received
  printed : w'.printed m = w.printed m
  aborted : w'.aborted m = w.aborted m
  refused : w'.refused m = w.refused m
  halted : w'.halted m = w.halted m

theorem Follows.congr {place : Option Place} (follows : Follows farAddr w m place) (same : Same m w w')
    (off : ∀ {m'}, w.halted m' = true → w'.halted m' = true) : Follows farAddr w' m place where
  script := by
    rw [same.sent, same.received, same.printed]
    exact follows.script
  fine := same.aborted.trans follows.fine
  ends halted := by
    rw [same.refused]
    exact follows.ends (same.halted.symm.trans halted)
  refused refused := by
    obtain ⟨halted, far, sent, printed⟩ := follows.refused (same.refused.symm.trans refused)
    exact ⟨off halted, off far, same.sent.trans sent, same.printed.trans printed⟩

/-- A machine that is on was not refused. -/
theorem Follows.not_refused {place : Option Place} (follows : Follows farAddr w m place)
    (on : w.halted m = false) : w.refused m ≠ true := fun refused => by
  have halted := (follows.refused refused).1
  rw [on] at halted
  cases halted

/-- Everything that was sent and received so far. -/
theorem Follows.reached {place : Option Place} (follows : Follows farAddr w m place) :
    ∃ line vars, Reached farAddr m line vars (w.net.office m).sent (w.net.office m).received (w.printed m) := by
  have script := follows.script
  unfold Script at script
  split at script
  · exact ⟨_, _, script⟩
  · obtain ⟨text, before, -, -, -, -, -, reached⟩ := script
    exact ⟨_, _, reached⟩
  · exact ⟨_, _, script⟩
  · exact ⟨_, _, script.2.2⟩
  · exact script.elim
  · obtain ⟨vars, reached⟩ := script
    exact ⟨_, _, reached⟩

/-- A machine that is set to an office with the same mails sent and received. -/
theorem same_office {m' : Address} {office : Office} {net : Net}
    (sent : office.sent = (net.office m').sent) (received : office.received = (net.office m').received) :
    ((net.setOffice m' office).office m).sent = (net.office m).sent ∧
      ((net.setOffice m' office).office m).received = (net.office m).received := by
  by_cases same : m = m'
  · subst same
    rw [Net.setOffice_same]
    exact ⟨sent, received⟩
  · rw [Net.setOffice_other _ same]
    exact ⟨rfl, rfl⟩

/-- The postal workers send and receive nothing by `Send` and `Receive`. -/
theorem same_worker {m' : Address} {u u' : Point} {net net' : Net} {op : TestOp}
    (does : PostOffice.Segment numBoxes (m', none) u net op net' u') :
    (net'.office m).sent = (net.office m).sent ∧ (net'.office m).received = (net.office m).received := by
  cases does with
  | awaits => exact ⟨rfl, rfl⟩
  | fetches letter fresh recorded => exact same_office rfl rfl
  | puts => exact same_office rfl rfl
  | putAway => exact ⟨rfl, rfl⟩

theorem same_handler {net net' : Net} {raised : Option Sem} (fires : PostOffice.Fires net raised net') :
    (net'.office m).sent = (net.office m).sent ∧ (net'.office m).received = (net.office m).received := by
  cases fires with
  | poll empty arrived => exact same_office rfl rfl
  | sendDone pending => exact same_office rfl rfl
  | drops under => exact ⟨rfl, rfl⟩

/-- No machine comes back. -/
theorem Segment.off {t : ThreadId Unit} {u next : Place} {op : TestOp} {m' : Address}
    (does : Segment farAddr t u w op w' next) (halted : w.halted m' = true) : w'.halted m' = true := by
  cases does with
  | aborts => exact World.exit_halted halted
  | refused => exact World.exit_halted halted
  | halts => exact World.exit_halted halted
  | _ => exact halted

/-- Another machine has done nothing in a segment. -/
theorem Segment.elsewhere {t : ThreadId Unit} {u next : Place} {op : TestOp}
    (does : Segment farAddr t u w op w' next) (other : t ≠ (m, some ())) : Same m w w' := by
  have apart : ∀ {m' : Address}, (m', some ()) ≠ (m, some ()) → m ≠ m' := by
    rintro m' differ rfl
    exact differ rfl
  cases does with
  | worker on does => exact ⟨(same_worker does).1, (same_worker does).2, rfl, rfl, rfl, rfl⟩
  | sends => exact ⟨rfl, rfl, rfl, rfl, rfl, rfl⟩
  | aborts =>
    exact ⟨rfl, rfl, rfl, Function.update_of_ne (apart other) _ _, rfl, Function.update_of_ne (apart other) _ _⟩
  | receives => exact ⟨rfl, rfl, rfl, rfl, rfl, rfl⟩
  | goesOn on inside stays does gone =>
    cases does with
    | transmits fresh letter recorded =>
      rw [Net.setChannel, Net.setOffice]
      exact ⟨by simp [apart other], by simp [apart other], rfl, rfl, rfl, rfl⟩
    | loses letter recorded =>
      exact ⟨by simp [Net.setOffice, apart other], by simp [Net.setOffice, apart other], rfl, rfl, rfl, rfl⟩
    | waits empty => exact ⟨rfl, rfl, rfl, rfl, rfl, rfl⟩
    | _ => contradiction
  | refused =>
    exact ⟨rfl, rfl, rfl, rfl, Function.update_of_ne (apart other) _ _, Function.update_of_ne (apart other) _ _⟩
  | sent => exact ⟨rfl, rfl, rfl, rfl, rfl, rfl⟩
  | gets on first =>
    exact ⟨by simp [Net.setOffice, apart other], by simp [Net.setOffice, apart other], rfl, rfl, rfl, rfl⟩
  | prints on shows => exact ⟨rfl, rfl, Function.update_of_ne (apart other) _ _, rfl, rfl, rfl⟩
  | halts => exact ⟨rfl, rfl, rfl, rfl, rfl, Function.update_of_ne (apart other) _ _⟩

/-- The main thread comes one segment further, if the mails it got ask for replies
in box 1 and their senders are there until they get one. -/
theorem Segment.own {u next : Place} {op : TestOp} (does : Segment farAddr (m, some ()) u w op w' next)
    (follows : Follows farAddr w m (some u))
    (replies : ∀ receipt ∈ (w.net.office m).received, receipt.mailHdr.reply = 1)
    (waiting : ∀ receipt ∈ (w.net.office m).received, receipt.box = 0 →
      (w.net.office m).sent = [dataFrom farAddr m] → w.halted receipt.pktHdr.sender = false) :
    Follows farAddr w' m (op.resumes next) := by
  have off : w.halted m = false → ∀ {p : Prop}, w.halted m = true → p := by
    intro on p halted
    rw [on] at halted
    cases halted
  have kept : w.halted m = false → ∀ {p : Prop}, w.refused m = true → p :=
    fun on p refused => absurd refused (follows.not_refused on)
  have script := follows.script
  cases does with
  | sends on calls assigned legal fresh =>
    exact ⟨⟨_, _, calls, assigned, rfl, rfl, rfl, script⟩, follows.fine, off on, kept on⟩
  | aborts on calls assigned illegal =>
    have reached : Reached farAddr m _ _ _ _ _ := script
    rw [assigned] at illegal
    exact absurd (reached.sendable calls replies) illegal
  | receives on calls => exact ⟨⟨calls, rfl, script⟩, follows.fine, off on, kept on⟩
  | goesOn on inside stays does gone =>
    cases does with
    | @transmits _ _ _ dest mailHdr message buffer fresh letter recorded =>
      obtain ⟨text, before, calls, rfl, rfl, rfl, rfl, reached⟩ := script
      refine ⟨?_, follows.fine, off on, kept on⟩
      have further := reached.sends calls
      subst recorded
      rw [Net.setChannel_office, Net.setOffice_same]
      exact further
    | @loses _ _ _ dest mailHdr message buffer letter recorded =>
      obtain ⟨text, before, calls, rfl, rfl, rfl, rfl, reached⟩ := script
      refine ⟨?_, follows.fine, off on, kept on⟩
      have further := reached.sends calls
      subst recorded
      rw [Net.setOffice_same]
      exact further
    | waits empty => exact ⟨script, follows.fine, off on, kept on⟩
    | _ => contradiction
  | @refused _ dest _ _ _ line vars _ on gone =>
    refine ⟨script, follows.fine, fun _ => .inr (Function.update_self ..), fun _ => ?_⟩
    obtain ⟨text, before, calls, rfl, rfl, -, -, reached⟩ := script
    cases line with
    | sendData =>
      obtain ⟨sent, printed⟩ := reached.nothing
      exact ⟨Function.update_self .., World.exit_halted gone, sent, printed⟩
    | sendAck =>
      -- the sender of the mail that is acknowledged is still waiting
      obtain ⟨first, there, box, dest, sent⟩ := reached.acknowledges
      rw [dest, waiting first there box sent] at gone
      cases gone
    | _ => cases calls
  | sent on => exact ⟨script, follows.fine, off on, kept on⟩
  | gets on first =>
    obtain ⟨calls, -, reached⟩ := script
    refine ⟨?_, follows.fine, off on, kept on⟩
    rw [Net.setOffice_same]
    exact reached.took calls
  | prints on shows =>
    have reached : Reached farAddr m _ _ _ _ _ := script
    refine ⟨?_, follows.fine, off on, kept on⟩
    rw [World.print_same]
    exact reached.shown shows
  | halts on => exact ⟨⟨_, script⟩, follows.fine, fun _ => .inl rfl, kept on⟩

/-- The calls of `MailTest` are calls of the post office. -/
theorem code_calls : (code farAddr).Calls (PostOffice.code numBoxes Unit) Place.point World.net where
  segment does := by
    cases does with
    | worker on does => exact .inl does
    | sends on calls assigned legal fresh => exact .inl (.send _ _ _ fresh legal.1 legal.2)
    | aborts => exact .inl .finishes
    | @receives m line vars w b on calls =>
      have legal : legalBox numBoxes b = true := by
        cases line <;> cases calls <;> decide
      exact .inl (.receive _ _ legal)
    | goesOn on inside stays does => exact .inl does
    | refused => exact .inr ⟨rfl, rfl, rfl⟩
    | sent => exact .inl .sent
    | gets on first => exact .inl (.gets first)
    | prints => exact .inl .idles
    | halts => exact .inl .finishes
  handler fires := by
    cases fires with
    | device on fires => exact fires
    | drops fires => exact fires

/-- What a machine has sent: its first mail, and after printing a mail that came to
box 0 the acknowledgement of that one. -/
theorem Reached.letter {sent : List Letter} {received : List Receipt} {printed : List Got} {letter : Letter}
    (reached : Reached farAddr m line vars sent received printed) (inside : letter ∈ sent) :
    sent.head? = some (dataFrom farAddr m) ∧ (letter = dataFrom farAddr m ∨
      ∃ first ∈ received, first.box = 0 ∧ letter = ackFor m first ∧ printed.head? = some (gotOf first)) := by
  cases reached with
  | sendData => cases inside
  | receiveData | printData | sendAck => exact ⟨rfl, .inl (List.mem_singleton.mp inside)⟩
  | receiveAck box | printAck _ box | halt box =>
    refine ⟨rfl, ?_⟩
    obtain rfl | rfl : letter = _ ∨ letter = _ := by simpa using inside
    · exact .inl rfl
    · exact .inr ⟨_, List.mem_cons_self .., box, rfl, rfl⟩

theorem Reached.lines {sent : List Letter} {received : List Receipt} {printed : List Got}
    (reached : Reached farAddr m line vars sent received printed) :
    printed = [] ∨ (∃ first ∈ received, first.box = 0 ∧ printed = [gotOf first]) ∨
      ∃ first ∈ received, ∃ second ∈ received, first.box = 0 ∧ second.box = 1 ∧
        printed = [gotOf first, gotOf second] := by
  cases reached with
  | sendData | receiveData | printData => exact .inl rfl
  | sendAck _ _ box | receiveAck box | printAck _ box =>
    exact .inr (.inl ⟨_, List.mem_cons_self .., box, rfl⟩)
  | halt box box' =>
    exact .inr (.inr ⟨_, List.mem_cons_self .., _, List.mem_cons_of_mem _ (List.mem_cons_self ..), box, box', rfl⟩)

theorem Reached.halt_lines {sent : List Letter} {received : List Receipt} {printed : List Got}
    (reached : Reached farAddr m .halt vars sent received printed) : printed.length = 2 := by
  cases reached with
  | halt => rfl

theorem Reached.halt_acknowledged {sent : List Letter} {received : List Receipt} {printed : List Got}
    (reached : Reached farAddr m .halt vars sent received printed) :
    ∃ second ∈ received, second.box = 1 := by
  cases reached with
  | halt box box' => exact ⟨_, List.mem_cons_of_mem _ (List.mem_singleton_self _), box'⟩

theorem text_of_holds {receipt : Receipt} {text : List UInt8} (holds : receipt.Holds m)
    (message : receipt.letter.data = chars text) (length : receipt.letter.header.length.toNat = text.length + 1)
    (fits : text.length < MaxMailSize) (nonzero : text.all (· != 0) = true) :
    textOf receipt.data MaxMailSize = some text := by
  refine textOf_chars fits (fun c there => bne_iff_ne.mp (List.all_eq_true.mp nonzero c there)) fun i inside => ?_
  rw [holds.data i (by omega), message]

/-- All machines in a run. -/
structure Going (farAddr : Address → Address) (v : TestView) : Prop where
  nonneg (id : SemId Sem LockId) : 0 ≤ v.value id
  sound : PostOffice.Sound numBoxes (v.part Place.point World.net)
  follows (m : Address) : Follows farAddr v.memory m (v.stage (m, some ())).next

namespace Going

variable {v v' : TestView} {receipt : Receipt}

theorem known (going : Going farAddr v) (inside : receipt ∈ (v.memory.net.office m).received) :
    receipt.Holds m ∧ receipt.letter ∈ (v.memory.net.office receipt.letter.sender).sent := by
  obtain ⟨holds, genuine⟩ := (going.sound.machines m).received receipt inside
  exact ⟨holds, List.mem_of_getElem? genuine.recorded⟩

theorem replies (going : Going farAddr v) (inside : receipt ∈ (v.memory.net.office m).received) :
    receipt.mailHdr.reply = 1 := by
  obtain ⟨holds, sent⟩ := going.known inside
  obtain ⟨line, vars, reached⟩ := (going.follows receipt.letter.sender).reached
  rw [holds.header]
  exact reached.reply sent

/-- A mail in box 0 is the first of a machine that was started with this one's
address. -/
theorem gotData (going : Going farAddr v) (inside : receipt ∈ (v.memory.net.office m).received)
    (box : receipt.box = 0) : ∃ sender, gotOf receipt = ⟨some data, sender, 1⟩ ∧
      receipt.pktHdr.sender = sender ∧ farAddr sender = m ∧
      (v.memory.net.office sender).sent.head? = some (dataFrom farAddr sender) := by
  obtain ⟨holds, sent⟩ := going.known inside
  obtain ⟨line, vars, reached⟩ := (going.follows receipt.letter.sender).reached
  obtain ⟨head, first | ⟨first, there, -, letter, -⟩⟩ := reached.letter sent
  · have sender : receipt.pktHdr.sender = receipt.letter.sender := by
      rw [holds.packet]
      rfl
    have text : textOf receipt.data MaxMailSize = some data :=
      text_of_holds holds (by rw [first]; rfl) (by rw [first]; rfl) (by decide) (by decide)
    have dest := holds.dest
    rw [first] at dest
    refine ⟨receipt.letter.sender, ?_, sender, dest, head⟩
    rw [gotOf, text, sender, going.replies inside]
  · have dest := holds.box
    rw [box, letter] at dest
    rw [show (ackFor _ first).header.dest = 1 from going.replies there] at dest
    cases dest

/-- A mail in box 1 was sent by the machine that this one was started to send to,
after it had printed this one's mail. -/
theorem ackFrom (going : Going farAddr v) (inside : receipt ∈ (v.memory.net.office m).received)
    (box : receipt.box = 1) : ∃ first, receipt.letter = ackFor (farAddr m) first ∧
      receipt.letter ∈ (v.memory.net.office (farAddr m)).sent ∧
      (v.memory.printed (farAddr m)).head? = some ⟨some data, m, 1⟩ := by
  obtain ⟨holds, sent⟩ := going.known inside
  obtain ⟨line, vars, reached⟩ := (going.follows receipt.letter.sender).reached
  obtain ⟨-, first | ⟨first, there, zero, letter, printed⟩⟩ := reached.letter sent
  · have dest := holds.box
    rw [box, first] at dest
    cases dest
  · obtain ⟨sender, got, packet, far, -⟩ := going.gotData there zero
    have dest := holds.dest
    rw [letter] at dest
    obtain rfl : sender = m := packet.symm.trans dest
    rw [far]
    exact ⟨first, letter, sent, printed.trans (congrArg some got)⟩

theorem gotAck (going : Going farAddr v) (inside : receipt ∈ (v.memory.net.office m).received)
    (box : receipt.box = 1) : gotOf receipt = ⟨some ack, farAddr m, 1⟩ ∧
      (v.memory.printed (farAddr m)).head? = some ⟨some data, m, 1⟩ := by
  obtain ⟨first, letter, -, printed⟩ := going.ackFrom inside box
  obtain ⟨holds, -⟩ := going.known inside
  have sender : receipt.pktHdr.sender = farAddr m := by
    rw [holds.packet, letter]
    rfl
  have text : textOf receipt.data MaxMailSize = some ack :=
    text_of_holds holds (by rw [letter]; rfl) (by rw [letter]; rfl) (by decide) (by decide)
  refine ⟨?_, printed⟩
  rw [gotOf, text, sender, going.replies inside]

/-- A machine whose mail was received is there until that mail is acknowledged. -/
theorem waiting (going : Going farAddr v) (inside : receipt ∈ (v.memory.net.office m).received)
    (box : receipt.box = 0) (unanswered : (v.memory.net.office m).sent = [dataFrom farAddr m]) :
    v.memory.halted receipt.pktHdr.sender = false := by
  obtain ⟨sender, -, same, far, sent⟩ := going.gotData inside box
  rw [same]
  by_contra off
  have follows := going.follows sender
  obtain gone | refused := follows.ends (by simpa using off)
  · -- it has read an acknowledgement, and only this machine could send it
    have script := follows.script
    rw [gone] at script
    obtain ⟨vars, reached⟩ := script
    obtain ⟨second, there, box'⟩ := reached.halt_acknowledged
    obtain ⟨first, letter, answer, -⟩ := going.ackFrom there box'
    obtain ⟨holds, -⟩ := going.known there
    rw [far, unanswered, List.mem_singleton] at answer
    have dest := holds.box
    rw [box', answer] at dest
    cases dest
  · rw [(follows.refused refused).2.2.1] at sent
    cases sent

theorem step (going : Going farAddr v) (step : View.Step (code farAddr) v v') : Going farAddr v' where
  nonneg := step.nonneg going.nonneg
  sound := going.sound.act (act_of_step going.sound.fits (step.part code_calls)) going.nonneg
  follows m := by
    obtain ⟨same, moves⟩ | ⟨t, u, op, w, next, stands, does, same, moves⟩ | ⟨raised, w, fires, same, stages⟩ :=
      step.moves
    · rw [same, moves]
      exact going.follows m
    · rw [same, moves]
      by_cases own : (m, some ()) = t
      · subst own
        rw [if_pos rfl]
        have follows := going.follows m
        rw [stands] at follows
        exact does.own follows (fun receipt inside => going.replies inside)
          fun receipt inside box unanswered => going.waiting inside box unanswered
      · rw [if_neg own]
        exact (going.follows m).congr (does.elsewhere (Ne.symm own)) does.off
    · rw [same, stages]
      cases fires with
      | device on fires =>
        exact (going.follows m).congr ⟨(same_handler fires).1, (same_handler fires).2, rfl, rfl, rfl, rfl⟩ id
      | drops fires =>
        exact (going.follows m).congr ⟨(same_handler fires).1, (same_handler fires).2, rfl, rfl, rfl, rfl⟩ id

end Going

theorem Begins.going {k : TestState} (begins : Begins k) : Going farAddr k.view where
  nonneg := begins.offices.value
  sound := by
    rw [← State.view_part]
    exact begins.offices.sound
  follows m := by
    obtain ⟨vars, stands⟩ := begins.main m
    obtain ⟨printed, halted, aborted, refused⟩ := begins.silent m
    have fresh : (k.memory.net.office m).sent = [] ∧ (k.memory.net.office m).received = [] :=
      (begins.offices.unrecorded m).2.2.2
    have place : (k.view.stage (m, some ())).next = some (.main .outside .sendData vars) := by
      obtain fresh | running := stands
      · simp only [State.view, fresh]
        rfl
      · simp only [State.view, running]
        rfl
    rw [place]
    refine ⟨?_, aborted, fun exited => ?_, fun refused' => ?_⟩
    · show Reached farAddr m .sendData vars (k.memory.net.office m).sent (k.memory.net.office m).received
        (k.memory.printed m)
      rw [fresh.1, fresh.2, printed]
      exact .sendData
    · rw [show k.view.memory.halted m = false from halted] at exited
      cases exited
    · rw [show k.view.memory.refused m = false from refused] at refused'
      cases refused'

/-- What holds in every state of a run. -/
theorem Begins.run {start k : TestState} {trace : List (Event (ThreadId Unit) Sem LockId CondId)}
    (begins : Begins start) (run : Runs (Threads.Step (code farAddr)) start trace k) : Going farAddr k.view :=
  run.invariant_state (P := fun k => Going farAddr k.view) begins.going fun going step => going.step step.view

/-- Whatever mails the network loses and however the threads of all machines
interleave: what `MailTest` prints first is the mail of a machine that was started
to send to this one, which has sent it; what it prints second is the
acknowledgement of its own mail by the machine it was sent to, which has printed
that mail before. It exits only after both, or when its first mail is refused
because the machine it is started to send to has exited; no acknowledgement is
refused, and no other `ASSERT` fails. -/
theorem acknowledged_mail_was_printed {start k : TestState}
    {trace : List (Event (ThreadId Unit) Sem LockId CondId)} (begins : Begins start)
    (run : Runs (Threads.Step (code farAddr)) start trace k) (m : Address) :
    (∀ got, (k.memory.printed m)[0]? = some got → ∃ sender, got = ⟨some data, sender, 1⟩ ∧
      farAddr sender = m ∧ (k.memory.net.office sender).sent.head? = some (dataFrom farAddr sender)) ∧
    (∀ got, (k.memory.printed m)[1]? = some got → got = ⟨some ack, farAddr m, 1⟩ ∧
      (k.memory.printed (farAddr m)).head? = some ⟨some data, m, 1⟩) ∧
    (k.memory.printed m).length ≤ 2 ∧
    (k.memory.halted m = true → (k.memory.printed m).length = 2 ∨ k.memory.refused m = true) ∧
    (k.memory.refused m = true → k.memory.halted (farAddr m) = true ∧
      (k.memory.net.office m).sent = [] ∧ k.memory.printed m = []) ∧
    k.memory.aborted m = false ∧ (k.memory.net.office m).failed = false := by
  have going := begins.run run
  have follows := going.follows m
  obtain ⟨line, vars, reached⟩ := follows.reached
  have first : ∀ {receipt : Receipt}, receipt ∈ (k.memory.net.office m).received → receipt.box = 0 →
      ∃ sender, gotOf receipt = ⟨some data, sender, 1⟩ ∧ farAddr sender = m ∧
        (k.memory.net.office sender).sent.head? = some (dataFrom farAddr sender) := by
    intro receipt there box
    obtain ⟨sender, got, -, far, sent⟩ := going.gotData there box
    exact ⟨sender, got, far, sent⟩
  have rest : (k.memory.halted m = true → (k.memory.printed m).length = 2 ∨ k.memory.refused m = true) ∧
      (k.memory.refused m = true → k.memory.halted (farAddr m) = true ∧
        (k.memory.net.office m).sent = [] ∧ k.memory.printed m = []) ∧
      k.memory.aborted m = false ∧ (k.memory.net.office m).failed = false := by
    refine ⟨fun halted => ?_, fun refused => (follows.refused refused).2, follows.fine,
      (going.sound.machines m).fine⟩
    obtain gone | refused := follows.ends halted
    · have script := follows.script
      rw [gone] at script
      obtain ⟨last, all⟩ := script
      exact .inl all.halt_lines
    · exact .inr refused
  obtain none | ⟨data, there, box, one⟩ | ⟨data, there, ack, there', box, box', two⟩ := reached.lines
  · rw [show k.memory.printed m = [] from none] at rest ⊢
    exact ⟨fun got at_ => (by cases at_), fun got at_ => (by cases at_), Nat.zero_le _, rest⟩
  · rw [show k.memory.printed m = [gotOf data] from one] at rest ⊢
    refine ⟨fun got at_ => ?_, fun got at_ => (by cases at_), by simp, rest⟩
    obtain rfl := Option.some.inj at_
    exact first there box
  · rw [show k.memory.printed m = [gotOf data, gotOf ack] from two] at rest ⊢
    refine ⟨fun got at_ => ?_, fun got at_ => ?_, by simp, rest⟩
    · obtain rfl := Option.some.inj at_
      exact first there box
    · obtain rfl := Option.some.inj at_
      exact going.gotAck there' box'

/-! A machine that sends to itself. -/

def firstVars : Vars where
  outPktHdr := { dest := 0, sender := 0, length := 0 }
  inPktHdr := { dest := 0, sender := 0, length := 0 }
  outMailHdr := { dest := 0, reply := 0, length := 0 }
  inMailHdr := { dest := 0, reply := 0, length := 0 }
  buffer _ := 0

def quietTest : TestState where
  sem := quietNet.sem
  owner _ := none
  queue _ := []
  phase
    | (_, none) => .running (.worker .idle)
    | (_, some ()) => .running (.main .outside .sendData firstVars)
  memory :=
    { net := quietNet.memory
      printed := fun _ => []
      halted := fun _ => false
      aborted := fun _ => false
      refused := fun _ => false }

theorem quietTest_begins : Begins quietTest where
  offices := by
    have same : quietTest.part Place.point World.net = quietNet := by
      simp only [State.part, quietTest, quietNet, Threads.State.mk.injEq, true_and, and_true]
      funext t
      obtain ⟨m, _ | ⟨⟩⟩ := t
      · rfl
      · rfl
    rw [same]
    exact quietNet_begins
  main _ := ⟨firstVars, .inr rfl⟩
  silent _ := ⟨rfl, rfl, rfl, rfl⟩

theorem acknowledged_mail_was_printed_alone : ∃ trace k,
    Runs (Threads.Step (code fun m => m)) quietTest trace k ∧ k.memory.halted 0 = true ∧
      (k.memory.printed 0).length = 2 := by
  have sends : Runs (Threads.Step (code fun m => m)) quietTest _ _ :=
    .next .start (.segment (t := (0, some ())) rfl
      (.sends rfl rfl rfl ⟨by decide, by decide⟩ fun _ => 0) (by simp))
  have transmits := sends.next (.segment (t := (0, some ())) rfl
    (.goesOn rfl (by simp) (by simp) (.transmits (fun _ => 0) _ rfl)
      fun _ off => (Bool.false_ne_true off).elim) (by simp))
  have interrupts := transmits.next (.interrupt (.device rfl (.sendDone (m := 0) (by decide))))
  have wakes := interrupts.next (.retest (t := (0, some ())) rfl)
  have sent := wakes.next (.segment (t := (0, some ())) rfl (.sent rfl) (by simp))
  have arrives := sent.next (.interrupt (.device rfl (@PostOffice.Fires.poll _ 0 0 _ _ rfl rfl)))
  have works := arrives.next (.segment (t := (0, none)) rfl (.worker rfl .awaits) (by simp))
  have fetches := works.next (.segment (t := (0, none)) rfl (.worker rfl (.fetches _ (fun _ => 0) rfl)) (by simp))
  have puts := fetches.next (.segment (t := (0, none)) rfl (.worker rfl .puts) (by simp))
  have leaves := puts.next (.segment (t := (0, none)) rfl (.worker rfl .putAway) (by simp))
  have asks := leaves.next (.segment (t := (0, some ())) rfl (.receives rfl rfl) (by simp))
  have gets := asks.next (.segment (t := (0, some ())) rfl (.gets rfl rfl) (by simp))
  have prints := gets.next (.segment (t := (0, some ())) rfl (.prints rfl rfl) (by simp))
  have answers := prints.next (.segment (t := (0, some ())) rfl
    (.sends rfl rfl rfl ⟨by decide, by decide⟩ fun _ => 0) (by simp))
  have transmits' := answers.next (.segment (t := (0, some ())) rfl
    (.goesOn rfl (by simp) (by simp) (.transmits (fun _ => 0) _ rfl)
      fun _ off => (Bool.false_ne_true off).elim) (by simp))
  have interrupts' := transmits'.next (.interrupt (.device rfl (.sendDone (m := 0) (by decide))))
  have wakes' := interrupts'.next (.retest (t := (0, some ())) rfl)
  have sent' := wakes'.next (.segment (t := (0, some ())) rfl (.sent rfl) (by simp))
  have arrives' := sent'.next (.interrupt (.device rfl (@PostOffice.Fires.poll _ 0 0 _ _ rfl rfl)))
  have works' := arrives'.next (.segment (t := (0, none)) rfl (.worker rfl .awaits) (by simp))
  have fetches' := works'.next (.segment (t := (0, none)) rfl (.worker rfl (.fetches _ (fun _ => 0) rfl)) (by simp))
  have puts' := fetches'.next (.segment (t := (0, none)) rfl (.worker rfl .puts) (by simp))
  have leaves' := puts'.next (.segment (t := (0, none)) rfl (.worker rfl .putAway) (by simp))
  have asks' := leaves'.next (.segment (t := (0, some ())) rfl (.receives rfl rfl) (by simp))
  have gets' := asks'.next (.segment (t := (0, some ())) rfl (.gets rfl rfl) (by simp))
  have prints' := gets'.next (.segment (t := (0, some ())) rfl (.prints rfl rfl) (by simp))
  have halts := prints'.next (.segment (t := (0, some ())) rfl (.halts rfl) (by simp))
  have done := (acknowledged_mail_was_printed quietTest_begins halts 0).2.2.2.1 rfl
  exact ⟨_, _, halts, rfl, done.resolve_right Bool.false_ne_true⟩

end Nachos.MailTest
