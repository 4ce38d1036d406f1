import Nachos.Effects.Bytes
import Nachos.Threads.View

/-! Post offices on any number of machines (`network/post.cc`,
`machine/network.cc`).

`Send` puts a mail header and the data behind a packet header, pads the packet to
the size of the wire and gives it to a socket. A poll interrupt reads one packet
into the network's buffer and raises `messageAvailable`; the postal worker fetches
it and puts it into the mailbox the mail header names, a `SynchList`. Sockets
keep the datagrams of one sender in order and may lose any of them. No machine
exits here, so `SendToSocket` always finds the socket it sends to. -/
namespace Nachos.PostOffice
open Effects Threads

/-- `NetworkAddress`, a C `int`; it names the machine. -/
abbrev Address := BitVec 32

/-- `PacketHeader`: `to`, `from`, `length`. -/
structure PacketHeader where
  dest : Address
  sender : Address
  length : BitVec 32
deriving DecidableEq

/-- `MailHeader`: `to`, `from`, `length`. -/
structure MailHeader where
  dest : BitVec 32
  reply : BitVec 32
  length : BitVec 32
deriving DecidableEq

/-- Bytes on the wire, in a packet behind its header, and in a mail behind both. -/
def MaxWireSize : Nat := 64
def MaxPacketSize : Nat := MaxWireSize - 12
def MaxMailSize : Nat := MaxPacketSize - 12

/-- A mail as it was given to `Send`, with the machine it was sent from and its
place among that machine's mails. Only recorded, never looked at by the code. -/
structure Letter where
  sender : Address
  serial : Nat
  dest : Address
  header : MailHeader
  data : Memory

/-- `Mail`. -/
structure Mail where
  pktHdr : PacketHeader
  mailHdr : MailHeader
  data : Memory
  letter : Letter

/-- A datagram. -/
structure Wire where
  bytes : Memory
  letter : Letter

/-- What one `Receive` returned. -/
structure Receipt where
  box : BitVec 32
  pktHdr : PacketHeader
  mailHdr : MailHeader
  data : Memory
  letter : Letter

/-- What `Receive` copies out of a mail. -/
def Mail.receipt (mail : Mail) (box : BitVec 32) (into : Memory) : Receipt where
  box := box
  pktHdr := mail.pktHdr
  mailHdr := mail.mailHdr
  data := into.splice 0 mail.mailHdr.length.toNat mail.data
  letter := mail.letter

/-- The network device and the post office of one machine. The fields from
`buffered` on record the run. -/
structure Office where
  inHdr : PacketHeader
  inbox : Memory
  sendBusy : Bool
  /-- `SendDone` interrupts that are pending. -/
  sendsPending : Nat
  /-- The postal worker's buffer. -/
  buffer : Memory
  boxes : BitVec 32 → List Mail
  /-- An `ASSERT` failed. -/
  failed : Bool
  /-- The packet that was read from the socket and not fetched yet. -/
  buffered : Option Letter
  /-- A packet was read over one that was not fetched, or the worker fetched none. -/
  overwrote : Bool
  fetchedNothing : Bool
  sent : List Letter
  received : List Receipt

/-- All machines, and the datagrams under way from one to another. -/
structure Net where
  office : Address → Office
  channel : Address → Address → List Wire

namespace Net

def setOffice (net : Net) (m : Address) (office : Office) : Net :=
  { net with office := Function.update net.office m office }

def setChannel (net : Net) (sender dest : Address) (wires : List Wire) : Net :=
  let row := Function.update (net.channel sender) dest wires
  { net with channel := Function.update net.channel sender row }

end Net

/-! ## Packets -/

/-- `*(PacketHeader *)buffer`. -/
def PacketHeader.read (bytes : Memory) : PacketHeader where
  dest := bytes.word 0
  sender := bytes.word 4
  length := bytes.word 8

def PacketHeader.write (bytes : Memory) (hdr : PacketHeader) : Memory :=
  ((bytes.setWord 0 hdr.dest).setWord 4 hdr.sender).setWord 8 hdr.length

/-- `*(MailHeader *)buffer`. -/
def MailHeader.read (bytes : Memory) : MailHeader where
  dest := bytes.word 0
  reply := bytes.word 4
  length := bytes.word 8

def MailHeader.write (bytes : Memory) (hdr : MailHeader) : Memory :=
  ((bytes.setWord 0 hdr.dest).setWord 4 hdr.reply).setWord 8 hdr.length

/-- `PostOffice::Send` up to `sendLock`: the mail header and the data in a new
buffer. -/
def concatenate (fresh : Memory) (mailHdr : MailHeader) (data : Memory) : Memory :=
  (MailHeader.write fresh mailHdr).splice 12 mailHdr.length.toNat data

/-- The packet header `Send` fills in. -/
def outgoing (netAddr dest : Address) (mailHdr : MailHeader) : PacketHeader where
  dest := dest
  sender := netAddr
  length := mailHdr.length + 12

/-- `Network::Send`: the datagram. -/
def frame (fresh : Memory) (hdr : PacketHeader) (data : Memory) : Memory :=
  (PacketHeader.write fresh hdr).splice 12 hdr.length.toNat data

def Letter.framed (letter : Letter) (fresh : Memory) (hdr : PacketHeader) (data : Memory) : Wire where
  bytes := frame fresh hdr data
  letter := letter

/-- `0 <= mailHdr.to && mailHdr.to < numBoxes`. -/
def legalBox (numBoxes : Nat) (box : BitVec 32) : Bool := 0 ≤ box.toInt ∧ box.toInt < numBoxes

namespace Office

/-- What the machine's next mail is recorded as. -/
def posted (office : Office) (m dest : Address) (mailHdr : MailHeader) (data : Memory) : Letter where
  sender := m
  serial := office.sent.length
  dest := dest
  header := mailHdr
  data := data

/-- `Network::Send` and its `ASSERT`. -/
def send (office : Office) (m : Address) (hdr : PacketHeader) (letter : Letter) : Office :=
  { office with
    failed := office.failed || office.sendBusy || hdr.length == 0 ||
      decide (MaxPacketSize < hdr.length.toNat) || hdr.sender != m
    sendsPending := office.sendsPending + 1
    sent := office.sent ++ [letter] }

/-- `Network::SendDone`. -/
def sendDone (office : Office) : Office :=
  { office with sendBusy := false, sendsPending := office.sendsPending - 1 }

/-- `Network::CheckPktAvail` when a datagram can be read. -/
def poll (office : Office) (m : Address) (wire : Wire) : Office :=
  let hdr := PacketHeader.read wire.bytes
  { office with
    inHdr := hdr
    inbox := office.inbox.splice 0 hdr.length.toNat fun i => wire.bytes (12 + i)
    failed := office.failed || hdr.dest != m || decide (MaxPacketSize < hdr.length.toNat)
    overwrote := office.overwrote || office.buffered.isSome
    buffered := some wire.letter }

/-- The packet the worker's `network->Receive(buffer)` leaves in its buffer. -/
def fetched (office : Office) : Memory :=
  if office.inHdr.length = 0 then office.buffer
  else office.buffer.splice 0 office.inHdr.length.toNat office.inbox

/-- The mail that `PostalDelivery` makes of it; its data is copied into a new
`Mail`. -/
def delivery (office : Office) (letter : Letter) (fresh : Memory) : Mail :=
  let mailHdr := MailHeader.read office.fetched
  { pktHdr := office.inHdr
    mailHdr := mailHdr
    data := fresh.splice 0 mailHdr.length.toNat fun i => office.fetched (12 + i)
    letter := letter }

/-- `PostalDelivery` from the return of `P` to the mailbox. -/
def fetch (office : Office) (numBoxes : Nat) : Office :=
  let mailHdr := MailHeader.read office.fetched
  { office with
    inHdr := { office.inHdr with length := 0 }
    buffer := office.fetched
    failed := office.failed || !legalBox numBoxes mailHdr.dest ||
      decide (MaxMailSize < mailHdr.length.toNat)
    fetchedNothing := office.fetchedNothing || office.buffered.isNone
    buffered := none }

/-- `boxes[to].Put(...)`: `list->Append`. -/
def put (office : Office) (mail : Mail) : Office :=
  let box := mail.mailHdr.dest
  { office with boxes := Function.update office.boxes box (office.boxes box ++ [mail]) }

/-- `boxes[box].Get(...)`: `list->Remove`, then the mail is copied to the caller. -/
def get (office : Office) (box : BitVec 32) (mail : Mail) (rest : List Mail) (into : Memory) :
    Office :=
  { office with
    boxes := Function.update office.boxes box rest
    failed := office.failed || decide (MaxMailSize < mail.mailHdr.length.toNat)
    received := office.received ++ [mail.receipt box into] }

end Office

/-! ## The threads -/

/-- `messageAvailable` and `messageSent` of each machine. -/
inductive Sem where
  | available (m : Address)
  | sent (m : Address)
deriving DecidableEq

/-- `sendLock` of each machine and the lock of each mailbox. -/
inductive LockId where
  | send (m : Address)
  | box (m : Address) (b : BitVec 32)
deriving DecidableEq

/-- The condition of each mailbox. -/
abbrev CondId := Address × BitVec 32

/-- A machine has a postal worker and any number of other threads. -/
abbrev ThreadId (I : Type) := Address × Option I

inductive Point where
  /-- The postal worker before `messageAvailable->P()`. -/
  | idle
  | fetching
  /-- Has the lock of the mailbox. -/
  | putting (mail : Mail)
  | putDone (b : BitVec 32)
  | outside
  /-- Has `sendLock`. -/
  | sending (dest : Address) (mailHdr : MailHeader) (data buffer : Memory)
  | sendDone
  /-- Has the lock of the mailbox in `Receive`. -/
  | receiving (b : BitVec 32) (into : Memory)

abbrev PostOp (I : Type) := Op (ThreadId I) Sem LockId CondId

/-- The code of the postal worker and of the threads that send and receive. -/
inductive Segment (numBoxes : Nat) {I : Type} :
    ThreadId I → Point → Net → PostOp I → Net → Point → Prop where
  | awaits {m net} : Segment numBoxes (m, none) .idle net (.p (.available m)) net .fetching
  | fetches {m net} (letter : Letter) (fresh : Memory)
      (recorded : (net.office m).buffered.getD letter = letter) :
      Segment numBoxes (m, none) .fetching net
        (.acquire (.box m ((net.office m).delivery letter fresh).mailHdr.dest))
        (net.setOffice m ((net.office m).fetch numBoxes))
        (.putting ((net.office m).delivery letter fresh))
  | puts {m net mail} :
      Segment numBoxes (m, none) (.putting mail) net
        (.signal (m, mail.mailHdr.dest) (.box m mail.mailHdr.dest))
        (net.setOffice m ((net.office m).put mail)) (.putDone mail.mailHdr.dest)
  | putAway {m net b} :
      Segment numBoxes (m, none) (.putDone b) net (.release (.box m b)) net .idle
  | idles {m i net} : Segment numBoxes (m, some i) .outside net .tick net .outside
  | finishes {m i net} : Segment numBoxes (m, some i) .outside net .finish net .outside
  | send {m i net} (dest : Address) (mailHdr : MailHeader) (data fresh : Memory)
      (short : mailHdr.length.toNat ≤ MaxMailSize) (legal : legalBox numBoxes mailHdr.dest = true) :
      Segment numBoxes (m, some i) .outside net (.acquire (.send m)) net
        (.sending dest mailHdr data (concatenate fresh mailHdr data))
  | transmits {m i net dest mailHdr data buffer} (fresh : Memory) (letter : Letter)
      (recorded : letter = (net.office m).posted m dest mailHdr data) :
      Segment numBoxes (m, some i) (.sending dest mailHdr data buffer) net (.p (.sent m))
        ((net.setOffice m ((net.office m).send m (outgoing m dest mailHdr) letter)).setChannel m dest
          (net.channel m dest ++ [letter.framed fresh (outgoing m dest mailHdr) buffer])) .sendDone
  | loses {m i net dest mailHdr data buffer} (letter : Letter)
      (recorded : letter = (net.office m).posted m dest mailHdr data) :
      Segment numBoxes (m, some i) (.sending dest mailHdr data buffer) net (.p (.sent m))
        (net.setOffice m ((net.office m).send m (outgoing m dest mailHdr) letter)) .sendDone
  | sent {m i net} : Segment numBoxes (m, some i) .sendDone net (.release (.send m)) net .outside
  | receive {m i net} (b : BitVec 32) (into : Memory) (legal : legalBox numBoxes b = true) :
      Segment numBoxes (m, some i) .outside net (.acquire (.box m b)) net (.receiving b into)
  | waits {m i net b into} (empty : (net.office m).boxes b = []) :
      Segment numBoxes (m, some i) (.receiving b into) net (.wait (m, b) (.box m b)) net
        (.receiving b into)
  | gets {m i net b into mail rest} (first : (net.office m).boxes b = mail :: rest) :
      Segment numBoxes (m, some i) (.receiving b into) net (.release (.box m b))
        (net.setOffice m ((net.office m).get b mail rest into)) .outside

/-- The interrupt handlers, and the loss of a datagram on its way. -/
inductive Fires : Net → Option Sem → Net → Prop where
  | poll {net m sender wire rest} (empty : (net.office m).inHdr.length = 0)
      (arrived : net.channel sender m = wire :: rest) :
      Fires net (some (.available m))
        ((net.setOffice m ((net.office m).poll m wire)).setChannel sender m rest)
  | sendDone {net m} (pending : 0 < (net.office m).sendsPending) :
      Fires net (some (.sent m)) (net.setOffice m (net.office m).sendDone)
  | drops {net sender m before wire after} (under : net.channel sender m = before ++ wire :: after) :
      Fires net none (net.setChannel sender m (before ++ after))

def code (numBoxes : Nat) (I : Type) : Code (ThreadId I) Sem LockId CondId Point Net where
  segment := Segment numBoxes
  handler := Fires

abbrev State (I : Type) := Threads.State (ThreadId I) Sem LockId CondId Point Net
abbrev View (I : Type) := Threads.View (ThreadId I) Sem LockId CondId Point Net
abbrev Stage := Threads.Stage Sem LockId CondId Point

/-- The machines have just been started: nothing is sent, buffered or delivered. -/
structure Begins {I : Type} (k : State I) : Prop extends Starts k where
  worker (m : Address) : k.phase (m, none) = .fresh .idle ∨ k.phase (m, none) = .running .idle
  outside (m : Address) (i : I) :
    k.phase (m, some i) = .fresh .outside ∨ k.phase (m, some i) = .running .outside
  down (s : Sem) : (k.sem (.plain s)).value = 0
  channels (sender dest : Address) : k.memory.channel sender dest = []
  empty (m : Address) : (k.memory.office m).inHdr.length = 0 ∧
    (∀ b, (k.memory.office m).boxes b = []) ∧ (k.memory.office m).sendBusy = false ∧
    (k.memory.office m).failed = false
  unrecorded (m : Address) : (k.memory.office m).buffered = none ∧
    (k.memory.office m).overwrote = false ∧ (k.memory.office m).fetchedNothing = false ∧
    (k.memory.office m).sent = [] ∧ (k.memory.office m).received = []

end Nachos.PostOffice
