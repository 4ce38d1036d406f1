import Nachos.Effects.HostFile
import Nachos.Machine.DiskTiming

/-! The disk as a file of the host (`machine/disk.cc`, `machine/sysdep.cc`). The
file `DISK` starts with a magic number; the sectors follow. It outlives Nachos:
a run that ends, also by a failed `ASSERT`, leaves it to the next one. -/
namespace Nachos.DiskTiming
open Effects

@[simp] def MagicNumber : BitVec 32 := 0x456789ab

/-- `sizeof(int)`. -/
@[simp] def MagicSize : Nat := 4

@[simp] def DiskSize : Nat := MagicSize + NumSectors * SectorSize

/-- `Lseek` and `Read` of `sysdep.cc`, which must get all the bytes asked for. -/
def Read (fd : HostFile) (offset nBytes : Nat) : Except Fault Memory :=
  let (retVal, buffer) := fd.read offset nBytes
  if retVal = nBytes then .ok buffer else .error .assertion

/-- The disk: its open file, and the part that requests and interrupts move. -/
structure HostDisk where
  fileno : HostFile
  drive : Drive

/-- The drive as the constructor leaves it. -/
def Drive.new : Drive where
  active := false
  lastSector := 0
  bufferInit := 0

namespace HostDisk

/-- The file that a first run makes: the magic number, and zero as its last word. -/
def created : HostFile :=
  (HostFile.empty.write 0 MagicSize (Memory.wordByte MagicNumber)).write (DiskSize - MagicSize)
    MagicSize (Memory.wordByte 0)

/-- `Disk::Disk` on the host's file of that name, if there is one. -/
def new : Option HostFile → Except Fault HostDisk
  | some fileno => do
    let magicNum ← Read fileno 0 MagicSize
    if magicNum.word 0 = MagicNumber then .ok { fileno := fileno, drive := .new } else .error .assertion
  | none => .ok { fileno := created, drive := .new }

/-- Where a sector starts in the file. -/
def offset (sectorNumber : Int) : Nat := MagicSize + SectorSize * sectorNumber.toNat

/-- `Disk::ReadRequest`: the ticks until the interrupt and the sector. -/
def ReadRequest (disk : HostDisk) (totalTicks sectorNumber : Int) :
    Except Fault (Int × Sector × HostDisk) := do
  let (ticks, drive) ← disk.drive.ReadRequest totalTicks sectorNumber
  let data ← Read disk.fileno (offset sectorNumber) SectorSize
  return (ticks, .of data, { disk with drive := drive })

/-- `Disk::WriteRequest`. -/
def WriteRequest (disk : HostDisk) (totalTicks sectorNumber : Int) (data : Sector) :
    Except Fault (Int × HostDisk) := do
  let (ticks, drive) ← disk.drive.WriteRequest totalTicks sectorNumber
  return (ticks, { fileno := disk.fileno.write (offset sectorNumber) SectorSize data.mem, drive := drive })

/-- `Disk::HandleInterrupt`, without the caller's handler. -/
def HandleInterrupt (disk : HostDisk) : HostDisk := { disk with drive := disk.drive.HandleInterrupt }

end HostDisk

/-! ## What the file holds -/

/-- The file is a disk with these sectors. -/
structure Holds (file : HostFile) (sectors : Int → Sector) : Prop where
  size : file.size = DiskSize
  magic : file.bytes.word 0 = MagicNumber
  sector : ∀ s, ValidSector s → file.block MagicSize SectorSize s.toNat = sectors s

variable {file : HostFile} {sectors : Int → Sector} {disk : HostDisk} {totalTicks s : Int}
  {data : Sector}

/-- A sector lies inside the file. -/
theorem offset_le (valid : ValidSector s) : HostDisk.offset s + SectorSize ≤ DiskSize := by
  obtain ⟨low, high⟩ := valid
  simp only [SectorsPerTrack, NumTracks, NumSectors] at high
  unfold HostDisk.offset
  simp only [MagicSize, SectorSize, DiskSize, NumSectors, SectorsPerTrack, NumTracks]
  omega

theorem Read_ok {offset nBytes : Nat} (inside : offset + nBytes ≤ file.size) :
    Read file offset nBytes = .ok fun k => file.bytes (offset + k) := by
  unfold Read
  exact if_pos (HostFile.read_all inside)

/-- A new disk is all zeros. -/
theorem holds_created : Holds HostDisk.created fun _ => .of fun _ => 0 where
  size := rfl
  magic := by
    unfold HostDisk.created
    rw [show ∀ (f : HostFile) (a n : Nat) (m : Memory), (f.write a n m).bytes = f.bytes.splice a n m from
      fun _ _ _ _ => rfl, Memory.word_splice_of_disjoint (.inl (by decide))]
    exact Memory.word_setWord _ 0 MagicNumber
  sector := fun s valid => by
    have inside := offset_le valid
    refine Block.of_congr fun k bound => ?_
    -- either a byte of the last word, or one that no write reached
    have low : MagicSize ≤ MagicSize + SectorSize * s.toNat + k := by omega
    unfold HostDisk.created
    by_cases last : DiskSize - MagicSize ≤ MagicSize + SectorSize * s.toNat + k
    · have upper : MagicSize + SectorSize * s.toNat + k < DiskSize - MagicSize + MagicSize := by
        unfold HostDisk.offset at inside
        simp only [DiskSize] at inside ⊢
        omega
      refine (Memory.splice_inside last upper).trans ?_
      unfold Memory.wordByte
      simp
    · refine (HostFile.write_bytes_of_disjoint (.inl (by omega))).trans ?_
      exact HostFile.write_bytes_of_disjoint (.inr (by omega))

namespace Holds

/-- The next run accepts the file. -/
theorem new (holds : Holds file sectors) : HostDisk.new (some file) = .ok ⟨file, .new⟩ := by
  have read : Read file 0 MagicSize = .ok fun k => file.bytes (0 + k) :=
    Read_ok (by rw [holds.size]; decide)
  have magic : Memory.word (fun k => file.bytes (0 + k)) 0 = MagicNumber :=
    (Memory.word_congr fun k _ => by rw [Nat.zero_add]).trans holds.magic
  unfold HostDisk.new
  dsimp only
  rw [read]
  exact if_pos magic

/-- Reading a sector from the host never comes up short. -/
theorem read (holds : Holds file sectors) (valid : ValidSector s) :
    ∃ buffer, Read file (HostDisk.offset s) SectorSize = .ok buffer ∧ (.of buffer : Sector) = sectors s := by
  refine ⟨_, Read_ok (by rw [holds.size]; exact offset_le valid), ?_⟩
  exact holds.sector s valid

/-- Writing a sector changes that sector alone. -/
theorem write (holds : Holds file sectors) (valid : ValidSector s) :
    Holds (file.write (HostDisk.offset s) SectorSize data.mem) (Function.update sectors s data) where
  size := (HostFile.write_size (by rw [holds.size]; exact offset_le valid)).trans holds.size
  magic := by
    refine (Memory.word_splice_of_disjoint (.inl ?_)).trans holds.magic
    unfold HostDisk.offset
    exact Nat.le_add_right _ _
  sector := fun t known => by
    by_cases same : t = s
    · subst same
      rw [Function.update_self]
      exact HostFile.block_write_self
    · rw [Function.update_of_ne same, ← holds.sector t known]
      refine HostFile.block_write_other fun equal => same ?_
      have low := valid.1
      have low' := known.1
      omega

end Holds

/-- A request that is accepted finds an idle disk and one of its sectors. -/
theorem ReadRequest_iff (holds : Holds disk.fileno sectors) {latency : Int} {after : HostDisk} :
    disk.ReadRequest totalTicks s = .ok (latency, data, after) ↔
      disk.drive.active = false ∧ ValidSector s ∧ data = sectors s ∧
        disk.drive.ReadRequest totalTicks s = .ok (latency, after.drive) ∧ after.fileno = disk.fileno := by
  unfold HostDisk.ReadRequest
  constructor
  · intro made
    cases asked : disk.drive.ReadRequest totalTicks s with
    | error reason =>
      rw [asked] at made
      cases made
    | ok answer =>
      obtain ⟨ticks, drive⟩ := answer
      obtain ⟨idle, valid, -, -⟩ := request_cases asked
      obtain ⟨buffer, reads, bytes⟩ := holds.read valid
      rw [asked] at made
      simp only [bind, Except.bind, reads, pure, Except.pure] at made
      cases made
      exact ⟨idle, valid, bytes, rfl, rfl⟩
  · rintro ⟨idle, valid, rfl, asked, same⟩
    obtain ⟨buffer, reads, bytes⟩ := holds.read valid
    rw [asked]
    simp only [bind, Except.bind, reads, pure, Except.pure, bytes]
    rw [← same]

theorem WriteRequest_iff {latency : Int} {after : HostDisk} :
    disk.WriteRequest totalTicks s data = .ok (latency, after) ↔
      disk.drive.active = false ∧ ValidSector s ∧
        disk.drive.WriteRequest totalTicks s = .ok (latency, after.drive) ∧
        after.fileno = disk.fileno.write (HostDisk.offset s) SectorSize data.mem := by
  unfold HostDisk.WriteRequest
  constructor
  · intro made
    cases asked : disk.drive.WriteRequest totalTicks s with
    | error reason =>
      rw [asked] at made
      cases made
    | ok answer =>
      obtain ⟨ticks, drive⟩ := answer
      obtain ⟨idle, valid, -, -⟩ := request_cases asked
      rw [asked] at made
      cases made
      exact ⟨idle, valid, rfl, rfl⟩
  · rintro ⟨idle, valid, asked, same⟩
    rw [asked]
    simp only [bind, Except.bind, pure, Except.pure]
    rw [← same]

theorem request_of_idle (totalTicks : Int) (writing : Bool) (idle : disk.drive.active = false) (valid : ValidSector s) :
    ∃ latency drive, disk.drive.request totalTicks s writing = .ok (latency, drive) ∧ drive.active = true :=
  ⟨_, _, request_eq idle valid, rfl⟩

theorem new_idle {existing : Option HostFile} (made : HostDisk.new existing = .ok disk) :
    disk.drive = .new := by
  cases existing with
  | none =>
    cases made
    rfl
  | some file =>
    unfold HostDisk.new at made
    dsimp only at made
    cases got : Read file 0 MagicSize with
    | error reason =>
      rw [got] at made
      cases made
    | ok magicNum =>
      rw [got] at made
      simp only [bind, Except.bind] at made
      split at made
      · cases made
        rfl
      · cases made

/-! ## The host over many runs of Nachos -/

/-- The host between two runs, and during one. -/
inductive Host where
  | off (existing : Option HostFile)
  | on (disk : HostDisk)

/-- A sector that was read or written. -/
inductive Transfer where
  | read (s : Int) (data : Sector)
  | write (s : Int) (data : Sector)

/-- A run starts, makes requests at any times, gets its interrupts, and ends at
any moment. -/
inductive Powered : Host → List Transfer → Host → Prop where
  | starts {existing : Option HostFile} {disk : HostDisk} (made : HostDisk.new existing = .ok disk) :
      Powered (.off existing) [] (.on disk)
  | reads {disk after : HostDisk} {totalTicks latency s : Int} {data : Sector}
      (made : disk.ReadRequest totalTicks s = .ok (latency, data, after)) :
      Powered (.on disk) [.read s data] (.on after)
  | writes {disk after : HostDisk} {totalTicks latency s : Int} {data : Sector}
      (made : disk.WriteRequest totalTicks s data = .ok (latency, after)) :
      Powered (.on disk) [.write s data] (.on after)
  | interrupts {disk : HostDisk} (busy : disk.drive.active = true) :
      Powered (.on disk) [] (.on disk.HandleInterrupt)
  | ends {disk : HostDisk} : Powered (.on disk) [] (.off (some disk.fileno))

namespace Transfer

/-- What a transfer does to an array of sectors. -/
def effect (sectors : Int → Sector) : Transfer → Int → Sector
  | .read _ _ => sectors
  | .write s data => Function.update sectors s data

/-- The sectors after these transfers, starting from zeros. -/
def contents (transfers : List Transfer) : Int → Sector := transfers.foldl effect fun _ => .of fun _ => 0

theorem contents_append (before after : List Transfer) :
    contents (before ++ after) = after.foldl effect (contents before) := List.foldl_append

end Transfer
open Transfer

/-- The host's file as the transfers so far must have left it. -/
def Host.Keeps (transfers : List Transfer) : Host → Prop
  | .off none => transfers = []
  | .off (some file) => Holds file (contents transfers)
  | .on disk => Holds disk.fileno (contents transfers)

/-- The next run can start; in a run, exactly the requests for a sector of an
idle disk are accepted, and a read gets what the array of sectors holds. -/
def Host.Serves (sectors : Int → Sector) : Host → Prop
  | .off existing => ∃ disk, HostDisk.new existing = .ok disk
  | .on disk => ∀ totalTicks s,
      (∀ data, (∃ latency after, disk.ReadRequest totalTicks s = .ok (latency, data, after)) ↔
        disk.drive.active = false ∧ ValidSector s ∧ data = sectors s) ∧
      ∀ data, (∃ latency after, disk.WriteRequest totalTicks s data = .ok (latency, after)) ↔
        disk.drive.active = false ∧ ValidSector s

theorem Powered.keeps {host host' : Host} {transfers made : List Transfer}
    (keeps : host.Keeps transfers) (step : Powered host made host') :
    host'.Keeps (transfers ++ made) := by
  unfold Host.Keeps
  rw [contents_append]
  cases step with
  | @starts existing disk made =>
    rw [List.append_nil]
    cases existing with
    | none =>
      cases made
      have none : transfers = [] := keeps
      subst none
      exact holds_created
    | some file =>
      have holds : Holds file (contents transfers) := keeps
      rw [holds.new] at made
      cases made
      exact holds
  | reads made =>
    have holds : Holds _ (contents transfers) := keeps
    obtain ⟨-, -, -, -, same⟩ := (ReadRequest_iff holds).mp made
    dsimp only
    rw [same]
    exact holds
  | writes made =>
    have holds : Holds _ (contents transfers) := keeps
    obtain ⟨-, valid, -, same⟩ := WriteRequest_iff.mp made
    dsimp only
    rw [same]
    exact holds.write valid
  | interrupts => exact keeps
  | ends => exact keeps

theorem Host.Keeps.serves {host : Host} {transfers : List Transfer} (keeps : host.Keeps transfers) :
    host.Serves (contents transfers) := by
  rcases host with (_ | file) | disk
  · exact ⟨_, rfl⟩
  · have holds : Holds file (contents transfers) := keeps
    exact ⟨_, holds.new⟩
  have holds : Holds disk.fileno (contents transfers) := keeps
  refine fun totalTicks s => ⟨fun data => ⟨?_, ?_⟩, fun data => ⟨?_, ?_⟩⟩
  · rintro ⟨latency, after, made⟩
    obtain ⟨idle, valid, bytes, -, -⟩ := (ReadRequest_iff holds).mp made
    exact ⟨idle, valid, bytes⟩
  · rintro ⟨idle, valid, bytes⟩
    obtain ⟨latency, drive, asked, -⟩ := request_of_idle totalTicks false idle valid
    exact ⟨latency, ⟨disk.fileno, drive⟩, (ReadRequest_iff holds).mpr ⟨idle, valid, bytes, asked, rfl⟩⟩
  · rintro ⟨latency, after, made⟩
    obtain ⟨idle, valid, -, -⟩ := WriteRequest_iff.mp made
    exact ⟨idle, valid⟩
  · rintro ⟨idle, valid⟩
    obtain ⟨latency, drive, asked, -⟩ := request_of_idle totalTicks true idle valid
    exact ⟨latency, ⟨_, drive⟩, WriteRequest_iff.mpr ⟨idle, valid, asked, rfl⟩⟩

/-- Whatever runs of Nachos the host has seen, and however they ended, the file
is an array of sectors that starts as zeros: each read got what the last write
of its sector stored, in this run or an earlier one, the next run finds its
magic number, and no request fails but one for a sector that is none or one made
before the last one's interrupt. -/
theorem host_file_is_sectors {host : Host} {transfers : List Transfer}
    (run : Runs Powered (.off none) transfers host) :
    (∀ before s data after, transfers = before ++ .read s data :: after → data = contents before s) ∧
      host.Serves (contents transfers) := by
  have keeps : host.Keeps transfers := run.invariant (P := fun made host => host.Keeps made) rfl
    fun _ keeps step => step.keeps keeps
  refine ⟨?_, keeps.serves⟩
  clear keeps
  induction run with
  | start => exact fun before s data after split => absurd split (by simp)
  | @next trace events host host' earlier taken ih =>
    have keeps : host.Keeps trace := earlier.invariant (P := fun made host => host.Keeps made) rfl
      fun _ keeps step => step.keeps keeps
    intro before s data after split
    cases taken with
    | reads made =>
      have holds : Holds _ (contents trace) := keeps
      obtain ⟨-, -, bytes, -, -⟩ := (ReadRequest_iff holds).mp made
      obtain ⟨-, rfl, same⟩ | ⟨shorter, -, before'⟩ := snoc_split split
      · cases same
        exact bytes
      · exact ih before s data shorter before'
    | writes made =>
      obtain ⟨-, -, same⟩ | ⟨shorter, -, before'⟩ := snoc_split split
      · cases same
      · exact ih before s data shorter before'
    | starts | interrupts | ends => exact ih before s data after (by rwa [List.append_nil] at split)

/-- A first run writes a sector and ends before the interrupt; the next one reads
the sector. -/
theorem sector_survives_run : ∃ disk,
    Runs Powered (.off none) [.write 5 (.of fun _ => 7), .read 5 (.of fun _ => 7)] (.on disk) := by
  obtain ⟨fresh, made⟩ := (host_file_is_sectors .start).2
  have first : Runs Powered (.off none) [] (.on fresh) := .single (.starts made)
  obtain ⟨latency, written, wrote⟩ := (((host_file_is_sectors first).2 0 5).2 (.of fun _ => 7)).mpr
    ⟨by rw [new_idle made]; rfl, by decide⟩
  have ended := (first.next (.writes wrote)).next .ends
  obtain ⟨disk, opened⟩ := (host_file_is_sectors ended).2
  have second := ended.next (.starts opened)
  have stored : (.of fun _ => 7 : Sector) = contents [.write 5 (.of fun _ => 7)] 5 := rfl
  obtain ⟨latency', after, got⟩ := (((host_file_is_sectors second).2 0 5).1 (.of fun _ => 7)).mpr
    ⟨by rw [new_idle opened]; rfl, by decide, stored⟩
  exact ⟨after, second.next (.reads got)⟩

/-! ## The kernel on the host's file -/

/-- `SynchDisk` over the disk of the host. A request waits for its interrupt
before the next one is made. -/
structure HostedMachine where
  device : HostDisk
  cache : Lines
  visNum : Int → Int
  supply : Nat → Memory
  ticks : Nat → Int

namespace HostedMachine

/-- `SynchDisk::ReadSector` and `WriteSector` over `ReadRequest` and `WriteRequest`. -/
def handle : Handler kernel Fault HostedMachine
  | .readSector s, machine =>
    match machine.cache.findPos s with
    | some i =>
      .done (machine.cache i).data { machine with
        cache := machine.cache.touch i (machine.ticks 0), ticks := fun n => machine.ticks (n + 1) }
    | none =>
      match machine.device.ReadRequest (machine.ticks 0) s with
      | .ok (_, data, device) =>
        .done data { machine with
          device := device.HandleInterrupt
          cache := machine.cache.fill s (machine.ticks 0) data
          ticks := fun n => machine.ticks (n + 1) }
      | .error fault => .stopped fault machine
  | .writeSector s data, machine =>
    match machine.device.WriteRequest (machine.ticks 0) s data with
    | .ok (_, device) =>
      .done () { machine with device := device.HandleInterrupt, cache := machine.cache.invalidate s }
    | .error fault => .stopped fault machine
  | .visNum s, machine =>
    if ValidSector s then .done (machine.visNum s) machine else .stopped .undefined machine
  | .setVisNum s count, machine =>
    if ValidSector s then
      .done () { machine with visNum := Function.update machine.visNum s count }
    else .stopped .undefined machine
  | .uninitialized, machine =>
    .done (machine.supply 0) { machine with supply := fun n => machine.supply (n + 1) }

/-- The sectors a file holds. -/
def sectorsOf (file : HostFile) (s : Int) : Sector :=
  if ValidSector s then file.block MagicSize SectorSize s.toNat else .of fun _ => 0

/-- The same machine over an array of sectors. -/
def onSectors (machine : HostedMachine) : SynchDisk where
  disk := sectorsOf machine.device.fileno
  cache := machine.cache
  visNum := machine.visNum
  supply := machine.supply
  ticks := machine.ticks

/-- The file is a disk, and no request is under way. -/
structure Idle (machine : HostedMachine) : Prop where
  holds : ∃ sectors, Holds machine.device.fileno sectors
  idle : machine.device.drive.active = false

end HostedMachine
open HostedMachine

theorem Holds.self (holds : Holds file sectors) : Holds file (sectorsOf file) where
  size := holds.size
  magic := holds.magic
  sector := fun _ valid => (if_pos valid).symm

theorem Holds.sectorsOf_write (holds : Holds file sectors) (valid : ValidSector s) :
    sectorsOf (file.write (HostDisk.offset s) SectorSize data.mem) =
      Function.update (sectorsOf file) s data := by
  funext t
  by_cases known : ValidSector t
  · exact (if_pos known).trans ((holds.self.write valid).sector t known)
  · have other : t ≠ s := by
      rintro rfl
      exact known valid
    rw [Function.update_of_ne other]
    unfold sectorsOf
    rw [if_neg known, if_neg known]

/-- Out of range, an idle disk fails its second `ASSERT`. -/
theorem request_error {writing : Bool} (idle : disk.drive.active = false) (invalid : ¬ ValidSector s) :
    disk.drive.request totalTicks s writing = .error .assertion := by
  rw [Drive.request, if_neg (by simp [idle]),
    if_neg (show ¬ (0 ≤ s ∧ s < (NumSectors : Nat)) from invalid)]

/-- Kernel code cannot tell the host's file from an array of sectors. -/
theorem hosted_simulates_machine :
    Program.Simulates (fun hosted machine => hosted.Idle ∧ hosted.onSectors = machine)
      HostedMachine.handle SynchDisk.handle := by
  rintro r ⟨device, cache, visNum, supply, ticks⟩ machine ⟨⟨⟨sectors, known⟩, idle⟩, rfl⟩
  dsimp only at known idle
  have holds := known.self
  cases r with
  | readSector s =>
    simp only [HostedMachine.handle, SynchDisk.handle, cachedRead, onSectors]
    cases found : cache.findPos s with
    | some i => exact ⟨rfl, ⟨⟨_, holds⟩, idle⟩, rfl⟩
    | none =>
      by_cases inRange : ValidSector s
      · obtain ⟨latency, drive, asked, -⟩ := request_of_idle (ticks 0) false idle inRange
        have made : device.ReadRequest (ticks 0) s = .ok (latency, _, ⟨device.fileno, drive⟩) :=
          (ReadRequest_iff holds).mpr ⟨idle, inRange, rfl, asked, rfl⟩
        rw [made, if_pos inRange]
        exact ⟨rfl, ⟨⟨_, holds⟩, rfl⟩, rfl⟩
      · have refused : device.ReadRequest (ticks 0) s = .error .assertion := by
          unfold HostDisk.ReadRequest Drive.ReadRequest
          rw [request_error idle inRange]
          rfl
        rw [refused, if_neg inRange]
        exact ⟨rfl, ⟨⟨_, holds⟩, idle⟩, rfl⟩
  | writeSector s data =>
    simp only [HostedMachine.handle, SynchDisk.handle, onSectors]
    by_cases inRange : ValidSector s
    · obtain ⟨latency, drive, asked, -⟩ := request_of_idle (ticks 0) true idle inRange
      have made : device.WriteRequest (ticks 0) s data = .ok (latency, ⟨_, drive⟩) :=
        WriteRequest_iff.mpr ⟨idle, inRange, asked, rfl⟩
      rw [made, if_pos inRange, ← holds.sectorsOf_write inRange]
      exact ⟨trivial, ⟨⟨_, holds.write inRange⟩, rfl⟩, rfl⟩
    · have refused : device.WriteRequest (ticks 0) s data = .error .assertion := by
        unfold HostDisk.WriteRequest Drive.WriteRequest
        rw [request_error idle inRange]
        rfl
      rw [refused, if_neg inRange]
      exact ⟨rfl, ⟨⟨_, holds⟩, idle⟩, rfl⟩
  | visNum s =>
    simp only [HostedMachine.handle, SynchDisk.handle, onSectors]
    by_cases inRange : ValidSector s
    · rw [if_pos inRange, if_pos inRange]
      exact ⟨rfl, ⟨⟨_, holds⟩, idle⟩, rfl⟩
    · rw [if_neg inRange, if_neg inRange]
      exact ⟨rfl, ⟨⟨_, holds⟩, idle⟩, rfl⟩
  | setVisNum s count =>
    simp only [HostedMachine.handle, SynchDisk.handle, onSectors]
    by_cases inRange : ValidSector s
    · rw [if_pos inRange, if_pos inRange]
      exact ⟨trivial, ⟨⟨_, holds⟩, idle⟩, rfl⟩
    · rw [if_neg inRange, if_neg inRange]
      exact ⟨rfl, ⟨⟨_, holds⟩, idle⟩, rfl⟩
  | uninitialized => exact ⟨rfl, ⟨⟨_, holds⟩, idle⟩, rfl⟩

end Nachos.DiskTiming
