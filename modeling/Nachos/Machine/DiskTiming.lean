import Mathlib.Algebra.Order.Group.Unbundled.Int
import Mathlib.Algebra.Order.Ring.Int
import Mathlib.Order.Bounds.Basic
import Nachos.Effects.Runs
import Nachos.Machine.SynchDisk

/-! How long a disk request takes (`machine/disk.cc`): the head seeks to the
track, and the disk turns until the sector has passed under it, unless the track
buffer has the sector already. Ticks do not overflow. -/
namespace Nachos.DiskTiming
open Effects

/-! ## The disk -/

/-- Ticks in which the disk rotates by one sector. -/
@[simp] def RotationTime : Int := 500

/-- Ticks in which the head seeks past one track. -/
@[simp] def SeekTime : Int := 500

/-- The fields of `Disk` that requests depend on. -/
structure Drive where
  active : Bool
  lastSector : Int
  bufferInit : Int
deriving DecidableEq

/-- `Disk::ModuloDiff`. -/
def ModuloDiff (target position : Int) : Int :=
  let toOffset := target.tmod SectorsPerTrack
  let fromOffset := position.tmod SectorsPerTrack
  ((toOffset - fromOffset) + SectorsPerTrack).tmod SectorsPerTrack

namespace Drive

/-- `Disk::TimeToSeek`, with the rotation it reports. -/
def TimeToSeek (d : Drive) (totalTicks newSector : Int) : Int × Int :=
  let newTrack := newSector.tdiv SectorsPerTrack
  let oldTrack := d.lastSector.tdiv SectorsPerTrack
  let seek := (newTrack - oldTrack).natAbs * SeekTime
  let overshoot := (totalTicks + seek).tmod RotationTime
  (seek, if overshoot > 0 then RotationTime - overshoot else 0)

/-- The test of `ComputeLatency` that finds a sector in the track buffer. -/
def fromBuffer (d : Drive) (totalTicks newSector : Int) (writing : Bool) : Bool :=
  let (seek, rotation) := d.TimeToSeek totalTicks newSector
  let timeAfter := totalTicks + seek + rotation
  writing == false && seek == 0 &&
    (timeAfter - d.bufferInit).tdiv RotationTime > ModuloDiff newSector (d.bufferInit.tdiv RotationTime)

/-- `Disk::ComputeLatency`, with the track buffer compiled in. -/
def ComputeLatency (d : Drive) (totalTicks newSector : Int) (writing : Bool) : Int :=
  let (seek, rotation) := d.TimeToSeek totalTicks newSector
  let timeAfter := totalTicks + seek + rotation
  if d.fromBuffer totalTicks newSector writing then RotationTime
  else
    let rotation := rotation + ModuloDiff newSector (timeAfter.tdiv RotationTime) * RotationTime
    seek + rotation + RotationTime

/-- `Disk::UpdateLast`. -/
def UpdateLast (d : Drive) (totalTicks newSector : Int) : Drive :=
  let (seek, rotate) := d.TimeToSeek totalTicks newSector
  { d with
    bufferInit := if seek ≠ 0 then totalTicks + seek + rotate else d.bufferInit
    lastSector := newSector }

/-- What `ReadRequest` and `WriteRequest` share: the ticks handed to `Schedule`. -/
def request (d : Drive) (totalTicks sectorNumber : Int) (writing : Bool) : Except Fault (Int × Drive) :=
  let ticks := d.ComputeLatency totalTicks sectorNumber writing
  if d.active then .error .assertion
  else if 0 ≤ sectorNumber ∧ sectorNumber < NumSectors then
    .ok (ticks, { d with active := true }.UpdateLast totalTicks sectorNumber)
  else .error .assertion

def ReadRequest (d : Drive) (totalTicks sectorNumber : Int) : Except Fault (Int × Drive) :=
  d.request totalTicks sectorNumber false

def WriteRequest (d : Drive) (totalTicks sectorNumber : Int) : Except Fault (Int × Drive) :=
  d.request totalTicks sectorNumber true

/-- `Disk::HandleInterrupt`, without the caller's handler. -/
def HandleInterrupt (d : Drive) : Drive := { d with active := false }

end Drive

/-! ## Runs -/

/-- The clock, the disk, and when the interrupt of the last request is due. -/
structure State where
  totalTicks : Int
  drive : Drive
  due : Int

/-- A request that was made. -/
structure Operation where
  time : Int
  sector : Int
  writing : Bool
  latency : Int

inductive Step (s : State) : List Operation → State → Prop where
  | passes {totalTicks : Int} (later : s.totalTicks ≤ totalTicks) : Step s [] { s with totalTicks }
  | requests {sector latency : Int} {writing : Bool} {drive : Drive}
      (made : s.drive.request s.totalTicks sector writing = .ok (latency, drive)) :
      Step s [⟨s.totalTicks, sector, writing, latency⟩]
        { s with drive, due := s.totalTicks + latency }
  | interrupts (busy : s.drive.active = true) (due : s.due ≤ s.totalTicks) :
      Step s [] { s with drive := s.drive.HandleInterrupt }

/-- `Disk::Disk`, when the machine starts. -/
def start : State where
  totalTicks := 0
  drive := { active := false, lastSector := 0, bufferInit := 0 }
  due := 0

/-! ## Seeking and turning -/

variable {d : Drive} {totalTicks sector : Int}

/-- The ticks a seek takes. -/
def seekTime (d : Drive) (sector : Int) : Int :=
  |sector / SectorsPerTrack - d.lastSector / SectorsPerTrack| * SeekTime

theorem ModuloDiff_eq {target position : Int} (valid : 0 ≤ target) (known : 0 ≤ position) :
    ModuloDiff target position = (target - position) % 32 := by
  unfold ModuloDiff
  simp only [SectorsPerTrack, Nat.cast_ofNat]
  rw [Int.tmod_eq_emod_of_nonneg valid, Int.tmod_eq_emod_of_nonneg known,
    Int.tmod_eq_emod_of_nonneg (by omega)]
  omega

/-- After the seek the head waits for the next sector boundary. -/
theorem TimeToSeek_eq (now : 0 ≤ totalTicks) (last : 0 ≤ d.lastSector) (valid : 0 ≤ sector) :
    (d.TimeToSeek totalTicks sector).1 = seekTime d sector ∧ 0 ≤ seekTime d sector ∧
    ∃ turn, 0 ≤ turn ∧
      totalTicks + seekTime d sector + (d.TimeToSeek totalTicks sector).2 = 500 * turn ∧
      totalTicks + seekTime d sector ≤ 500 * turn ∧
      500 * turn < totalTicks + seekTime d sector + 500 := by
  have seek : (d.TimeToSeek totalTicks sector).1 = seekTime d sector := by
    unfold Drive.TimeToSeek seekTime
    dsimp only
    rw [Int.tdiv_eq_ediv_of_nonneg valid, Int.tdiv_eq_ediv_of_nonneg last, Int.natCast_natAbs]
  have positive : 0 ≤ seekTime d sector := mul_nonneg (abs_nonneg _) (by decide)
  refine ⟨seek, positive, ?_⟩
  have rotation : (d.TimeToSeek totalTicks sector).2 =
      if (totalTicks + seekTime d sector).tmod 500 > 0 then
        500 - (totalTicks + seekTime d sector).tmod 500 else 0 := by
    rw [← seek]
    rfl
  rw [Int.tmod_eq_emod_of_nonneg (by omega)] at rotation
  rw [rotation]
  split
  · exact ⟨(totalTicks + seekTime d sector) / 500 + 1, by omega, by omega, by omega, by omega⟩
  · exact ⟨(totalTicks + seekTime d sector) / 500, by omega, by omega, by omega, by omega⟩

theorem seekTime_eq_zero : seekTime d sector = 0 ↔
    sector / SectorsPerTrack = d.lastSector / SectorsPerTrack := by
  unfold seekTime
  rw [mul_eq_zero, abs_eq_zero, sub_eq_zero]
  exact or_iff_left (by decide)

/-- The head is where the sector begins. -/
def Begins (sector time : Int) : Prop :=
  RotationTime ∣ time ∧ time / RotationTime % SectorsPerTrack = sector % SectorsPerTrack

/-- The first sector boundary that is not over. -/
def nextBoundary (time : Int) : Int := (time + RotationTime - 1) / RotationTime * RotationTime

/-- Turning on from a boundary, the sector comes first after the rotational delay. -/
theorem begins_least {turn : Int} (valid : 0 ≤ sector) (known : 0 ≤ turn) {time : Int}
    (boundary : time ≤ 500 * turn) (first : 500 * turn < time + 500) :
    IsLeast {begins | time ≤ begins ∧ Begins sector begins} (500 * (turn + ModuloDiff sector turn)) := by
  rw [ModuloDiff_eq valid known]
  unfold Begins
  simp only [RotationTime, SectorsPerTrack, Nat.cast_ofNat]
  constructor
  · refine ⟨by omega, by omega, ?_⟩
    rw [Int.mul_ediv_cancel_left _ (by decide)]
    omega
  · rintro begins ⟨later, ⟨turns, rfl⟩, offset⟩
    rw [Int.mul_ediv_cancel_left _ (by decide)] at offset
    omega

/-- Without the track buffer the sector begins to pass one rotation before the
request is over, and at no earlier time after the seek. -/
theorem latency_of_not_fromBuffer (writing : Bool) (now : 0 ≤ totalTicks) (last : 0 ≤ d.lastSector)
    (valid : 0 ≤ sector) (missed : d.fromBuffer totalTicks sector writing = false) :
    IsLeast {begins | totalTicks + seekTime d sector ≤ begins ∧ Begins sector begins}
      (totalTicks + d.ComputeLatency totalTicks sector writing - RotationTime) := by
  obtain ⟨seek, positive, turn, known, arrives, boundary, first⟩ := TimeToSeek_eq now last valid
  have least := begins_least valid known boundary first
  have latency : d.ComputeLatency totalTicks sector writing = seekTime d sector +
      ((d.TimeToSeek totalTicks sector).2 + ModuloDiff sector turn * 500) + 500 := by
    have here : (totalTicks + seekTime d sector + (d.TimeToSeek totalTicks sector).2).tdiv 500 = turn := by
      rw [arrives, Int.mul_tdiv_cancel_left _ (by decide)]
    rw [Drive.ComputeLatency, missed]
    simp only [Bool.false_eq_true, if_false, RotationTime, seek, here]
  rw [latency]
  simp only [RotationTime]
  have same : totalTicks + (seekTime d sector + ((d.TimeToSeek totalTicks sector).2 +
      ModuloDiff sector turn * 500) + 500) - 500 = 500 * (turn + ModuloDiff sector turn) := by
    omega
  rw [same]
  exact least

/-- Enough rotations since some time, by truncating division. -/
theorem lt_tdiv_iff {rotations elapsed : Int} (positive : 0 ≤ rotations) :
    rotations < elapsed.tdiv 500 ↔ 500 * (rotations + 1) ≤ elapsed := by
  by_cases forward : 0 ≤ elapsed
  · rw [Int.tdiv_eq_ediv_of_nonneg forward]
    omega
  · have back := Int.tdiv_nonneg (a := -elapsed) (b := 500) (by omega) (by omega)
    rw [Int.neg_tdiv] at back
    omega

/-- The track buffer serves a read on the current track if all of the sector has
passed under the head since the buffer was started. -/
theorem fromBuffer_iff {writing : Bool} (now : 0 ≤ totalTicks) (last : 0 ≤ d.lastSector)
    (buffer : 0 ≤ d.bufferInit ∧ RotationTime ∣ d.bufferInit) (valid : 0 ≤ sector) :
    d.fromBuffer totalTicks sector writing = true ↔ writing = false ∧
      sector / SectorsPerTrack = d.lastSector / SectorsPerTrack ∧
      ∃ begins, Begins sector begins ∧ d.bufferInit ≤ begins ∧
        begins + RotationTime ≤ nextBoundary totalTicks := by
  obtain ⟨seek, -, turn, known, arrives, boundary, first⟩ := TimeToSeek_eq now last valid
  obtain ⟨started, turns, here⟩ := buffer
  simp only [RotationTime] at here
  have rounded : nextBoundary totalTicks = (totalTicks + 499) / 500 * 500 := by
    unfold nextBoundary
    simp only [RotationTime]
    congr 2
    omega
  have origin : (500 * turns).tdiv 500 = turns := Int.mul_tdiv_cancel_left _ (by decide)
  have test : d.fromBuffer totalTicks sector writing = true ↔ writing = false ∧ seekTime d sector = 0 ∧
      ModuloDiff sector turns < (500 * turn - 500 * turns).tdiv 500 := by
    rw [Drive.fromBuffer]
    simp only [RotationTime, seek, arrives, here, origin]
    simp [and_assoc]
  rw [test, seekTime_eq_zero, ModuloDiff_eq valid (by omega), lt_tdiv_iff (by omega)]
  refine and_congr_right fun _ => and_congr_right fun same => ?_
  rw [seekTime_eq_zero.mpr same] at boundary first
  unfold Begins
  simp only [RotationTime, SectorsPerTrack, Nat.cast_ofNat]
  rw [rounded]
  constructor
  · intro passed
    refine ⟨500 * (turns + (sector - turns) % 32), ⟨by omega, ?_⟩, by omega, by omega⟩
    rw [Int.mul_ediv_cancel_left _ (by decide)]
    omega
  · rintro ⟨begins, ⟨⟨turns', rfl⟩, offset⟩, later, overrun⟩
    rw [Int.mul_ediv_cancel_left _ (by decide)] at offset
    omega

/-! ## Every request of a run -/

/-- The clock and the disk are as requests since the start have left them. -/
structure Turning (s : State) : Prop where
  now : 0 ≤ s.totalTicks
  last : 0 ≤ s.drive.lastSector
  buffer : 0 ≤ s.drive.bufferInit ∧ RotationTime ∣ s.drive.bufferInit

/-- The disk accepts a request when it is idle and the sector exists. -/
theorem request_eq {writing : Bool} (idle : d.active = false) (valid : ValidSector sector) :
    d.request totalTicks sector writing = .ok (d.ComputeLatency totalTicks sector writing,
      { d with active := true }.UpdateLast totalTicks sector) := by
  rw [Drive.request, if_neg (by simp [idle]),
    if_pos (show 0 ≤ sector ∧ sector < (NumSectors : Nat) from valid)]

theorem request_cases {writing : Bool} {latency : Int} {drive : Drive}
    (made : d.request totalTicks sector writing = .ok (latency, drive)) :
    d.active = false ∧ ValidSector sector ∧ latency = d.ComputeLatency totalTicks sector writing ∧
      drive = { d with active := true }.UpdateLast totalTicks sector := by
  unfold Drive.request at made
  split at made
  · cases made
  · rename_i idle
    split at made
    · rename_i valid
      cases made
      exact ⟨Bool.eq_false_iff.mpr idle, valid, rfl, rfl⟩
    · cases made

theorem Turning.start : Turning start := ⟨le_rfl, le_rfl, le_rfl, Int.dvd_zero _⟩

theorem Turning.step {s s' : State} {events : List Operation} (turning : Turning s)
    (step : Step s events s') : Turning s' := by
  cases step with
  | passes later => exact ⟨turning.now.trans later, turning.last, turning.buffer⟩
  | interrupts busy due => exact ⟨turning.now, turning.last, turning.buffer⟩
  | requests made =>
    obtain ⟨-, valid, -, rfl⟩ := request_cases made
    refine ⟨turning.now, valid.1, ?_⟩
    obtain ⟨seek, positive, turn, known, arrives, -⟩ :=
      TimeToSeek_eq (d := { s.drive with active := true }) turning.now turning.last valid.1
    unfold Drive.UpdateLast
    dsimp only
    split
    · rw [seek, arrives]
      exact ⟨by omega, turn, rfl⟩
    · exact turning.buffer

/-- The head is on the track of the last request. -/
theorem lastSector_eq {s : State} {trace : List Operation} (run : Runs Step start trace s) :
    s.drive.lastSector = (trace.getLast?.map Operation.sector).getD 0 := by
  refine run.invariant (P := fun trace s =>
    s.drive.lastSector = (trace.getLast?.map Operation.sector).getD 0) rfl ?_
  intro trace s events s' _ last step
  cases step with
  | passes later => simpa using last
  | interrupts busy due =>
    rw [List.append_nil]
    exact last
  | requests made =>
    obtain ⟨-, -, -, rfl⟩ := request_cases made
    rw [List.getLast?_concat]
    rfl

/-- In every state a run reaches, an idle disk accepts a request for any of its
sectors. A read comes from the track buffer if the whole sector passed the head
since `bufferInit` on the current track, and takes one rotation then. Every other
request ends when the sector has passed the head for the first time after the
seek. All take some time. -/
theorem request_times {s : State} {trace : List Operation} (run : Runs Step start trace s)
    (idle : s.drive.active = false) (valid : ValidSector sector) (writing : Bool) :
    ∃ latency drive, s.drive.request s.totalTicks sector writing = .ok (latency, drive) ∧ 0 < latency ∧
      s.drive.lastSector = (trace.getLast?.map Operation.sector).getD 0 ∧
      (s.drive.fromBuffer s.totalTicks sector writing = true → latency = RotationTime) ∧
      (s.drive.fromBuffer s.totalTicks sector writing = true ↔ writing = false ∧
        sector / SectorsPerTrack = s.drive.lastSector / SectorsPerTrack ∧
        ∃ begins, Begins sector begins ∧ s.drive.bufferInit ≤ begins ∧
          begins + RotationTime ≤ nextBoundary s.totalTicks) ∧
      (s.drive.fromBuffer s.totalTicks sector writing = false →
        IsLeast {begins | s.totalTicks + seekTime s.drive sector ≤ begins ∧ Begins sector begins}
          (s.totalTicks + latency - RotationTime)) := by
  have turning : Turning s := run.invariant_state .start fun turning step => turning.step step
  have served : s.drive.fromBuffer s.totalTicks sector writing = true →
      s.drive.ComputeLatency s.totalTicks sector writing = RotationTime := by
    intro served
    rw [Drive.ComputeLatency, served]
    rfl
  have turned := latency_of_not_fromBuffer writing turning.now turning.last valid.1
  refine ⟨_, _, request_eq idle valid, ?_, lastSector_eq run, served,
    fromBuffer_iff turning.now turning.last turning.buffer valid.1, turned⟩
  cases buffered : s.drive.fromBuffer s.totalTicks sector writing with
  | true =>
    rw [served buffered]
    decide
  | false =>
    have after := (turned buffered).1.1
    have positive := (TimeToSeek_eq turning.now turning.last valid.1).2.1
    simp only [RotationTime] at after
    omega

/-- After a read of sector 40 the disk is idle at tick 5000. The next sector has passed
the head and comes from the track buffer; sector 50 has to be waited for. -/
theorem request_times_later : ∃ trace s drive, Runs Step start trace s ∧
    trace.map Operation.sector = [40] ∧ s.totalTicks = 5000 ∧
    s.drive.request 5000 41 false = .ok (RotationTime, drive) ∧
    IsLeast {begins | 5000 + seekTime s.drive 50 ≤ begins ∧ Begins 50 begins} (5000 + 4500 - RotationTime) := by
  have reads : Runs Step start _ _ := .next .start (@Step.requests _ 40 _ false _ rfl)
  have waits := reads.next (.passes (show (0 : Int) ≤ 5000 by decide))
  have completed := waits.next (.interrupts rfl (by decide))
  obtain ⟨latency, drive, made, -, -, served, -, -⟩ :=
    request_times completed rfl (show ValidSector 41 from ⟨by decide, by decide⟩) false
  have valid : ValidSector 50 := ⟨by decide, by decide⟩
  obtain ⟨latency', drive', made', -, -, -, -, turned⟩ := request_times completed rfl valid false
  rw [request_eq rfl valid] at made'
  have takes : 4500 = latency' := (Prod.mk.inj (Except.ok.inj made')).1 ▸ by decide
  have rotation := served (by decide)
  subst rotation takes
  exact ⟨_, _, _, completed, rfl, rfl, made, turned (by decide)⟩

end Nachos.DiskTiming
