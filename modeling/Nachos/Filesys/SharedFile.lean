import Nachos.Filesys.SessionProofs

/-! Several handles on one file. Each handle keeps the header it fetched when it
was opened, and every access writes that copy back. The handles are views of
one byte array for as long as no access goes through a handle whose copy is
older than the last growth; one read through such a handle undoes the growth. -/
namespace Nachos
open Effects FileHeader OpenFile

/-- An access to the file, or the opening of one more handle on it. -/
inductive Access where
  | opens
  | readAt (handle : Nat) (into : Memory) (numBytes position : Int)
  | writeAt (handle : Nat) (source : Memory) (numBytes position : Int)

/-- Use one of the handles. -/
def through {A : Type} (handles : List OpenFile) (handle : Nat) (use : OpenFile → Kernel A) :
    Kernel A :=
  match handles[handle]? with
  | some file => use file
  | none => undefinedBehaviour

/-- One access, from its start to its return: the reply and the handles. -/
def Access.perform (h : Int) (handles : List OpenFile) : Access → Kernel (Reply × List OpenFile)
  | .opens => do
    let file ← OpenFile.new h
    return (.nothing, handles ++ [file])
  | .readAt handle into numBytes position =>
    through handles handle fun file => do
      let (count, buffer, file) ← file.ReadAt into numBytes position
      return (.bytes count buffer, handles.set handle file)
  | .writeAt handle source numBytes position =>
    through handles handle fun file => do
      let (count, file) ← file.WriteAt source numBytes position
      return (.count count, handles.set handle file)

/-- The machine and the handles on the file with header `h`. -/
structure Shared where
  machine : SynchDisk
  handles : List OpenFile

namespace Shared

def disk (shared : Shared) : Disk := shared.machine.disk

/-- One completed access. -/
def Step (h : Int) (shared : Shared) (access : Access) (reply : Reply) (after : Shared) : Prop :=
  (access.perform h shared.handles).run SynchDisk.handle shared.machine =
    .done (reply, after.handles) after.machine

/-- The accesses of `trace`, each allowed where it was made, lead from `start`
with no handle open to `shared`. -/
inductive Runs (allowed : Shared → Access → Prop) (h : Int) (start : SynchDisk) :
    List (Access × Reply) → Shared → Prop where
  | start : Runs allowed h start [] { machine := start, handles := [] }
  | step {trace : List (Access × Reply)} {shared after : Shared} {access : Access} {reply : Reply}
      (before : Runs allowed h start trace shared) (permitted : allowed shared access)
      (taken : shared.Step h access reply after) :
      Runs allowed h start (trace ++ [(access, reply)]) after

end Shared

/-! ## One byte array -/

/-- The contents of the file. -/
structure Contents where
  length : Nat
  byte : Nat → UInt8

namespace Contents

/-- The contents after an access. A write that starts behind the end is void. -/
def next (contents : Contents) : Access → Contents
  | .writeAt _ source numBytes position =>
    if numBytes ≤ 0 ∨ position > contents.length then contents
    else
      { length := max contents.length (position.toNat + numBytes.toNat)
        byte := fun o => if position.toNat ≤ o ∧ o < position.toNat + numBytes.toNat
          then source (o - position.toNat) else contents.byte o }
  | _ => contents

/-- How many bytes an access moves. -/
def count (contents : Contents) (numBytes position : Int) : Nat :=
  if position > contents.length then 0
  else min numBytes.toNat (contents.length - position.toNat)

/-- What an access to the byte array returns. -/
def Allows (contents : Contents) : Access → Reply → Prop
  | .opens, .nothing => True
  | .readAt _ into numBytes position, .bytes n buffer =>
    n = contents.count numBytes position ∧
      (∀ j, j < contents.count numBytes position → buffer j = contents.byte (position.toNat + j)) ∧
      ∀ j, contents.count numBytes position ≤ j → buffer j = into j
  | .writeAt _ _ numBytes position, .count n =>
    n = if numBytes ≤ 0 ∨ position > contents.length then 0 else numBytes
  | _, _ => False

/-- The replies of `trace` are those of one byte array, which ends up holding
`contents`. -/
inductive Runs (start : Contents) : List (Access × Reply) → Contents → Prop where
  | start : Runs start [] start
  | step {trace : List (Access × Reply)} {contents : Contents} {access : Access} {reply : Reply}
      (before : Runs start trace contents) (allowed : contents.Allows access reply) :
      Runs start (trace ++ [(access, reply)]) (contents.next access)

end Contents

/-- The file with header `h` on this disk holds these bytes. -/
structure Holds (disk : Disk) (h : Int) (contents : Contents) : Prop where
  headed : Headed disk h contents.length
  direct : contents.length ≤ 1024
  bytes : ∀ o, o < contents.length → fileByte disk (headerAt disk h) o = contents.byte o

/-- The byte array agrees with the disk, and a handle whose length is right has
the whole header right. -/
structure Views (layout : Layout) (contents : Contents) (disk : Disk) (h : Int)
    (handles : List OpenFile) : Prop where
  consistent : Consistent layout disk
  known : h ∈ layout.files
  holds : Holds disk h contents
  shorter : ∀ file ∈ handles, 0 ≤ file.Length ∧ file.Length ≤ contents.length
  current : ∀ file ∈ handles, file.Length = contents.length → Current disk file h

/-- Within the limits of the file: positions are not negative, it stays within
eight sectors, and growth finds free sectors. -/
def Fits (h : Int) (shared : Shared) : Access → Prop
  | .opens => True
  | .readAt handle _ _ position => handle < shared.handles.length ∧ 0 ≤ position
  | .writeAt handle _ numBytes position => handle < shared.handles.length ∧ 0 ≤ position ∧
      position + numBytes ≤ 1024 ∧
      sectorsFor (position + numBytes).toNat - sectorsFor (headerAt shared.disk h).numBytes.toNat ≤
        (diskMap shared.disk).freeCount

/-- The handle's copy of the header is as long as the header on disk, or the
access has nothing to do; reading an empty file is left out, and so is a read whose
end no `int` holds. -/
def UpToDate (h : Int) (shared : Shared) : Access → Prop
  | .opens => True
  | .readAt handle _ numBytes position => ∀ file, shared.handles[handle]? = some file →
      numBytes ≤ 0 ∨ (headerAt shared.disk h).numBytes < position ∨
      (headerAt shared.disk h).numBytes = position ∧ file.Length < position ∨
      file.Length = (headerAt shared.disk h).numBytes ∧ 0 < file.Length ∧
        position + numBytes < 2147483648
  | .writeAt handle _ numBytes position => ∀ file, shared.handles[handle]? = some file →
      numBytes ≤ 0 ∨ (headerAt shared.disk h).numBytes < position ∨
      file.Length = (headerAt shared.disk h).numBytes

/-! ## One access -/

variable {layout : Layout} {disk disk' : Disk} {file file' : OpenFile} {h : Int}
  {handles : List OpenFile} {contents contents' : Contents} {handle : Nat}

/-- After an access through `handle` the other handles are as good as before,
unless the file has grown. -/
theorem Views.replace (views : Views layout contents disk h handles)
    (consistent : Consistent layout disk') (holds : Holds disk' h contents')
    (longer : contents.length ≤ contents'.length)
    (same : contents'.length = contents.length → Agrees (headerAt disk' h) (headerAt disk h))
    (current : Current disk' file' h) :
    Views layout contents' disk' h (handles.set handle file') where
  consistent := consistent
  known := views.known
  holds := holds
  shorter := fun file member => by
    rcases List.mem_or_eq_of_mem_set member with old | rfl
    · have before := views.shorter file old
      omega
    · have length : file.Length = (contents'.length : Int) :=
        current.numBytes.trans holds.headed.length
      omega
  current := fun file member length => by
    rcases List.mem_or_eq_of_mem_set member with old | rfl
    · have before := views.shorter file old
      have equal : contents'.length = contents.length := by omega
      exact Agrees.trans (views.current file old (by omega)) (same equal).symm
    · exact current

/-- A handle that is current and is not changed can be put back. -/
theorem Views.put_back (views : Views layout contents disk h handles)
    (opened : handles[handle]? = some file) :
    Views layout contents disk h (handles.set handle file) := by
  obtain ⟨bound, here⟩ := List.getElem?_eq_some_iff.mp opened
  rw [← here, List.set_getElem_self]
  exact views

/-- The access returns, with a reply the byte array allows, and leaves the
handles views of it. -/
def Shared.Answers (layout : Layout) (contents : Contents) (h : Int) (shared : Shared)
    (access : Access) : Prop :=
  Ensures (access.perform h shared.handles) (fun result disk' _ =>
    contents.Allows access result.1 ∧ Views layout (contents.next access) disk' h result.2)
    (fun _ => False) shared.disk shared.machine.visNum

variable {shared : Shared}

theorem answers_opens (views : Views layout contents shared.disk h shared.handles) :
    shared.Answers layout contents h .opens := by
  have consistent := views.consistent
  have head : layout.Head h := .inr (.inr views.known)
  have number : FileHeader.sectorNumber ⟨shared.disk h⟩ = h := views.holds.headed.number
  have valid := consistent.sheltered.valid_head head
  unfold Shared.Answers Access.perform
  apply ensures_bind
  refine OpenFile.ensures_new valid (by rw [number]; exact valid) ?_
  refine ensures_pure ⟨trivial, { views with shorter := fun file member => ?_, current := ?_ }⟩
  · rcases List.mem_append.mp member with old | new
    · exact views.shorter file old
    · obtain rfl := List.mem_singleton.mp new
      have length : OpenFile.Length { hdr := ⟨shared.disk h⟩, seekPosition := 0 } =
        (contents.length : Int) := views.holds.headed.length
      dsimp only [Contents.next]
      omega
  · intro file member length
    rcases List.mem_append.mp member with old | new
    · exact views.current file old length
    · obtain rfl := List.mem_singleton.mp new
      exact Agrees.refl _

theorem answers_readAt {into : Memory} {numBytes position : Int}
    (views : Views layout contents shared.disk h shared.handles)
    (fits : Fits h shared (.readAt handle into numBytes position))
    (upToDate : UpToDate h shared (.readAt handle into numBytes position)) :
    shared.Answers layout contents h (.readAt handle into numBytes position) := by
  obtain ⟨bound, positive⟩ := fits
  obtain ⟨file, opened⟩ : ∃ file, shared.handles[handle]? = some file :=
    ⟨_, List.getElem?_eq_getElem bound⟩
  have member := List.mem_of_getElem? opened
  have shorter := views.shorter file member
  have length := views.holds.headed.length
  have copy : file.hdr.numBytes = file.Length := rfl
  have condition := upToDate file opened
  rw [length] at condition
  unfold Shared.Answers Access.perform through
  dsimp only
  rw [opened]
  apply ensures_bind
  by_cases nothing : numBytes ≤ 0 ∨ position > file.hdr.numBytes
  · -- the handle has nothing to read there, and neither has the file
    have none : contents.count numBytes position = 0 := by
      unfold Contents.count
      split <;> omega
    refine ensures_ReadAt_nothing nothing (ensures_pure ⟨⟨?_, fun j less => ?_, fun _ _ => rfl⟩, ?_⟩)
    · rw [none]
      rfl
    · omega
    · exact views.put_back opened
  · have same : file.Length = contents.length ∧ 0 < file.Length ∧ position + numBytes < 2147483648 := by
      omega
    have current := views.current file member same.1
    obtain ⟨n, rfl⟩ := Int.eq_ofNat_of_zero_le (show 0 ≤ numBytes by omega)
    obtain ⟨pos, rfl⟩ := Int.eq_ofNat_of_zero_le positive
    have count : contents.count n pos = min n (contents.length - pos) := by
      unfold Contents.count
      rw [if_neg (by omega)]
      rfl
    have direct : sectorsFor contents.length ≤ 8 := by
      have small := views.holds.direct
      unfold sectorsFor
      omega
    refine ensures_ReadAt_file views.consistent.sheltered views.known
      (.inr (.inr views.known) : layout.Head h) views.holds.headed current (.of_direct direct)
      (by omega) (by omega) (.inl (by omega)) (by omega) ?_
    intro file' into' disk' quiet current' _ copied kept
    refine ensures_pure ⟨⟨?_, fun j less => ?_, fun j past => ?_⟩, ?_⟩
    · rw [count]
    · rw [count] at less
      refine (copied j less).trans (views.holds.bytes _ ?_)
      omega
    · rw [count] at past
      exact kept j past
    · have head : layout.Head h := .inr (.inr views.known)
      have headed := Frame.headed quiet head id views.holds.headed
      refine views.replace (quiet.consistent views.consistent) ⟨headed, views.holds.direct, ?_⟩ le_rfl
        (fun _ => quiet.agrees head) current'
      intro o inside
      rw [quiet.byte views.consistent.sheltered head views.holds.headed (.of_direct direct) inside]
      exact views.holds.bytes o inside

theorem answers_writeAt {source : Memory} {numBytes position : Int}
    (views : Views layout contents shared.disk h shared.handles)
    (fits : Fits h shared (.writeAt handle source numBytes position))
    (upToDate : UpToDate h shared (.writeAt handle source numBytes position)) :
    shared.Answers layout contents h (.writeAt handle source numBytes position) := by
  obtain ⟨bound, positive, small, enough⟩ := fits
  obtain ⟨file, opened⟩ : ∃ file, shared.handles[handle]? = some file :=
    ⟨_, List.getElem?_eq_getElem bound⟩
  have member := List.mem_of_getElem? opened
  have shorter := views.shorter file member
  have length := views.holds.headed.length
  have copy : file.hdr.numBytes = file.Length := rfl
  have condition := upToDate file opened
  rw [length] at condition enough
  unfold Shared.Answers Access.perform through
  dsimp only
  rw [opened]
  apply ensures_bind
  by_cases nothing : numBytes ≤ 0 ∨ position > file.hdr.numBytes
  · have void : numBytes ≤ 0 ∨ position > contents.length := by omega
    refine ensures_WriteAt_nothing nothing (ensures_pure ⟨(if_pos void).symm, ?_⟩)
    rw [show contents.next (.writeAt handle source numBytes position) = contents from if_pos void]
    exact views.put_back opened
  · have same : file.Length = contents.length := by omega
    have current := views.current file member same
    obtain ⟨n, rfl⟩ := Int.eq_ofNat_of_zero_le (show 0 ≤ numBytes by omega)
    obtain ⟨pos, rfl⟩ := Int.eq_ofNat_of_zero_le positive
    have inside : ¬ ((n : Int) ≤ 0 ∨ (pos : Int) > contents.length) := by omega
    have after : contents.next (.writeAt handle source n pos) =
        { length := max contents.length (pos + n)
          byte := fun o => if pos ≤ o ∧ o < pos + n then source (o - pos) else contents.byte o } :=
      if_neg inside
    rw [after]
    simp only [Int.toNat_natCast] at enough
    rw [show ((pos : Int) + (n : Int)).toNat = pos + n by omega] at enough
    have few : sectorsFor (pos + n) ≤ 8 := by
      unfold sectorsFor
      omega
    have direct := views.holds.direct
    refine ensures_WriteAt_file views.consistent.sheltered views.known views.known views.holds.headed current (by omega)
      (by omega) (.inl few) enough (fun k far _ less => by omega) ?_
    intro file' disk' written grew current' _
    have consistent' := grew.consistent views.consistent
    refine ensures_pure ⟨(if_neg inside).symm, ?_⟩
    refine views.replace consistent' ⟨grew.after, by dsimp only; omega, fun o inside => ?_⟩
      (Nat.le_max_left _ _) (fun unchanged => ?_) current'
    · rw [written.content views.consistent.sheltered views.known views.holds.headed current current'
        (by unfold sectorsFor; omega) inside (by omega)]
      dsimp only
      split
      · rfl
      · exact views.holds.bytes o (by dsimp only at inside; omega)
    · dsimp only at unchanged
      exact Agrees.trans current'.symm (Agrees.trans (written.clock (by omega)) current)

/-! ## Runs -/

/-- An access of the contract that goes through an up-to-date handle. -/
def GoodAccess (h : Int) (shared : Shared) (access : Access) : Prop :=
  Fits h shared access ∧ UpToDate h shared access

theorem answers_access {access : Access} (views : Views layout contents shared.disk h shared.handles)
    (good : GoodAccess h shared access) : shared.Answers layout contents h access := by
  obtain ⟨fits, upToDate⟩ := good
  cases access with
  | opens => exact answers_opens views
  | readAt => exact answers_readAt views fits upToDate
  | writeAt => exact answers_writeAt views fits upToDate

private theorem views_of_runs {start : SynchDisk} {trace : List (Access × Reply)}
    (coherent : start.cache.Coherent start.disk) (views : Views layout contents start.disk h [])
    (runs : Shared.Runs (GoodAccess h) h start trace shared) :
    ∃ final, Contents.Runs contents trace final ∧
      Views layout final shared.disk h shared.handles ∧
      shared.machine.cache.Coherent shared.machine.disk := by
  induction runs with
  | start => exact ⟨contents, .start, views, coherent⟩
  | @step trace shared after access reply _ good taken ih =>
    obtain ⟨final, before, views, coherent⟩ := ih
    have answers := answers_access views good
    unfold Shared.Answers at answers
    obtain ⟨⟨allowed, views'⟩, coherent'⟩ := ensures_done coherent taken answers
    exact ⟨final.next access, .step before allowed, views', coherent'⟩

/-- While every access goes through a handle with an up-to-date header and no read's
end overflows, the handles are views of one byte array, the disk records it, and the
next such access returns. -/
theorem handles_share_bytes {start : SynchDisk} {trace : List (Access × Reply)}
    (coherent : start.cache.Coherent start.disk) (consistent : Consistent layout start.disk)
    (known : h ∈ layout.files) (holds : Holds start.disk h contents)
    (runs : Shared.Runs (GoodAccess h) h start trace shared) :
    ∃ final, Contents.Runs contents trace final ∧ Holds shared.disk h final ∧
      Consistent layout shared.disk ∧
      ∀ access, GoodAccess h shared access → ∃ reply after, shared.Step h access reply after := by
  obtain ⟨final, replies, views, coherent'⟩ := views_of_runs coherent
    ⟨consistent, known, holds, by simp, by simp⟩ runs
  refine ⟨final, replies, views.holds, views.consistent, fun access good => ?_⟩
  have answers := answers_access views good
  unfold Shared.Answers at answers
  obtain ⟨⟨reply, handles⟩, machine, taken, -⟩ := ensures_returns coherent' answers
  exact ⟨reply, { machine := machine, handles := handles }, taken⟩

/-! ## A handle left behind -/

/-- The byte array a run leads to depends on the accesses only. -/
theorem Contents.Runs.final {start final : Contents} {trace : List (Access × Reply)}
    (runs : Contents.Runs start trace final) :
    final = (trace.map Prod.fst).foldl Contents.next start := by
  induction runs with
  | start => rfl
  | step _ _ ih =>
    rw [List.map_append, List.foldl_append, ← ih]
    rfl

/-- A read through any copy of a header puts that copy on the disk. -/
theorem ensures_ReadAt_restores {into : Memory} {len : Nat} {vis : Counters} {fault : Fault → Prop}
    (length : file.hdr.numBytes = len) (number : file.hdr.sectorNumber = h) (valid : ValidSector h)
    (some : 0 < len) (slot : ValidSector (file.hdr.dataSectors 0)) :
    Ensures (file.ReadAt into (1 : Nat) (0 : Nat))
      (fun _ disk' _ => (headerAt disk' h).numBytes = len) fault disk vis := by
  refine ensures_ReadAt length (by omega) (by omega) (.inl (by omega)) (by rw [number]; exact valid) ?_
    (fun none => by omega) ?_
  · intro k _ high
    obtain rfl : k = 0 := by omega
    exact Located.direct (by omega) slot
  · intro hdr' into' visited _ _
    unfold headerAt
    rw [number, Function.update_self]
    exact visited.agrees.numBytes.trans length

/-- A handle fresh from the disk. -/
def openedOn (disk : Disk) (h : Int) : OpenFile := { hdr := headerAt disk h, seekPosition := 0 }

theorem ensures_opens {vis : Counters} {fault : Fault → Prop} (valid : ValidSector h)
    (number : (headerAt disk h).sectorNumber = h) :
    Ensures (Access.opens.perform h handles) (fun result disk' _ =>
      result.2 = handles ++ [openedOn disk h] ∧ disk' = disk) fault disk vis := by
  have own : FileHeader.sectorNumber ⟨disk h⟩ = h := number
  unfold Access.perform
  apply ensures_bind
  refine OpenFile.ensures_new valid (by rw [own]; exact valid) ?_
  exact ensures_pure ⟨rfl, rfl⟩

/-- Two handles opened one after the other hold the same header. -/
theorem runs_open_twice {allowed : Shared → Access → Prop} {start : SynchDisk}
    (coherent : start.cache.Coherent start.disk) (valid : ValidSector h)
    (number : (headerAt start.disk h).sectorNumber = h) (opens : ∀ shared, allowed shared .opens) :
    ∃ trace shared, Shared.Runs allowed h start trace shared ∧
      trace.map Prod.fst = [.opens, .opens] ∧ shared.disk = start.disk ∧
      shared.handles = [openedOn start.disk h, openedOn start.disk h] ∧
      shared.machine.cache.Coherent shared.machine.disk := by
  have first : Ensures (Access.opens.perform h []) (fun result disk' _ =>
      result.2 = [] ++ [openedOn start.disk h] ∧ disk' = start.disk) (fun _ => False) start.disk
      start.visNum := ensures_opens valid number
  obtain ⟨⟨reply₁, handles₁⟩, machine₁, taken₁, ⟨rfl, same₁⟩, coherent₁⟩ :=
    ensures_returns coherent first
  have second : Ensures (Access.opens.perform h ([] ++ [openedOn start.disk h]))
      (fun result disk' _ => result.2 = [] ++ [openedOn start.disk h] ++ [openedOn machine₁.disk h] ∧
        disk' = machine₁.disk) (fun _ => False) machine₁.disk machine₁.visNum :=
    ensures_opens valid (by rw [same₁]; exact number)
  obtain ⟨⟨reply₂, handles₂⟩, machine₂, taken₂, ⟨rfl, same₂⟩, coherent₂⟩ :=
    ensures_returns coherent₁ second
  have step₁ : Shared.Step h { machine := start, handles := [] } .opens reply₁
      { machine := machine₁, handles := [] ++ [openedOn start.disk h] } := taken₁
  have step₂ : Shared.Step h { machine := machine₁, handles := [] ++ [openedOn start.disk h] } .opens
      reply₂ { machine := machine₂,
               handles := [] ++ [openedOn start.disk h] ++ [openedOn machine₁.disk h] } := taken₂
  refine ⟨_, _, .step (.step .start (opens _) step₁) (opens _) step₂, rfl, same₂.trans same₁, ?_,
    coherent₂⟩
  dsimp only
  rw [same₁]
  rfl

/-- A file of 200 bytes on a new disk. -/
theorem short_file : ∃ (layout : Layout) (start : SynchDisk) (contents : Contents), Consistent layout start.disk ∧
    (6 : Int) ∈ layout.files ∧ Holds start.disk 6 contents ∧ contents.length = 200 ∧
    1015 ≤ (diskMap start.disk).freeCount ∧ start.cache.Coherent start.disk := by
  obtain ⟨before, disk, i, shape, created, room⟩ :=
    zeroMachine_file (show sectorsFor 200 ≤ 8 by decide)
  rw [show 1017 - sectorsFor 200 = 1015 from rfl] at room
  let start : SynchDisk := { zeroMachine with disk := disk }
  let contents : Contents := ⟨200, fileByte disk (headerAt disk 6)⟩
  have blank : System.Blank start := ⟨fun _ => rfl, fun _ => rfl⟩
  exact ⟨_, start, contents, created.consistent shape.consistent, .inl rfl,
    ⟨created.headed, show (200 : Nat) ≤ 1024 by decide, fun _ _ => rfl⟩, rfl, room,
    blank_coherent blank⟩

/-- Two hundred more bytes fit. -/
theorem fits_append {first second : OpenFile} (handles : shared.handles = [first, second])
    (bytes : (headerAt shared.disk h).numBytes = (200 : Nat))
    (room : 1015 ≤ (diskMap shared.disk).freeCount) :
    Fits h shared (.writeAt 0 (fun _ => 7) 200 200) := by
  refine ⟨by rw [handles]; simp, by omega, by omega, ?_⟩
  rw [bytes]
  have two : sectorsFor (200 + 200 : Int).toNat - sectorsFor ((200 : Nat) : Int).toNat = 2 := rfl
  omega

/-- With two handles open on it, the file grows through the first. -/
theorem handles_share_bytes_grown :
    ∃ (layout : Layout) (start : SynchDisk) (contents : Contents) (trace : List (Access × Reply))
      (shared : Shared), Consistent layout start.disk ∧ Holds start.disk 6 contents ∧
    Shared.Runs (GoodAccess 6) 6 start trace shared ∧
    trace.map Prod.fst = [.opens, .opens, .writeAt 0 (fun _ => 7) 200 200] ∧
    ∃ final, Contents.Runs contents trace final ∧ Holds shared.disk 6 final := by
  obtain ⟨layout, start, contents, consistent, known, holds, length, room, coherent⟩ := short_file
  have valid := consistent.sheltered.valid_head (.inr (.inr known))
  have bytes : (headerAt start.disk 6).numBytes = (200 : Nat) := by
    rw [holds.headed.length, length]
  have opens : ∀ shared, GoodAccess 6 shared .opens := fun _ => ⟨trivial, trivial⟩
  obtain ⟨trace, shared, runs, accesses, same, handles, -⟩ :=
    runs_open_twice coherent valid holds.headed.number opens
  have good : GoodAccess 6 shared (.writeAt 0 (fun _ => 7) 200 200) := by
    refine ⟨fits_append handles (by rw [same]; exact bytes) (by rw [same]; exact room), ?_⟩
    intro file opened
    rw [handles, List.getElem?_cons_zero] at opened
    obtain rfl := Option.some.inj opened
    rw [same]
    exact .inr (.inr rfl)
  obtain ⟨-, -, -, -, returns⟩ := handles_share_bytes coherent consistent known holds runs
  obtain ⟨reply, after, taken⟩ := returns _ good
  have grown := runs.step good taken
  obtain ⟨final, replies, held, -⟩ := handles_share_bytes coherent consistent known holds grown
  refine ⟨layout, start, contents, _, after, consistent, holds, grown, ?_, final, replies, held⟩
  rw [List.map_append, accesses]
  rfl

/-- Growth through the first of two handles leaves the second one alone. -/
theorem ensures_append {vis : Counters} {second : OpenFile} (consistent : Consistent layout disk)
    (known : h ∈ layout.files) (headed : Headed disk h 200)
    (room : 1015 ≤ (diskMap disk).freeCount) :
    Ensures (Access.perform h [openedOn disk h, second] (.writeAt 0 (fun _ => 7) 200 200))
      (fun result _ _ => ∃ first, result.2 = [first, second]) (fun _ => False) disk vis := by
  have two : sectorsFor (200 + 200) - sectorsFor 200 = 2 := rfl
  have old : min (sectorsFor 200) (sectorsFor (200 + 200)) = 2 := rfl
  have current : Current disk (openedOn disk h) h := Agrees.refl _
  change Ensures (OpenFile.WriteAt (openedOn disk h) (fun _ => 7) ((200 : Nat) : Int)
    ((200 : Nat) : Int) >>= _) _ _ _ _
  apply ensures_bind
  refine ensures_WriteAt_file consistent.sheltered known known headed current (by omega) (by omega)
    (.inl (by decide)) (by omega) (fun k far _ bound => by omega) ?_
  intro file' _ _ _ _ _
  exact ensures_pure ⟨file', rfl⟩

/-- After that growth, one read through the second handle puts the old length
back on the disk. -/
theorem handles_diverge :
    ¬ ∀ (layout : Layout) (start : SynchDisk) (h : Int) (contents : Contents)
      (trace : List (Access × Reply)) (shared : Shared), start.cache.Coherent start.disk →
      Consistent layout start.disk → h ∈ layout.files → Holds start.disk h contents →
      Shared.Runs (Fits h) h start trace shared →
      ∃ final, Contents.Runs contents trace final ∧ Holds shared.disk h final := by
  intro always
  obtain ⟨layout, start, contents, consistent, known, holds, length, room, coherent⟩ := short_file
  have valid := consistent.sheltered.valid_head (.inr (.inr known))
  have headed : Headed start.disk 6 200 := length ▸ holds.headed
  have owned := headed.data (k := 0) (by decide)
  rw [dataSector_direct (by omega)] at owned
  obtain ⟨low, high, -⟩ := consistent.storage.marked_of_owns (k := (6, .data 0))
    ⟨.inr (.inr known), owned⟩
  have opens : ∀ shared, Fits 6 shared .opens := fun _ => trivial
  obtain ⟨trace, shared, runs, accesses, same, handles, coherent₁⟩ :=
    runs_open_twice coherent valid headed.number opens
  have grows := @ensures_append layout start.disk 6 shared.machine.visNum (openedOn start.disk 6)
    consistent known headed room
  have fits := fits_append handles (by rw [same]; exact headed.length) (by rw [same]; exact room)
  -- what a read through the second handle does, whatever the first has done
  have restores : ∀ (first : OpenFile) (machine : SynchDisk),
      Ensures (Access.perform 6 [first, openedOn start.disk 6] (.readAt 1 (fun _ => 0) 1 0))
        (fun _ disk' _ => (headerAt disk' 6).numBytes = (200 : Nat)) (fun _ => False) machine.disk
        machine.visNum := by
    intro first machine
    change Ensures ((openedOn start.disk 6).ReadAt (fun _ => 0) ((1 : Nat) : Int) ((0 : Nat) : Int) >>= _)
      _ _ _ _
    apply ensures_bind
    exact ensures_post (ensures_ReadAt_restores headed.length headed.number valid (by omega)
      ⟨low, high⟩) fun _ _ _ short => ensures_pure short
  have disks : start.disk = shared.machine.disk := same.symm
  rw [← handles] at grows
  generalize openedOn start.disk 6 = stale at *
  rw [disks] at grows
  obtain ⟨⟨reply₁, handles₁⟩, machine₁, taken₁, ⟨first, rfl⟩, coherent₂⟩ :=
    ensures_returns coherent₁ grows
  have step₁ : shared.Step 6 (.writeAt 0 (fun _ => 7) 200 200) reply₁
      { machine := machine₁, handles := [first, stale] } := taken₁
  obtain ⟨⟨reply₂, handles₂⟩, machine₂, taken₂, short, -⟩ :=
    ensures_returns coherent₂ (restores first machine₁)
  have step₂ : Shared.Step 6 { machine := machine₁, handles := [first, stale] }
      (.readAt 1 (fun _ => 0) 1 0) reply₂ { machine := machine₂, handles := handles₂ } := taken₂
  have fits₂ : Fits 6 { machine := machine₁, handles := [first, stale] }
      (.readAt 1 (fun _ => 0) 1 0) := ⟨by simp, by omega⟩
  obtain ⟨final, replies, held⟩ := always _ start 6 contents _ _ coherent consistent known holds
    ((runs.step fits step₁).step fits₂ step₂)
  -- the byte array has 400 bytes by now
  have longer : final.length = 400 := by
    rw [replies.final, List.map_append, List.map_append, accesses]
    simp [Contents.next, length]
  have recorded := held.headed.length
  rw [longer] at recorded
  have short' : (headerAt machine₂.disk 6).numBytes = (200 : Nat) := short
  have clash := short'.symm.trans recorded
  omega

end Nachos
