import Nachos.Filesys.DiskTurns

/-! The cached disk is an atomic store of sectors. A read takes effect when it
fetches its data. A write takes effect when no valid cache line hides the disk's
new contents any more: at its request if no line holds the sector, otherwise
when the stale line is evicted or invalidated, which is at the latest by the
write's own invalidation. -/
namespace Nachos.DiskThreads
open Effects Threads

variable {T : Type}

/-! ## An atomic store of sectors -/

def Record.writesTo (s : Int) : Record T → Bool
  | .writes _ s' _ _ => s' = s
  | _ => false

/-- How many writes to `s` have entered their locked section. -/
def writesTo (s : Int) (log : List (Record T)) : Nat := log.countP (Record.writesTo s)

/-- The thread whose call it is. -/
def Record.thread : Record T → T
  | .reads t _ _ _ | .writes t _ _ _ | .readReturns t _ _ _ | .writeReturns t _ _ _ => t

/-- Made with the disk's lock. A write returns after it has released the lock. -/
def Record.locked : Record T → Bool
  | .writeReturns _ _ _ _ => false
  | _ => true

/-- The record is in the log, and only such entries came after it. -/
def Since (later : Record T → Prop) (log : List (Record T)) (record : Record T) : Prop :=
  ∃ before after, log = before ++ record :: after ∧ ∀ other ∈ after, later other

/-- The fetch of the call that `t` is in: nothing of `t` came after it, and
nobody had the lock. -/
def Fetched (log : List (Record T)) (t : T) (s : Int) (data : Sector) (version : Nat) : Prop :=
  Since (fun other => other.thread ≠ t ∧ other.locked = false) log (.reads t s data version)

/-- The entry of the write that `t` is in: nothing of `t` came after it. -/
def Entered (log : List (Record T)) (t : T) (s : Int) (data : Sector) (version : Nat) : Prop :=
  Since (fun other => other.thread ≠ t) log (.writes t s data version)

namespace Since

variable {later : Record T → Prop} {log more : List (Record T)} {record : Record T}

theorem mem (since : Since later log record) : record ∈ log := by
  obtain ⟨before, after, rfl, -⟩ := since
  simp

theorem last : Since later (log ++ [record]) record := ⟨log, [], rfl, by simp⟩

theorem append (since : Since later log record) (all : ∀ other ∈ more, later other) :
    Since later (log ++ more) record := by
  obtain ⟨before, after, rfl, only⟩ := since
  refine ⟨before, after ++ more, by simp, fun other inside => ?_⟩
  obtain inside | inside := List.mem_append.mp inside
  · exact only other inside
  · exact all other inside

/-- Two last entries of a thread are one. -/
theorem unique {record' : Record T} (first : Since (·.thread ≠ record.thread) log record)
    (second : Since (·.thread ≠ record.thread) log record') (same : record'.thread = record.thread) :
    record = record' := by
  obtain ⟨before, after, rfl, own⟩ := first
  obtain ⟨before', after', split, own'⟩ := second
  obtain ⟨more, -, tail⟩ | ⟨more, -, tail⟩ := List.append_eq_append_iff.mp split
  · cases more with
    | nil => exact (List.cons.inj tail).1
    | cons other rest =>
      obtain ⟨-, rfl⟩ := List.cons.inj tail
      exact absurd same (own record' (by simp))
  · cases more with
    | nil => exact (List.cons.inj tail).1.symm
    | cons other rest =>
      obtain ⟨-, rfl⟩ := List.cons.inj tail
      exact absurd rfl (own' record (by simp))

end Since

/-- The logs of a store in which every call takes effect at one moment between
its start and its return. The store holds the contents of each sector with the
number of writes that made them; writes take effect in the order in which they
entered. A read returns what it has fetched itself. -/
inductive Linearized (initial : Int → Sector) :
    List (Record T) → (Int → Sector × Nat) → Prop where
  | start : Linearized initial [] fun s => (initial s, 0)
  | enters {log store} (before : Linearized initial log store) (t : T) (s : Int) (data : Sector) :
      Linearized initial (log ++ [.writes t s data (writesTo s log + 1)]) store
  | takesEffect {log store t s data} (before : Linearized initial log store)
      (entered : .writes t s data ((store s).2 + 1) ∈ log) :
      Linearized initial log (Function.update store s (data, (store s).2 + 1))
  | reads {log store} (before : Linearized initial log store) (t : T) (s : Int) :
      Linearized initial (log ++ [.reads t s (store s).1 (store s).2]) store
  | readReturns {log store t s data version} (before : Linearized initial log store)
      (fetched : Fetched log t s data version) :
      Linearized initial (log ++ [.readReturns t s data version]) store
  | writeReturns {log store t s data version} (before : Linearized initial log store)
      (entered : Entered log t s data version) (effective : version ≤ (store s).2) :
      Linearized initial (log ++ [.writeReturns t s data version]) store

namespace Linearized

variable {initial : Int → Sector} {log : List (Record T)} {store : Int → Sector × Nat}

@[simp] theorem writesTo_append (s : Int) (log log' : List (Record T)) :
    writesTo s (log ++ log') = writesTo s log + writesTo s log' := List.countP_append ..

/-- Writes to a sector are numbered from one on, in the order in which they
entered. -/
theorem version_bound (linear : Linearized initial log store) {t : T} {s : Int} {data : Sector}
    {version : Nat} (entered : .writes t s data version ∈ log) :
    0 < version ∧ version ≤ writesTo s log := by
  induction linear with
  | start => simp at entered
  | enters before t' s' data' ih =>
    simp only [List.mem_append, List.mem_singleton, Record.writes.injEq] at entered
    rw [writesTo_append]
    obtain earlier | ⟨rfl, rfl, rfl, rfl⟩ := entered
    · have bound := ih earlier
      omega
    · simp [writesTo, Record.writesTo]
  | takesEffect before entered' ih => exact ih entered
  | reads before t' s' ih =>
    have bound := ih (by simpa using entered)
    rw [writesTo_append]
    omega
  | readReturns before fetched ih =>
    have bound := ih (by simpa using entered)
    rw [writesTo_append]
    omega
  | writeReturns before entered' effective ih =>
    have bound := ih (by simpa using entered)
    rw [writesTo_append]
    omega

/-- A number names one write. -/
theorem version_unique (linear : Linearized initial log store) {t t' : T} {s : Int}
    {data data' : Sector} {version : Nat} (first : .writes t s data version ∈ log)
    (second : .writes t' s data' version ∈ log) : data = data' := by
  induction linear with
  | start => simp at first
  | enters before t'' s'' data'' ih =>
    simp only [List.mem_append, List.mem_singleton, Record.writes.injEq] at first second
    obtain first | ⟨rfl, rfl, rfl, same⟩ := first
    · obtain second | ⟨rfl, rfl, rfl, same⟩ := second
      · exact ih first second
      · have bound := before.version_bound first
        omega
    · obtain second | ⟨-, -, same', -⟩ := second
      · have bound := before.version_bound second
        omega
      · exact same'.symm
  | takesEffect before entered' ih => exact ih first second
  | reads before t'' s'' ih => exact ih (by simpa using first) (by simpa using second)
  | readReturns before fetched ih => exact ih (by simpa using first) (by simpa using second)
  | writeReturns before entered' effective ih =>
    exact ih (by simpa using first) (by simpa using second)

/-- The store holds what a write put there that has entered, or what was there at
the start. -/
theorem store_entered (linear : Linearized initial log store) (s : Int) :
    (store s).2 = 0 ∧ (store s).1 = initial s ∨
      ∃ t, .writes t s (store s).1 (store s).2 ∈ log := by
  induction linear with
  | start => exact .inl ⟨rfl, rfl⟩
  | enters before t' s' data' ih => exact ih.imp_right fun ⟨t, inside⟩ => ⟨t, by simp [inside]⟩
  | takesEffect before entered ih =>
    rename_i log store t' s' data'
    by_cases same : s = s'
    · subst same
      exact .inr ⟨t', by simpa using entered⟩
    · simpa [same] using ih
  | reads before t' s' ih => exact ih.imp_right fun ⟨t, inside⟩ => ⟨t, by simp [inside]⟩
  | readReturns before fetched ih => exact ih.imp_right fun ⟨t, inside⟩ => ⟨t, by simp [inside]⟩
  | writeReturns before entered effective ih =>
    exact ih.imp_right fun ⟨t, inside⟩ => ⟨t, by simp [inside]⟩

theorem store_bound (linear : Linearized initial log store) (s : Int) :
    (store s).2 ≤ writesTo s log := by
  obtain ⟨zero, -⟩ | ⟨t, entered⟩ := linear.store_entered s
  · omega
  · exact (linear.version_bound entered).2

/-- What a returned write wrote is not newer than the store. -/
theorem store_covers (linear : Linearized initial log store) {t : T} {s : Int} {data : Sector}
    {version : Nat} (returned : .writeReturns t s data version ∈ log) : version ≤ (store s).2 := by
  induction linear with
  | start => simp at returned
  | enters before t' s' data' ih => exact ih (by simpa using returned)
  | takesEffect before entered ih =>
    rename_i log store t' s' data'
    have bound := ih returned
    by_cases same : s = s'
    · subst same
      simpa using Nat.le_succ_of_le bound
    · simpa [same] using bound
  | reads before t' s' ih => exact ih (by simpa using returned)
  | readReturns before fetched ih => exact ih (by simpa using returned)
  | writeReturns before entered effective ih =>
    simp only [List.mem_append, List.mem_singleton, Record.writeReturns.injEq] at returned
    obtain earlier | ⟨rfl, rfl, rfl, rfl⟩ := returned
    · exact ih earlier
    · exact effective

/-- What a read fetched is older than the store, or it is what the store holds. -/
theorem fetch_covers (linear : Linearized initial log store) {t : T} {s : Int} {data : Sector}
    {version : Nat} (fetched : .reads t s data version ∈ log) :
    version ≤ (store s).2 ∧ (version = (store s).2 → data = (store s).1) := by
  induction linear with
  | start => simp at fetched
  | enters before t' s' data' ih => exact ih (by simpa using fetched)
  | takesEffect before entered ih =>
    rename_i log store t' s' data'
    have bound := ih fetched
    by_cases same : s = s'
    · subst same
      rw [Function.update_self]
      refine ⟨Nat.le_succ_of_le bound.1, fun now => ?_⟩
      simp only at now
      omega
    · simpa [same] using bound
  | reads before t' s' ih =>
    simp only [List.mem_append, List.mem_singleton, Record.reads.injEq] at fetched
    obtain earlier | ⟨rfl, rfl, rfl, rfl⟩ := fetched
    · exact ih earlier
    · exact ⟨Nat.le_refl _, fun _ => rfl⟩
  | readReturns before fetched' ih => exact ih (by simpa using fetched)
  | writeReturns before entered effective ih => exact ih (by simpa using fetched)

/-- What a read returned was fetched. -/
theorem fetched_of_returned (linear : Linearized initial log store) {t : T} {s : Int}
    {data : Sector} {version : Nat} (returned : .readReturns t s data version ∈ log) :
    .reads t s data version ∈ log := by
  induction linear with
  | start => simp at returned
  | enters before t' s' data' ih => simpa using ih (by simpa using returned)
  | takesEffect before entered ih => exact ih returned
  | reads before t' s' ih =>
    exact List.mem_append_left _ (ih (by simpa using returned))
  | readReturns before fetched ih =>
    simp only [List.mem_append, List.mem_singleton, Record.readReturns.injEq] at returned
    obtain earlier | ⟨rfl, rfl, rfl, rfl⟩ := returned
    · exact List.mem_append_left _ (ih earlier)
    · exact List.mem_append_left _ fetched.mem
  | writeReturns before entered effective ih => simpa using ih (by simpa using returned)

/-- What a call may report, given the store and the log so far. -/
def Accepts (store : Int → Sector × Nat) (log : List (Record T)) : Record T → Prop
  | .reads _ s data version => store s = (data, version)
  | .writes _ s _ version => version = writesTo s log + 1
  | .readReturns t s data version => Fetched log t s data version
  | .writeReturns t s data version => Entered log t s data version

private theorem split_snoc {α : Type} {items before after : List α} {last item : α}
    (split : items ++ [last] = before ++ item :: after) :
    (items = before ∧ last = item) ∨ ∃ after', items = before ++ item :: after' := by
  cases after using List.reverseRecOn with
  | nil =>
    obtain ⟨same, tail⟩ := List.append_inj' split rfl
    exact .inl ⟨same, (List.cons.inj tail).1⟩
  | append_singleton after' end_ _ =>
    have shape : items ++ [last] = (before ++ item :: after') ++ [end_] := by
      rw [split]
      simp
    exact .inr ⟨after', (List.append_inj' shape rfl).1⟩

/-- The store at the moment an entry of the log was made. -/
theorem at_record (linear : Linearized initial log store) {before after : List (Record T)}
    {record : Record T} (split : log = before ++ record :: after) :
    ∃ store', Linearized initial before store' ∧ Accepts store' before record := by
  induction linear generalizing after with
  | start => simp at split
  | enters earlier t' s' data' ih =>
    obtain ⟨rfl, rfl⟩ | ⟨after', same⟩ := split_snoc split
    · exact ⟨_, earlier, rfl⟩
    · exact ih same
  | takesEffect earlier entered ih => exact ih split
  | reads earlier t' s' ih =>
    obtain ⟨rfl, rfl⟩ | ⟨after', same⟩ := split_snoc split
    · exact ⟨_, earlier, rfl⟩
    · exact ih same
  | readReturns earlier fetched ih =>
    obtain ⟨rfl, rfl⟩ | ⟨after', same⟩ := split_snoc split
    · exact ⟨_, earlier, fetched⟩
    · exact ih same
  | writeReturns earlier entered effective ih =>
    obtain ⟨rfl, rfl⟩ | ⟨after', same⟩ := split_snoc split
    · exact ⟨_, earlier, entered⟩
    · exact ih same

/-- A read that fetches its data after a write has returned, with no other write
to the sector having entered since that one, fetches what the write wrote. -/
theorem fetch_after_write (linear : Linearized initial log store)
    {first middle second rest : List (Record T)} {t t' : T} {s : Int} {data data' : Sector}
    {version version' : Nat}
    (split : log = first ++ .writes t s data version :: middle ++
      .writeReturns t s data version :: second ++ .reads t' s data' version' :: rest)
    (noOther : writesTo s middle = 0 ∧ writesTo s second = 0) :
    data' = data ∧ version' = version := by
  have atWrite : log = first ++ .writes t s data version :: (middle ++
      .writeReturns t s data version :: second ++ .reads t' s data' version' :: rest) := by
    simp [split]
  obtain ⟨store₁, -, numbered⟩ := linear.at_record atWrite
  obtain ⟨store₂, linear₂, fetched⟩ := linear.at_record split
  have numbered : version = writesTo s first + 1 := numbered
  have fetched : store₂ s = (data', version') := fetched
  have lower : version ≤ version' := by
    have returned : .writeReturns t s data version ∈ first ++ .writes t s data version :: middle ++
        .writeReturns t s data version :: second := by simp
    have covers := linear₂.store_covers returned
    rwa [fetched] at covers
  have upper : version' ≤ version := by
    have bound := linear₂.store_bound s
    rw [fetched] at bound
    have count : writesTo s (first ++ .writes t s data version :: middle ++
        .writeReturns t s data version :: second) = version := by
      have one : writesTo s [(.writes t s data version : Record T)] = 1 := by
        simp [writesTo, Record.writesTo]
      have none : writesTo s [(.writeReturns t s data version : Record T)] = 0 := by
        simp [writesTo, Record.writesTo]
      have shape : first ++ .writes t s data version :: middle ++
          .writeReturns t s data version :: second =
          first ++ [.writes t s data version] ++ middle ++ [.writeReturns t s data version] ++
            second := by simp
      rw [shape, writesTo_append, writesTo_append, writesTo_append, writesTo_append, one, none,
        noOther.1, noOther.2, numbered]
    omega
  have same : version' = version := Nat.le_antisymm upper lower
  subst same
  refine ⟨?_, rfl⟩
  obtain ⟨zero, -⟩ | ⟨t'', entered⟩ := linear₂.store_entered s
  · rw [fetched] at zero
    simp only at zero
    omega
  · rw [fetched] at entered
    have written : .writes t s data version' ∈ first ++ .writes t s data version' :: middle ++
        .writeReturns t s data version' :: second := by simp
    exact linear₂.version_unique entered written

/-- A call of `ReadSector` that fetches after a write has returned, with no other
write to the sector having entered since that one, returns what the write wrote. -/
theorem read_after_write (linear : Linearized initial log store)
    {first middle second third rest : List (Record T)} {t t' : T} {s : Int}
    {data fetched data' : Sector} {version found version' : Nat}
    (split : log = first ++ .writes t s data version :: middle ++
      .writeReturns t s data version :: second ++ .reads t' s fetched found :: third ++
      .readReturns t' s data' version' :: rest)
    (own : ∀ record ∈ third, record.thread ≠ t')
    (noOther : writesTo s middle = 0 ∧ writesTo s second = 0) :
    data' = data ∧ version' = version := by
  obtain ⟨store', -, returned⟩ := linear.at_record split
  -- the fetch the return goes back to is the one in the log
  have its : Since (·.thread ≠ t') (first ++ .writes t s data version :: middle ++
      .writeReturns t s data version :: second ++ .reads t' s fetched found :: third)
      (.reads t' s data' version') := by
    obtain ⟨before, between, same, only⟩ := returned
    exact ⟨before, between, same, fun other inside => (only other inside).1⟩
  have inLog : Since (·.thread ≠ t') (first ++ .writes t s data version :: middle ++
      .writeReturns t s data version :: second ++ .reads t' s fetched found :: third)
      (.reads t' s fetched found) := ⟨_, third, rfl, own⟩
  obtain ⟨-, -, rfl, rfl⟩ := Record.reads.inj (its.unique inLog rfl)
  have fetch : log = first ++ .writes t s data version :: middle ++
      .writeReturns t s data version :: second ++ .reads t' s data' version' ::
      (third ++ .readReturns t' s data' version' :: rest) := by
    rw [split]
    simp
  exact linear.fetch_after_write fetch noOther

/-- Reads of a sector return versions in order. -/
theorem reads_in_order (linear : Linearized initial log store)
    {first middle rest : List (Record T)} {t t' : T} {s : Int} {data data' : Sector}
    {version version' : Nat}
    (split : log = first ++ .readReturns t s data version :: middle ++
      .readReturns t' s data' version' :: rest) :
    version ≤ version' ∧ (version = version' → data = data') := by
  obtain ⟨store₂, linear₂, before, between, same, only⟩ := linear.at_record split
  -- the first read has returned before the second one fetches: both have the lock in between
  have earlier : .readReturns t s data version ∈ before := by
    have inside : .readReturns t s data version ∈
        before ++ .reads t' s data' version' :: between := by
      rw [← same]
      simp
    simp only [List.mem_append, List.mem_cons, reduceCtorEq, false_or] at inside
    obtain inside | inside := inside
    · exact inside
    · exact absurd (only _ inside).2 (by simp [Record.locked])
  obtain ⟨store₁, linear₁, fetched⟩ := linear₂.at_record same
  have fetched : store₁ s = (data', version') := fetched
  have covers := linear₁.fetch_covers (linear₁.fetched_of_returned earlier)
  rwa [fetched] at covers

end Linearized

/-! ## The cache in front of the disk -/

/-- What a read of `s` would fetch now, with its version. -/
def Shared.visible (m : Shared T) (s : Int) : Sector × Nat :=
  match m.cache.findPos s with
  | some i => ((m.cache i).data, m.lineVersion i)
  | none => (m.disk s, m.version s)

/-- At most one line is valid, and it holds an earlier version of its sector or
the one on disk; the log tells how the sectors came about. -/
structure Coherent (initial : Int → Sector) (m : Shared T) : Prop where
  single {i j : Fin cacheSize} : (m.cache i).valid = true → (m.cache j).valid = true → i = j
  behind {i : Fin cacheSize} : (m.cache i).valid = true →
    m.lineVersion i ≤ m.version (m.cache i).sector
  current {i : Fin cacheSize} : (m.cache i).valid = true →
    m.lineVersion i = m.version (m.cache i).sector → (m.cache i).data = m.disk (m.cache i).sector
  numbered (s : Int) : m.version s = writesTo s m.log
  entered {s : Int} {n : Nat} : 0 < n → n ≤ m.version s →
    ∃ t data, .writes t s data n ∈ m.log ∧ (n = m.version s → data = m.disk s)
  linear : Linearized initial m.log m.visible

namespace Coherent

variable {initial : Int → Sector} {m m' : Shared T}

theorem visible_line (single : ∀ {i j}, (m.cache i).valid = true → (m.cache j).valid = true → i = j)
    {i : Fin cacheSize} (valid : (m.cache i).valid = true) :
    m.visible (m.cache i).sector = ((m.cache i).data, m.lineVersion i) := by
  unfold Shared.visible
  cases found : m.cache.findPos (m.cache i).sector with
  | none => exact absurd rfl (Lines.findPos_none found i valid)
  | some j =>
    obtain ⟨valid', -⟩ := Lines.findPos_some found
    rw [single valid' valid]

theorem visible_disk {s : Int} (none : ∀ i, (m.cache i).valid = true → (m.cache i).sector ≠ s) :
    m.visible s = (m.disk s, m.version s) := by
  unfold Shared.visible
  cases found : m.cache.findPos s with
  | none => rfl
  | some i =>
    obtain ⟨valid, sector⟩ := Lines.findPos_some found
    exact absurd sector (none i valid)

/-- The writes hidden by a stale line take effect, one after the other. -/
theorem catches_up (coherent : Coherent initial m) (s : Int) {store : Int → Sector × Nat}
    (linear : Linearized initial m.log store) (behind : (store s).2 ≤ m.version s)
    (current : (store s).2 = m.version s → (store s).1 = m.disk s) :
    Linearized initial m.log (Function.update store s (m.disk s, m.version s)) := by
  obtain ⟨gap, size⟩ := Nat.exists_eq_add_of_le behind
  induction gap generalizing store with
  | zero =>
    have same : store s = (m.disk s, m.version s) := Prod.ext (current (by omega)) (by simpa using size.symm)
    rwa [← same, Function.update_eq_self]
  | succ gap ih =>
    obtain ⟨t, data, inside, last⟩ := coherent.entered (s := s) (n := (store s).2 + 1)
      (by omega) (by omega)
    have advanced := ih (linear.takesEffect inside) (by simp; omega)
      (by simpa using last) (by simp; omega)
    rwa [Function.update_idem] at advanced

/-- Changes that touch neither the cache nor the disk nor the log. -/
theorem congr (coherent : Coherent initial m) (disk : m'.disk = m.disk) (cache : m'.cache = m.cache)
    (version : m'.version = m.version) (lineVersion : m'.lineVersion = m.lineVersion)
    (log : m'.log = m.log) : Coherent initial m' := by
  obtain ⟨disk', cache', active, pending, failed, version', lineVersion', requests, completions,
    passed, log'⟩ := m'
  subst disk cache version lineVersion log
  exact ⟨coherent.single, coherent.behind, coherent.current, coherent.numbered, coherent.entered,
    coherent.linear⟩

/-- A new entry of the log that is no write, the store being as before. -/
theorem logs (coherent : Coherent initial m) {record : Record T}
    (quiet : ∀ s, record.writesTo s = false)
    (linear : Linearized initial (m.log ++ [record]) m.visible) :
    Coherent initial { m with log := m.log ++ [record] } where
  single := coherent.single
  behind := coherent.behind
  current := coherent.current
  numbered s := by
    rw [coherent.numbered]
    simp [writesTo, quiet s]
  entered positive within := by
    obtain ⟨t, data, inside, last⟩ := coherent.entered positive within
    exact ⟨t, data, by simp [inside], last⟩
  linear := linear

/-- A hit changes a time stamp. -/
theorem touch (coherent : Coherent initial m) (i : Fin cacheSize) (totalTicks : Int) :
    Coherent initial { m with cache := m.cache.touch i totalTicks } := by
  have fields : ∀ j, (m.cache.touch i totalTicks j).valid = (m.cache j).valid ∧
      (m.cache.touch i totalTicks j).sector = (m.cache j).sector ∧
      (m.cache.touch i totalTicks j).data = (m.cache j).data := by
    intro j
    by_cases same : j = i
    · subst same
      simp [Lines.touch]
    · simp [Lines.touch, same]
  have visible : Shared.visible { m with cache := m.cache.touch i totalTicks } = m.visible := by
    funext s
    unfold Shared.visible
    have found : (m.cache.touch i totalTicks).findPos s = m.cache.findPos s := by
      unfold Lines.findPos
      congr 1
      funext j
      rw [(fields j).1, (fields j).2.1]
    rw [found]
    cases m.cache.findPos s with
    | none => rfl
    | some j => simp only [(fields j).2.2]
  refine ⟨fun {j j'} valid valid' => ?_, fun {j} valid => ?_, fun {j} valid same => ?_,
    coherent.numbered, coherent.entered, ?_⟩
  · exact coherent.single ((fields j).1 ▸ valid) ((fields j').1 ▸ valid')
  · have bound := coherent.behind ((fields j).1 ▸ valid)
    show m.lineVersion j ≤ m.version (m.cache.touch i totalTicks j).sector
    rwa [(fields j).2.1]
  · show (m.cache.touch i totalTicks j).data = m.disk (m.cache.touch i totalTicks j).sector
    rw [(fields j).2.1, (fields j).2.2]
    refine coherent.current ((fields j).1 ▸ valid) ?_
    have here : m.lineVersion j = m.version (m.cache.touch i totalTicks j).sector := same
    rwa [(fields j).2.1] at here
  · rw [visible]
    exact coherent.linear

theorem visible_behind (coherent : Coherent initial m) (s : Int) :
    (m.visible s).2 ≤ m.version s ∧ ((m.visible s).2 = m.version s → (m.visible s).1 = m.disk s) := by
  unfold Shared.visible
  cases found : m.cache.findPos s with
  | none => exact ⟨Nat.le_refl _, fun _ => rfl⟩
  | some i =>
    obtain ⟨valid, rfl⟩ := Lines.findPos_some found
    exact ⟨coherent.behind valid, coherent.current valid⟩

/-- The line a miss overwrites is the valid one, if there is one. -/
private theorem swap_valid {lines : Lines} {i : Fin cacheSize} (valid : (lines i).valid = true) :
    (lines lines.swap).valid = true := by
  unfold Lines.swap
  cases found : (List.finRange cacheSize).find? fun j => (lines j).valid with
  | none =>
    have absent := List.find?_eq_none.mp found i (List.mem_finRange i)
    simp [valid] at absent
  | some j =>
    have holds := List.find?_some found
    simpa using holds

/-- After a miss every sector is seen as it is on disk. -/
theorem fill (coherent : Coherent initial m) (s totalTicks : Int) :
    Coherent initial { m with
      cache := m.cache.fill s totalTicks (m.disk s)
      lineVersion := Function.update m.lineVersion m.cache.swap (m.version s) } := by
  have onlySwap : ∀ j, (m.cache.fill s totalTicks (m.disk s) j).valid = true → j = m.cache.swap := by
    intro j valid
    by_contra other
    rw [Lines.fill, Function.update_of_ne other] at valid
    exact other (coherent.single valid (swap_valid valid))
  have line : m.cache.fill s totalTicks (m.disk s) m.cache.swap =
      { valid := true, dirty := false, sector := s, cnt := totalTicks, data := m.disk s } := by
    simp [Lines.fill]
  have visible : Shared.visible { m with
      cache := m.cache.fill s totalTicks (m.disk s)
      lineVersion := Function.update m.lineVersion m.cache.swap (m.version s) } =
      fun s' => (m.disk s', m.version s') := by
    funext s'
    unfold Shared.visible
    cases found : (m.cache.fill s totalTicks (m.disk s)).findPos s' with
    | none => rfl
    | some j =>
      obtain ⟨valid, sector⟩ := Lines.findPos_some found
      obtain rfl := onlySwap j valid
      rw [line] at sector
      have same : s = s' := sector
      subst same
      simp [line]
  have linear : Linearized initial m.log fun s' => (m.disk s', m.version s') := by
    by_cases some : ∃ i, (m.cache i).valid = true
    · obtain ⟨i, valid⟩ := some
      -- the evicted line may have hidden writes to its sector
      obtain ⟨behind, current⟩ := coherent.visible_behind (m.cache i).sector
      have caught := coherent.catches_up (m.cache i).sector coherent.linear behind current
      have shape : Function.update m.visible (m.cache i).sector
          (m.disk (m.cache i).sector, m.version (m.cache i).sector) =
          fun s' => (m.disk s', m.version s') := by
        funext s'
        by_cases same : s' = (m.cache i).sector
        · simp [same]
        · rw [Function.update_of_ne same]
          refine visible_disk fun j valid' => ?_
          rw [coherent.single valid' valid]
          exact Ne.symm same
      rwa [shape] at caught
    · have shape : m.visible = fun s' => (m.disk s', m.version s') := by
        funext s'
        exact visible_disk fun j valid => (some ⟨j, valid⟩).elim
      rw [← shape]
      exact coherent.linear
  refine ⟨fun {j j'} valid valid' => ?_, fun {j} valid => ?_, fun {j} valid _ => ?_,
    coherent.numbered, coherent.entered, ?_⟩
  · rw [onlySwap j valid, onlySwap j' valid']
  · obtain rfl := onlySwap j valid
    simp [line]
  · obtain rfl := onlySwap j valid
    simp [line]
  · rw [visible]
    exact linear

/-- A write enters. If a line holds the sector it hides the new contents;
otherwise the write takes effect at once. -/
theorem store (coherent : Coherent initial m) (t : T) (s : Int) (data : Sector) :
    Coherent initial { m with
      disk := Function.update m.disk s data
      version := Function.update m.version s (m.version s + 1)
      log := m.log ++ [.writes t s data (m.version s + 1)] } := by
  have numbers := coherent.numbered s
  have linear : Linearized initial (m.log ++ [.writes t s data (m.version s + 1)]) m.visible := by
    rw [numbers]
    exact coherent.linear.enters t s data
  refine ⟨coherent.single, fun {j} valid => ?_, fun {j} valid same => ?_, fun s' => ?_,
    fun {s' n} positive within => ?_, ?_⟩
  · have bound := coherent.behind valid
    by_cases here : (m.cache j).sector = s
    · rw [here] at bound
      simpa [here] using Nat.le_succ_of_le bound
    · simpa [here] using bound
  · have bound := coherent.behind valid
    by_cases here : (m.cache j).sector = s
    · rw [here] at bound
      simp [here] at same
      omega
    · have held := coherent.current valid (by simpa [here] using same)
      simpa [here] using held
  · by_cases here : s' = s
    · subst here
      simp [writesTo, Record.writesTo, numbers]
    · have before := coherent.numbered s'
      simp [here, Ne.symm here, before, writesTo, Record.writesTo]
  · by_cases here : s' = s
    · subst here
      simp only [Function.update_self] at within ⊢
      by_cases last : n = m.version s' + 1
      · exact ⟨t, data, by simp [last], fun _ => rfl⟩
      · obtain ⟨t', data', inside, -⟩ := coherent.entered (s := s') positive (by omega)
        exact ⟨t', data', by simp [inside], fun newest => absurd newest last⟩
    · simp only [Function.update_of_ne here] at within ⊢
      obtain ⟨t', data', inside, newest⟩ := coherent.entered positive within
      exact ⟨t', data', by simp [inside], newest⟩
  · cases found : m.cache.findPos s with
    | some i =>
      have visible : Shared.visible { m with
          disk := Function.update m.disk s data
          version := Function.update m.version s (m.version s + 1)
          log := m.log ++ [.writes t s data (m.version s + 1)] } = m.visible := by
        funext s'
        unfold Shared.visible
        by_cases here : s' = s
        · rw [here, found]
        · simp [here]
      rw [visible]
      exact linear
    | none =>
      have visible : Shared.visible { m with
          disk := Function.update m.disk s data
          version := Function.update m.version s (m.version s + 1)
          log := m.log ++ [.writes t s data (m.version s + 1)] } =
          Function.update m.visible s (data, (m.visible s).2 + 1) := by
        funext s'
        by_cases here : s' = s
        · subst here
          simp [Shared.visible, found]
        · simp [Shared.visible, here]
      have now : (m.visible s).2 = m.version s := by simp [Shared.visible, found]
      have inside : .writes t s data ((m.visible s).2 + 1) ∈
          m.log ++ [.writes t s data (m.version s + 1)] := by simp [now]
      rw [visible]
      exact linear.takesEffect inside

/-- The sector's line, if there is one, goes, and with it the last reason for a
write to be hidden. -/
theorem invalidate (coherent : Coherent initial m) (s : Int) :
    Coherent initial { m with cache := m.cache.invalidate s } ∧
      Shared.visible { m with cache := m.cache.invalidate s } s = (m.disk s, m.version s) := by
  have lines : ∀ {j}, (m.cache.invalidate s j).valid = true →
      m.cache.invalidate s j = m.cache j ∧ (m.cache j).sector ≠ s := by
    intro j valid
    by_cases here : (m.cache j).sector = s
    · simp [Lines.invalidate, here] at valid
    · exact ⟨by simp [Lines.invalidate, here], here⟩
  have valid_of : ∀ {j}, (m.cache.invalidate s j).valid = true → (m.cache j).valid = true :=
    fun valid => (lines valid).1 ▸ valid
  have atDisk : Shared.visible { m with cache := m.cache.invalidate s } s =
      (m.disk s, m.version s) := by
    refine visible_disk fun j valid => ?_
    have kept := lines valid
    show (m.cache.invalidate s j).sector ≠ s
    rw [kept.1]
    exact kept.2
  have visible : Shared.visible { m with cache := m.cache.invalidate s } =
      Function.update m.visible s (m.disk s, m.version s) := by
    funext s'
    by_cases here : s' = s
    · subst here
      rw [Function.update_self]
      exact atDisk
    · rw [Function.update_of_ne here]
      unfold Shared.visible
      have found : (m.cache.invalidate s).findPos s' = m.cache.findPos s' := by
        unfold Lines.findPos
        congr 1
        funext j
        by_cases gone : (m.cache j).sector = s
        · simp [Lines.invalidate, gone, Ne.symm here]
        · simp [Lines.invalidate, gone]
      show (match (m.cache.invalidate s).findPos s' with
        | some i => ((m.cache.invalidate s i).data, m.lineVersion i)
        | none => (m.disk s', m.version s')) = _
      rw [found]
      cases at_ : m.cache.findPos s' with
      | none => rfl
      | some j =>
        by_cases gone : (m.cache j).sector = s
        · simp [Lines.invalidate, gone]
        · simp [Lines.invalidate, gone]
  refine ⟨⟨fun {j j'} valid valid' => ?_, fun {j} valid => ?_, fun {j} valid same => ?_,
    coherent.numbered, coherent.entered, ?_⟩, atDisk⟩
  · exact coherent.single (valid_of valid) (valid_of valid')
  · have bound := coherent.behind (valid_of valid)
    show m.lineVersion j ≤ m.version (m.cache.invalidate s j).sector
    rwa [(lines valid).1]
  · have here : m.lineVersion j = m.version (m.cache.invalidate s j).sector := same
    show (m.cache.invalidate s j).data = m.disk (m.cache.invalidate s j).sector
    rw [(lines valid).1] at here ⊢
    exact coherent.current (valid_of valid) here
  · rw [visible]
    obtain ⟨behind, current⟩ := coherent.visible_behind s
    exact coherent.catches_up s coherent.linear behind current

end Coherent

/-! ## Whole runs -/

/-- What a thread at this point has in the log. -/
def Logged (m : Shared T) (t : T) : Point → Prop
  | .awaiting s data version | .done s data version => Fetched m.log t s data version
  | .stored s data version | .invalidating s data version =>
    Entered m.log t s data version ∧ version ≤ m.version s
  | _ => True

/-- The point a call has reached. -/
def Logs (m : Shared T) (t : T) : Stage → Prop
  | .at u | .inP (.plain ()) u => Logged m t u
  | _ => True

/-- What `t` does: the log grows by entries of `t`, which it makes with the lock
but for the return of a write, and the versions grow. -/
def Shared.Grows (t : T) (inside : Prop) (m m' : Shared T) : Prop :=
  (∃ records, m'.log = m.log ++ records ∧
    ∀ record ∈ records, record.thread = t ∧ (record.locked = true → inside)) ∧
  ∀ s, m.version s ≤ m'.version s

theorem Shared.grows_refl (t : T) (inside : Prop) (m : Shared T) : m.Grows t inside m :=
  ⟨⟨[], by simp⟩, fun _ => Nat.le_refl _⟩

/-- Other threads leave a call where it is: those that wait with the lock, or
end with it, keep the others out. -/
theorem Logs.grows {m m' : Shared T} {t t' : T} {stage : Stage} {inside : Prop}
    (logs : Logs m t' stage) (other : t' ≠ t) (grows : m.Grows t inside m')
    (apart : stage.holds holding () → ¬ inside) : Logs m' t' stage := by
  obtain ⟨⟨records, log, all⟩, versions⟩ := grows
  have logged : ∀ u, (holding u () → ¬ inside) → Logged m t' u → Logged m' t' u := by
    intro u alone holds
    have theirs : ∀ record ∈ records, record.thread ≠ t' := fun record isIn same =>
      other (same.symm.trans (all record isIn).1)
    have unlocked : holding u () → ∀ record ∈ records,
        record.thread ≠ t' ∧ record.locked = false := by
      intro has record isIn
      exact ⟨theirs record isIn, by simpa using fun locked => alone has ((all record isIn).2 locked)⟩
    cases u with
    | outside => trivial
    | looking s => trivial
    | storing s data => trivial
    | awaiting s data version =>
      show Fetched m'.log t' s data version
      rw [log]
      exact Since.append holds (unlocked trivial)
    | done s data version =>
      show Fetched m'.log t' s data version
      rw [log]
      exact Since.append holds (unlocked trivial)
    | stored s data version =>
      refine ⟨?_, holds.2.trans (versions s)⟩
      rw [log]
      exact Since.append holds.1 theirs
    | invalidating s data version =>
      refine ⟨?_, holds.2.trans (versions s)⟩
      rw [log]
      exact Since.append holds.1 theirs
  cases stage with
  | «at» u => exact logged u apart logs
  | inP id u =>
    cases id with
    | plain s => exact logged u (fun has => apart ⟨has, by simp⟩) logs
    | ofLock l => trivial
  | fresh u => trivial
  | inWait c l u => trivial
  | finished => trivial

variable {initial : Int → Sector} {m : Shared T}

theorem Coherent.miss (coherent : Coherent initial m) (t : T) (s totalTicks : Int) :
    Coherent initial (m.miss t s totalTicks) := by
  have filled := coherent.fill s totalTicks
  -- after the fill the line shows what the read has fetched
  have fetched : Shared.visible { m with
      cache := m.cache.fill s totalTicks (m.disk s)
      lineVersion := Function.update m.lineVersion m.cache.swap (m.version s) } s =
      (m.disk s, m.version s) := by
    unfold Shared.visible
    cases found : (m.cache.fill s totalTicks (m.disk s)).findPos s with
    | none => rfl
    | some j =>
      obtain ⟨valid, sector⟩ := Lines.findPos_some found
      have swapped : (m.cache.fill s totalTicks (m.disk s) m.cache.swap).valid = true := by
        simp [Lines.fill]
      obtain rfl := filled.single valid swapped
      simp [Lines.fill]
  have logged := filled.linear.reads t s
  rw [fetched] at logged
  exact (filled.logs (fun _ => rfl) logged).congr rfl rfl rfl rfl rfl

theorem Coherent.hit (coherent : Coherent initial m) (t : T) {s : Int} {i : Fin cacheSize}
    (totalTicks : Int) (found : m.cache.findPos s = some i) :
    Coherent initial (m.hit t s i totalTicks) := by
  obtain ⟨valid, rfl⟩ := Lines.findPos_some found
  have logged := coherent.linear.reads t (m.cache i).sector
  rw [Coherent.visible_line coherent.single valid] at logged
  exact ((coherent.logs (fun _ => rfl) logged).touch i totalTicks).congr rfl rfl rfl rfl rfl

/-- One more entry in the log. -/
private theorem Shared.grows_entry {m m' : Shared T} {t : T} {inside : Prop} (record : Record T)
    (log : m'.log = m.log ++ [record]) (own : record.thread = t)
    (locked : record.locked = true → inside) (versions : ∀ s, m.version s ≤ m'.version s) :
    m.Grows t inside m' :=
  ⟨⟨[record], log, by simpa using ⟨own, locked⟩⟩, versions⟩

/-- What every state of a run has. -/
structure Atomic (initial : Int → Sector) (v : View T) : Prop where
  coherent : Coherent initial v.memory
  logs (t : T) : Logs v.memory t (v.stage t)

theorem Begins.atomic {k : State T} (begins : Begins k) : Atomic k.memory.disk k.view := by
  obtain ⟨-, -, -, empty, zero⟩ := begins.unrecorded
  have visible : k.memory.visible = fun s => (k.memory.disk s, 0) := by
    funext s
    rw [Coherent.visible_disk fun i valid => by simp [begins.invalid i] at valid, zero]
  refine ⟨⟨fun {i j} valid => ?_, fun {i} valid => ?_, fun {i} valid => ?_, fun s => ?_,
    fun {s n} positive within => ?_, ?_⟩, fun t => ?_⟩
  · exact absurd valid (by simp [State.view, begins.invalid i])
  · exact absurd valid (by simp [State.view, begins.invalid i])
  · exact absurd valid (by simp [State.view, begins.invalid i])
  · show k.memory.version s = writesTo s k.memory.log
    simp [zero, empty, writesTo]
  · have bound : n ≤ k.memory.version s := within
    rw [zero] at bound
    omega
  · show Linearized k.memory.disk k.memory.log k.memory.visible
    rw [visible, empty]
    exact .start
  · show Logs k.memory t (k.phase t).stage
    obtain fresh | running := begins.outside t
    · rw [fresh]
      trivial
    · rw [running]
      trivial

section
variable [DecidableEq T]

private theorem Atomic.moves {v v' : View T} (atomic : Atomic initial v)
    (exclusive : v.Exclusive holding) {t : T} {stage : Stage}
    (stages : v'.stage = Function.update v.stage t stage) (coherent : Coherent initial v'.memory)
    (grows : v.memory.Grows t ((v.stage t).holds holding ()) v'.memory)
    (logs : Logs v'.memory t stage) : Atomic initial v' := by
  refine ⟨coherent, fun t' => ?_⟩
  rw [stages]
  by_cases same : t' = t
  · subst same
    rwa [Function.update_self]
  · rw [Function.update_of_ne same]
    exact (atomic.logs t').grows same grows fun has has' => same (exclusive has has')

theorem Atomic.step {v v' : View T} (atomic : Atomic initial v) (exclusive : v.Exclusive holding)
    (expected : ∀ t, Expected (v.stage t)) (step : View.Step (code T) v v') :
    Atomic initial v' := by
  have coherent := atomic.coherent
  have still := fun t : T => v.memory.grows_refl t ((v.stage t).holds holding ())
  -- a segment does the same to the memory whether its `P` succeeds or not
  have tests : ∀ {t u next op memory}, v.stage t = .at u → Segment t u v.memory op memory next →
      op.takes.isSome = true → Coherent initial memory ∧
        v.memory.Grows t ((v.stage t).holds holding ()) memory ∧ Logged memory t next := by
    intro t u next op memory stands does takes
    have logs := atomic.logs t
    rw [stands] at logs
    cases does <;> cases takes
    · exact ⟨coherent, still t, trivial⟩
    · exact ⟨coherent.miss t _ _, Shared.grows_entry _ rfl rfl (fun _ => by rw [stands]; trivial)
        fun _ => Nat.le_refl _, Since.last⟩
    · exact ⟨coherent, still t, logs⟩
    · exact ⟨coherent, still t, trivial⟩
    · rename_i s data
      have versions : ∀ s', v.memory.version s' ≤ (v.memory.store t s data).version s' := by
        intro s'
        by_cases here : s' = s
        · simp [Shared.store, here]
        · simp [Shared.store, here]
      exact ⟨(coherent.store t s data).congr rfl rfl rfl rfl rfl,
        Shared.grows_entry _ rfl rfl (fun _ => by rw [stands]; trivial) versions, Since.last,
        by simp [Shared.store]⟩
  cases step with
  | still => exact atomic
  | goes stands does quiet =>
    rename_i t u next op memory
    have logs := atomic.logs t
    rw [stands] at logs
    cases does <;> cases quiet
    · exact atomic.moves exclusive rfl coherent (still t) trivial
    · rename_i s data version
      obtain ⟨entered, reached⟩ : Entered v.memory.log t s data version ∧
        version ≤ v.memory.version s := logs
      obtain ⟨invalidated, atDisk⟩ := coherent.invalidate s
      have returned := invalidated.linear.writeReturns entered (by rw [atDisk]; exact reached)
      exact atomic.moves exclusive rfl (invalidated.logs (fun _ => rfl) returned)
        (Shared.grows_entry _ rfl rfl (by simp [Record.locked]) fun _ => Nat.le_refl _) trivial
  | takes stands does takes nonzero =>
    obtain ⟨kept, grows, logs⟩ := tests stands does (by simp [takes])
    exact atomic.moves exclusive rfl kept grows logs
  | sleeps stands does takes zero =>
    rename_i id
    obtain ⟨kept, grows, logs⟩ := tests stands does (by simp [takes])
    refine atomic.moves exclusive rfl kept grows ?_
    cases id with
    | plain s => exact logs
    | ofLock l => trivial
  | retakes stands nonzero =>
    rename_i t next id
    have logs := atomic.logs t
    have where_ := expected t
    rw [stands] at logs where_
    refine atomic.moves exclusive rfl coherent (still t) ?_
    cases id with
    | plain s => exact logs
    | ofLock l => cases next <;> first | exact where_.elim | trivial
  | raises stands does raises =>
    rename_i t u next op memory id
    have logs := atomic.logs t
    rw [stands] at logs
    cases does <;> cases raises
    · rename_i totalTicks found
      exact atomic.moves exclusive rfl (coherent.hit t totalTicks found)
        (Shared.grows_entry _ rfl rfl (fun _ => by rw [stands]; trivial) fun _ => Nat.le_refl _)
        Since.last
    · have returned := coherent.linear.readReturns logs
      exact atomic.moves exclusive rfl
        ((coherent.logs (fun _ => rfl) returned).congr rfl rfl rfl rfl rfl)
        (Shared.grows_entry _ rfl rfl (fun _ => by rw [stands]; trivial) fun _ => Nat.le_refl _)
        trivial
    · exact atomic.moves exclusive rfl (coherent.congr rfl rfl rfl rfl rfl) (still t) logs
  | waits stands does => cases does
  | returns stands nonzero => rename_i c _ _; exact c.elim
  | reacquires stands zero => rename_i c _ _; exact c.elim
  | forks stands does fresh => cases does
  | finishes stands does =>
    cases does
    exact atomic.moves exclusive rfl coherent (still _) trivial
  | interrupt fires => cases fires
  | interrupts fires =>
    cases fires with
    | diskDone scheduled => exact ⟨coherent.congr rfl rfl rfl rfl rfl, atomic.logs⟩

/-- The cached disk is linearizable: its log is one of an atomic store of
sectors. A read that fetches after a write has returned, no other write to the
sector having entered since, returns what was written; reads of a sector never
return older contents than a read before them; and no two valid lines hold one
sector. -/
theorem cached_disk_is_linearizable {start k : State T} {trace : List (Event T Unit Unit Empty)}
    (begins : Begins start) (run : Runs (Threads.Step (code T)) start trace k) :
    (∃ store, Linearized start.memory.disk k.memory.log store) ∧
    (∀ first middle second third rest t t' s data fetched data' version found version',
      k.memory.log = first ++ .writes t s data version :: middle ++
        .writeReturns t s data version :: second ++ .reads t' s fetched found :: third ++
        .readReturns t' s data' version' :: rest →
      (∀ record ∈ third, record.thread ≠ t') →
      writesTo s middle = 0 ∧ writesTo s second = 0 → data' = data ∧ version' = version) ∧
    (∀ first middle rest t t' s data data' version version',
      k.memory.log = first ++ .readReturns t s data version :: middle ++
        .readReturns t' s data' version' :: rest →
      version ≤ version' ∧ (version = version' → data = data')) ∧
    ∀ i j, (k.memory.cache i).valid = true → (k.memory.cache j).valid = true →
      (k.memory.cache i).sector = (k.memory.cache j).sector → i = j := by
  have both : Kept k ∧ Atomic start.memory.disk k.view :=
    run.invariant_state (P := fun k => Kept k ∧ Atomic start.memory.disk k.view)
      ⟨begins.kept, begins.atomic⟩ fun ⟨kept, atomic⟩ step =>
        ⟨kept.step step, atomic.step kept.held.exclusive kept.expected step.view⟩
  have atomic := both.2
  have linear : Linearized start.memory.disk k.memory.log k.memory.visible := atomic.coherent.linear
  refine ⟨⟨_, linear⟩, ?_, ?_, fun i j valid valid' _ => atomic.coherent.single valid valid'⟩
  · intro first middle second third rest t t' s data fetched data' version found version' split
      own noOther
    exact linear.read_after_write split own noOther
  · intro first middle rest t t' s data data' version version' split
    exact linear.reads_in_order split

end

/-- One thread writes a sector, then the other one reads it, with a miss: it gets
what was written. -/
theorem cached_disk_is_linearizable_read :
    ∃ trace k data version, Runs (Threads.Step (code Bool)) twoThreads trace k ∧
      k.memory.log = [.writes false 5 (fun _ => 1) 1, .writeReturns false 5 (fun _ => 1) 1,
        .reads true 5 data version, .readReturns true 5 data version] ∧
      data = (fun _ => 1) ∧ version = 1 ∧
      ∃ store, Linearized twoThreads.memory.disk k.memory.log store := by
  have enters : Runs (Threads.Step (code Bool)) twoThreads _ _ :=
    .next .start (.segment (t := false) rfl (.writeSector (s := 5) (by decide) fun _ => 1) (by simp))
  have asks := enters.next (.segment (t := false) rfl .stores (by simp))
  have completed := asks.next (.interrupt (.diskDone (t := false) rfl))
  have passes := completed.next (.retest (t := false) rfl)
  have releases := passes.next (.segment (t := false) rfl .releases (by simp))
  have wrote := releases.next (.segment (t := false) rfl .invalidates (by simp))
  have looks := wrote.next (.segment (t := true) rfl (.readSector (s := 5) (by decide)) (by simp))
  have misses := looks.next (.segment (t := true) rfl (.misses 0 rfl) (by simp))
  have fetched := misses.next (.interrupt (.diskDone (t := true) rfl))
  have goesOn := fetched.next (.retest (t := true) rfl)
  have read := goesOn.next (.segment (t := true) rfl .readDone (by simp))
  obtain ⟨linear, afterWrite, -⟩ := cached_disk_is_linearizable twoThreads_begins read
  obtain ⟨data, version⟩ := afterWrite [] [] [] [] [] false true 5 _ _ _ _ _ _ rfl (by simp)
    (by simp [writesTo])
  exact ⟨_, _, _, _, read, rfl, data, version, linear⟩

end Nachos.DiskThreads
