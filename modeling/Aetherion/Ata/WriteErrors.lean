import Aetherion.Ata.Waiting

/-!
# Errors of a write

A drive can fail a write at three points of each sector: it can refuse the data, report a fault
while it asks for them, and report one, or never become ready again, when the cache is flushed.

`writeLog` is what the driver has seen: for each WRITE command the statuses read before the flush,
the words sent, and the statuses read after it.  `WriteReported` says that the result of the call
does justice to it.  The driver looks at ERR while it waits for DRQ, but nowhere at DF, and not at
the outcome of the flush, so that is so only if the drive refuses a sector outright or nothing goes
wrong at all: `write_reported_iff`.
-/

set_option autoImplicit false

namespace Aetherion.Ata

open Driver Driver.Prog

/-! ## What the driver sees -/

/-- BSY is clear, so the other bits are valid, and ERR or DF is set. -/
def reportsError (status : UInt8) : Prop := status &&& 0x80 = 0 ∧ status &&& 0x21 ≠ 0

/-- BSY is clear, and neither ERR nor DF is set. -/
def reportsSuccess (status : UInt8) : Prop := status &&& 0x80 = 0 ∧ status &&& 0x21 = 0

/-- What happens after one WRITE command. -/
structure SectorLog where
  /-- The statuses read before the flush. -/
  dataStatus : List UInt8
  /-- How many words are sent before the flush. -/
  words : ℕ
  /-- FLUSH CACHE is issued. -/
  flushed : Bool
  /-- The statuses read after it. -/
  flushStatus : List UInt8

/-- Just after the command. -/
def SectorLog.begun : SectorLog := ⟨[], 0, false, []⟩

/-- One status more. -/
def SectorLog.noteStatus (log : SectorLog) (status : UInt8) : SectorLog :=
  if log.flushed then { log with flushStatus := log.flushStatus ++ [status] }
  else { log with dataStatus := log.dataStatus ++ [status] }

/-- One exchange more. -/
def SectorLog.note (basePort : UInt16) (log : SectorLog) : Exchange → SectorLog
  | .out (.outw p _) =>
    if p = basePort ∧ log.flushed = false then { log with words := log.words + 1 } else log
  | .out (.outb p v) => if p = basePort + 7 ∧ v = 0xE7 then { log with flushed := true } else log
  | .inp (.inb p) status => if p = basePort + 7 then log.noteStatus status else log
  | _ => log

/-- WRITE SECTORS or WRITE SECTORS EXT is written to the command register. -/
def opensSector (basePort : UInt16) : Exchange → Bool
  | .out (.outb p v) => p = basePort + 7 ∧ (v = 0x30 ∨ v = 0x34)
  | _ => false

/-- The logs of the sectors, the latest first. -/
def writeLog (basePort : UInt16) : Observer machine (List SectorLog) Empty where
  step logs e :=
    (if opensSector basePort e then .begun :: logs else logs.modifyHead (·.note basePort e), [])

/-- The sector has been written as far as the drive has said: all its words are sent, the flush is
issued, and a status after that shows success. -/
structure SectorLog.Confirmed (log : SectorLog) : Prop where
  words : log.words = 256
  flushed : log.flushed = true
  success : ∃ status ∈ log.flushStatus, reportsSuccess status

/-- The drive has reported an error, or has not become ready: with DRQ for the data, or with DRDY
after the flush. -/
def SectorLog.Failed (log : SectorLog) : Prop :=
  (∃ status ∈ log.dataStatus ++ log.flushStatus, reportsError status) ∨
    (∀ status ∈ log.dataStatus, status &&& 0x08 = 0) ∨
    (log.flushed = true ∧ ∀ status ∈ log.flushStatus, readyTest status = none)

/-- **The result does justice to the logs**: `0` only if each of the sectors is confirmed, and `-1`
if any of them has failed. -/
structure WriteReported (logs : List SectorLog) (count : ℕ) (result : ℤ) : Prop where
  confirmed : result = 0 → logs.length = count ∧ ∀ log ∈ logs, log.Confirmed
  failed : (∃ log ∈ logs, log.Failed) → result = -1

/-! ## What the drive answers -/

namespace Session

variable (q : Session) (buffer : UInt32 → UInt16)

/-- After the words of sector `k` and FLUSH CACHE. -/
def flushIssued (k : ℕ) (h : Trace machine) : Trace machine :=
  q.awaited 0x34 0x30 k h ++
    (ofOuts ((List.range 256).map fun i ↦
      Out.outw q.basePort (buffer (UInt32.ofNat k * 256 + UInt32.ofNat i))) : Trace machine) ++
    [.out (.outb (q.basePort + 7) 0xE7)]

/-- The history when sector `k` is begun, if the drive has not refused one before it. -/
def writeBegun : ℕ → Trace machine
  | 0 => q.history
  | k + 1 =>
    q.flushIssued buffer k (writeBegun k) ++
      (ataWaitReady q.basePort 1000).trace q.dev (q.flushIssued buffer k (writeBegun k))

/-- Poll `j` of the status after the WRITE command for sector `k`. -/
def dataStatus (k j : ℕ) : UInt8 :=
  statusAnswer q.basePort q.dev (q.asked 0x34 0x30 k (q.writeBegun buffer k)) j

/-- Poll `j` of the status after the flush of sector `k`. -/
def flushStatus (k j : ℕ) : UInt8 :=
  statusAnswer q.basePort q.dev (q.flushIssued buffer k (q.writeBegun buffer k)) j

/-- Poll `j` is the first after the flush to find the drive ready. -/
def FlushedAt (k j : ℕ) : Prop :=
  j < 1000000 ∧ readyTest (q.flushStatus buffer k j) = some 0 ∧
    ∀ i < j, readyTest (q.flushStatus buffer k i) = none

/-- Nothing goes wrong with sector `k`: DRQ comes, and the drive becomes ready again after the
flush, and up to there no status reports an error. -/
def Smooth (k : ℕ) : Prop :=
  (∃ j, GrantsAt (q.dataStatus buffer k) j ∧
    ∀ i ≤ j, ¬reportsError (q.dataStatus buffer k i)) ∧
  ∃ j, q.FlushedAt buffer k j ∧ ∀ i ≤ j, ¬reportsError (q.flushStatus buffer k i)

/-- The log of sector `k` says what has happened: up to DRQ, and after the flush up to the first
poll that finds the drive ready, or in all of them. -/
structure LogOf (k : ℕ) (log : SectorLog) : Prop where
  words : log.words = 256
  flushed : log.flushed = true
  data : ∃ j, GrantsAt (q.dataStatus buffer k) j ∧
    log.dataStatus = (List.range (j + 1)).map (q.dataStatus buffer k)
  flush : (∃ j, q.FlushedAt buffer k j ∧
      log.flushStatus = (List.range (j + 1)).map (q.flushStatus buffer k)) ∨
    ((∀ j < 1000000, readyTest (q.flushStatus buffer k j) = none) ∧
      log.flushStatus = (List.range 1000000).map (q.flushStatus buffer k))

end Session

/-! ## The log of a sector -/

section
variable {basePort : UInt16} {log : SectorLog} {logs : List SectorLog}

/-- A write to a register of the task file that is not the command register. -/
theorem writeLog_step_register {reg : UInt16} (hreg : reg ≠ 7) (v : UInt8) (logs : List SectorLog) :
    ((writeLog basePort).step logs (.out (.outb (basePort + reg) v))).1 = logs := by
  have hport : basePort + reg ≠ basePort + 7 := fun heq ↦ hreg ((UInt16.add_right_inj _).mp heq)
  have hopens : ¬opensSector basePort (.out (.outb (basePort + reg) v)) := by
    rw [opensSector, decide_eq_true_iff]
    exact fun h ↦ hport h.1
  refine (if_neg hopens).trans ?_
  cases logs with
  | nil => rfl
  | cons log logs => exact congrArg (· :: logs) (if_neg fun h ↦ hport h.1)

/-- The command begins a log. -/
theorem writeLog_after_command (lba : UInt64) (lba48 : Bool) (logs : List SectorLog) :
    (writeLog basePort).after logs (ofOuts (commandOuts basePort lba lba48 0x34 0x30)) =
      .begun :: logs := by
  have hcommand : ((writeLog basePort).step logs
      (.out (.outb (basePort + 7) (if lba48 then 0x34 else 0x30)))).1 = .begun :: logs := by
    refine if_pos ?_
    rw [opensSector, decide_eq_true_iff]
    cases lba48 <;> exact ⟨rfl, by decide⟩
  cases lba48
  all_goals
    simp only [commandOuts, ofOuts, Bool.false_eq_true, if_true, if_false, List.nil_append,
      List.cons_append, List.map_cons, List.map_nil, Observer.after_cons, Observer.after_nil]
    simp only [writeLog_step_register (show (1 : UInt16) ≠ 7 by decide),
      writeLog_step_register (show (2 : UInt16) ≠ 7 by decide),
      writeLog_step_register (show (3 : UInt16) ≠ 7 by decide),
      writeLog_step_register (show (4 : UInt16) ≠ 7 by decide),
      writeLog_step_register (show (5 : UInt16) ≠ 7 by decide),
      writeLog_step_register (show (6 : UInt16) ≠ 7 by decide)]
    exact hcommand

/-- The words. -/
theorem writeLog_after_words (hlog : log.flushed = false) (word : ℕ → UInt16) (n : ℕ) :
    (writeLog basePort).after (log :: logs)
        (ofOuts ((List.range n).map fun i ↦ Out.outw basePort (word i))) =
      { log with words := log.words + n } :: logs := by
  induction n with
  | zero => rfl
  | succ n ih =>
    rw [ofOuts] at ih
    rw [List.range_succ, List.map_append, ofOuts, List.map_append, Observer.after_append, ih]
    exact congrArg (· :: logs) (if_pos ⟨rfl, hlog⟩)

/-- The statuses. -/
theorem writeLog_after_statuses (ss : List UInt8) (log : SectorLog) (logs : List SectorLog) :
    (writeLog basePort).after (log :: logs) (ss.map (statusRead basePort)) =
      ss.foldl SectorLog.noteStatus log :: logs := by
  induction ss generalizing log with
  | nil => rfl
  | cons s ss ih =>
    have hstep : ((writeLog basePort).step (log :: logs) (statusRead basePort s)).1 =
        log.noteStatus s :: logs := congrArg (· :: logs) (if_pos rfl)
    rw [List.map_cons, Observer.after_cons, hstep]
    exact ih (log.noteStatus s)

theorem foldl_noteStatus_data (hlog : log.flushed = false) (ss : List UInt8) :
    ss.foldl SectorLog.noteStatus log = { log with dataStatus := log.dataStatus ++ ss } := by
  induction ss generalizing log with
  | nil => rw [List.append_nil]; rfl
  | cons s ss ih =>
    have hnote : log.noteStatus s = { log with dataStatus := log.dataStatus ++ [s] } :=
      if_neg (by rw [hlog]; exact Bool.false_ne_true)
    rw [List.foldl_cons, hnote]
    refine (@ih { log with dataStatus := log.dataStatus ++ [s] } hlog).trans ?_
    rw [List.append_assoc]
    rfl

theorem foldl_noteStatus_flush (hlog : log.flushed = true) (ss : List UInt8) :
    ss.foldl SectorLog.noteStatus log = { log with flushStatus := log.flushStatus ++ ss } := by
  induction ss generalizing log with
  | nil => rw [List.append_nil]; rfl
  | cons s ss ih =>
    have hnote : log.noteStatus s = { log with flushStatus := log.flushStatus ++ [s] } :=
      if_pos hlog
    rw [List.foldl_cons, hnote]
    refine (@ih { log with flushStatus := log.flushStatus ++ [s] } hlog).trans ?_
    rw [List.append_assoc]
    rfl

/-- The flush. -/
theorem writeLog_step_flush (log : SectorLog) (logs : List SectorLog) :
    ((writeLog basePort).step (log :: logs) (.out (.outb (basePort + 7) 0xE7))).1 =
      { log with flushed := true } :: logs := by
  have hopens : ¬opensSector basePort (.out (.outb (basePort + 7) 0xE7)) := by
    rw [opensSector, decide_eq_true_iff]
    rintro ⟨-, h | h⟩ <;> exact absurd h (by decide)
  exact (if_neg hopens).trans (congrArg (· :: logs) (if_pos ⟨rfl, rfl⟩))

end

/-! ## One sector -/

namespace Session

variable {q : Session} {buffer : UInt32 → UInt16}

variable (q buffer) in
/-- The polls after the flush. -/
theorem flush_ends (k : ℕ) :
    ∃ n, ((∃ j, q.FlushedAt buffer k j ∧ n = j + 1) ∨
        ((∀ j < 1000000, readyTest (q.flushStatus buffer k j) = none) ∧ n = 1000000)) ∧
      q.writeBegun buffer (k + 1) =
        polled q.dev (statusPort q.basePort) (q.flushIssued buffer k (q.writeBegun buffer k))
          n := by
  have hends := ataWaitReady_ends q.basePort q.dev (q.flushIssued buffer k (q.writeBegun buffer k))
  rw [writeBegun]
  generalize (ataWaitReady q.basePort 1000).value q.dev _ = r at hends
  generalize q.flushIssued buffer k (q.writeBegun buffer k) ++
    (ataWaitReady q.basePort 1000).trace q.dev _ = t at hends ⊢
  cases hends with
  | passed j r hj hbefore hfirst =>
    obtain rfl := eq_zero_of_readyTest hfirst
    exact ⟨j + 1, Or.inl ⟨j, ⟨hj, hfirst, hbefore⟩, rfl⟩, rfl⟩
  | timeout hnone => exact ⟨1000000, Or.inr ⟨hnone, rfl⟩, rfl⟩

/-- **The log of a sector** that the drive does not refuse. -/
theorem exists_logOf {k : ℕ} (hk : ¬Refuses (q.dataStatus buffer k)) :
    ∃ t, q.writeBegun buffer (k + 1) = q.writeBegun buffer k ++ t ∧
      ∃ log, q.LogOf buffer k log ∧
        ∀ logs, (writeLog q.basePort).after logs t = log :: logs := by
  rcases ataWaitDrq_cases q.basePort q.dev (q.asked 0x34 0x30 k (q.writeBegun buffer k)) with
    ⟨hrefuses, -⟩ | ⟨-, -, j, hgrants, hawaited⟩
  · exact absurd hrefuses hk
  obtain ⟨n, hflush, hbegun⟩ := flush_ends q buffer k
  refine ⟨ofOuts (commandOuts q.basePort (q.sectorLba k) q.lba48 0x34 0x30) ++
    (((List.range (j + 1)).map (q.dataStatus buffer k)).map (statusRead q.basePort) ++
    ((ofOuts ((List.range 256).map fun i ↦
      Out.outw q.basePort (buffer (UInt32.ofNat k * 256 + UInt32.ofNat i))) : Trace machine) ++
    (.out (.outb (q.basePort + 7) 0xE7) ::
    ((List.range n).map (q.flushStatus buffer k)).map (statusRead q.basePort)))), ?_,
    ⟨(List.range (j + 1)).map (q.dataStatus buffer k), 256, true,
      (List.range n).map (q.flushStatus buffer k)⟩, ⟨rfl, rfl, ⟨j, hgrants, rfl⟩, ?_⟩, ?_⟩
  · have hdata : statusAnswer q.basePort q.dev (q.asked 0x34 0x30 k (q.writeBegun buffer k)) =
      q.dataStatus buffer k := rfl
    have hflush : statusAnswer q.basePort q.dev (q.flushIssued buffer k (q.writeBegun buffer k)) =
      q.flushStatus buffer k := rfl
    rw [hbegun, polled_statusPort, hflush, flushIssued, awaited, hawaited, polled_statusPort, hdata,
      asked, trace_ataCommand]
    simp only [List.append_assoc, List.cons_append, List.nil_append]
  · rcases hflush with ⟨j', hj', hn⟩ | ⟨hnone, hn⟩
    · exact Or.inl ⟨j', hj', congrArg (fun n ↦ (List.range n).map (q.flushStatus buffer k)) hn⟩
    · exact Or.inr ⟨hnone, congrArg (fun n ↦ (List.range n).map (q.flushStatus buffer k)) hn⟩
  · intro logs
    rw [Observer.after_append, writeLog_after_command, Observer.after_append,
      writeLog_after_statuses, foldl_noteStatus_data rfl, Observer.after_append,
      writeLog_after_words rfl, Observer.after_cons, writeLog_step_flush, writeLog_after_statuses,
      foldl_noteStatus_flush rfl]
    rfl

/-- The loop that sends the words. -/
theorem append_trace_words (basePort : UInt16) (dev : Device machine) (h : Trace machine)
    (word : ℕ → UInt16) (n : ℕ) :
    h ++ (forEach (fun i (_ : Unit) ↦ outw basePort (word i)) n 0 ()).trace dev h =
      h ++ ofOuts ((List.range n).map fun i ↦ Out.outw basePort (word i)) := by
  have hrun := forEach_run (fun i (_ : Unit) ↦ outw basePort (word i))
    (fun i _ h' ↦ h' = h ++ ofOuts ((List.range i).map fun i ↦ Out.outw basePort (word i))) dev n 0
    (by
      rintro i - h' - - rfl
      rw [List.range_succ, List.map_append, ofOuts, ofOuts, List.map_append, ← List.append_assoc]
      rfl)
    (a := ()) (h := h) (List.append_nil h).symm
  rwa [Nat.zero_add] at hrun

/-- **One sector**: the program gives up, or it stands before the next. -/
theorem ataWriteSector_spec (k : ℕ) :
    let sector := ataWriteSector q.basePort q.lba q.lba48 buffer (.ofNat k)
    let h := q.writeBegun buffer k
    (Refuses (q.dataStatus buffer k) → sector.value q.dev h = .error () ∧
      h ++ sector.trace q.dev h = q.awaited 0x34 0x30 k h) ∧
    (¬Refuses (q.dataStatus buffer k) → sector.value q.dev h = .ok () ∧
      h ++ sector.trace q.dev h = q.writeBegun buffer (k + 1)) := by
  intro sector h
  have hcond : Refuses (q.dataStatus buffer k) ↔ (ataWaitDrq q.basePort 500).value q.dev (h ++
      (ataCommand q.basePort (q.lba + (UInt32.ofNat k).toUInt64) q.lba48 0x34 0x30).trace q.dev
        h) < 0 := (q.drqFails_iff 0x34 0x30 k h).symm
  rw [writeBegun]
  simp only [flushIssued, awaited, asked, sectorLba]
  simp only [sector, ataWriteSector]
  rw [value_bind, trace_bind, ← List.append_assoc, value_bind, trace_bind, ← List.append_assoc,
    value_ite, trace_ite]
  constructor
  · intro hrefuses
    rw [if_pos (hcond.mp hrefuses), if_pos (hcond.mp hrefuses), trace_pure, List.append_nil]
    exact ⟨rfl, rfl⟩
  · intro hrefuses
    rw [if_neg (mt hcond.mpr hrefuses), if_neg (mt hcond.mpr hrefuses), value_bind, trace_bind,
      ← List.append_assoc, append_trace_words, value_bind, trace_bind, ← List.append_assoc,
      value_bind, trace_bind, ← List.append_assoc, trace_pure, List.append_nil]
    exact ⟨rfl, rfl⟩

theorem path_ataWriteSector (q : Session) (buffer : UInt32 → UInt16) (n : ℕ) :
    Path (fun sector (_ : Unit) ↦ ataWriteSector q.basePort q.lba q.lba48 buffer (.ofNat sector))
      q.dev (fun _ ↦ ()) (q.writeBegun buffer) (fun k _ ↦ Refuses (q.dataStatus buffer k))
      (fun k ↦ q.awaited 0x34 0x30 k (q.writeBegun buffer k)) n :=
  ⟨fun k _ _ hrefuses ↦ (ataWriteSector_spec k).1 hrefuses,
    fun k _ hgoes ↦ (ataWriteSector_spec k).2 (hgoes ())⟩

/-! ## All of them -/

/-- The logs of the sectors before the `n`-th, if none of them is refused. -/
theorem exists_logs {n : ℕ} (hn : ∀ k < n, ¬Refuses (q.dataStatus buffer k)) :
    ∃ t, q.writeBegun buffer n = q.history ++ t ∧
      ((writeLog q.basePort).after [] t).length = n ∧
      (∀ k < n, ∃ log ∈ (writeLog q.basePort).after [] t, q.LogOf buffer k log) ∧
      ∀ log ∈ (writeLog q.basePort).after [] t, ∃ k < n, q.LogOf buffer k log := by
  induction n with
  | zero =>
    exact ⟨[], (List.append_nil _).symm, rfl, fun k hk ↦ absurd hk (Nat.not_lt_zero k),
      fun log hlog ↦ nomatch hlog⟩
  | succ n ih =>
    obtain ⟨t, hbegun, hlength, hof, hmem⟩ := ih fun k hk ↦ hn k (Nat.lt_succ_of_lt hk)
    obtain ⟨u, hsector, log, hlog, hafter⟩ := exists_logOf (hn n (Nat.lt_succ_self n))
    refine ⟨t ++ u, by rw [hsector, hbegun, List.append_assoc], ?_⟩
    rw [Observer.after_append, hafter]
    refine ⟨by rw [List.length_cons, hlength], ?_, ?_⟩
    · intro k hk
      rcases Nat.lt_succ_iff_lt_or_eq.mp hk with hlt | rfl
      · obtain ⟨log', hmem', hlog'⟩ := hof k hlt
        exact ⟨log', List.mem_cons_of_mem _ hmem', hlog'⟩
      · exact ⟨log, List.mem_cons_self, hlog⟩
    · intro log' hlog'
      rcases List.mem_cons.mp hlog' with rfl | hlog'
      · exact ⟨n, Nat.lt_succ_self n, hlog⟩
      · obtain ⟨k, hk, hof'⟩ := hmem log' hlog'
        exact ⟨k, Nat.lt_succ_of_lt hk, hof'⟩

/-- What holds of each status read up to poll `n`. -/
theorem forall_mem_polls {status : ℕ → UInt8} {n : ℕ} {P : UInt8 → Prop} :
    (∀ s ∈ (List.range (n + 1)).map status, P s) ↔ ∀ i ≤ n, P (status i) := by
  simp only [List.forall_mem_map, List.mem_range, Nat.lt_succ_iff]

/-- **A log without failures** is that of a sector with which nothing goes wrong. -/
theorem LogOf.smooth {k : ℕ} {log : SectorLog} (hlog : q.LogOf buffer k log)
    (hfailed : ¬log.Failed) : q.Smooth buffer k := by
  have hnone (status : UInt8) (hmem : status ∈ log.dataStatus ++ log.flushStatus) :
      ¬reportsError status := fun herror ↦ hfailed (Or.inl ⟨status, hmem, herror⟩)
  obtain ⟨j, hgrants, hdata⟩ := hlog.data
  refine ⟨⟨j, hgrants, forall_mem_polls.mp fun s hs ↦ hnone s (List.mem_append_left _ ?_)⟩, ?_⟩
  · rwa [hdata]
  · rcases hlog.flush with ⟨j', hflushed, hflush⟩ | ⟨htimeout, hflush⟩
    · refine ⟨j', hflushed, forall_mem_polls.mp fun s hs ↦ hnone s (List.mem_append_right _ ?_)⟩
      rwa [hflush]
    · refine absurd (Or.inr (Or.inr ⟨hlog.flushed, fun status hmem ↦ ?_⟩)) hfailed
      rw [hflush] at hmem
      obtain ⟨j', hj', rfl⟩ := List.mem_map.mp hmem
      exact htimeout j' (List.mem_range.mp hj')

/-- The statuses read for the data, if DRQ comes at poll `j`. -/
theorem LogOf.dataStatus_eq {k j : ℕ} {log : SectorLog} (hlog : q.LogOf buffer k log)
    (hgrants : GrantsAt (q.dataStatus buffer k) j) :
    log.dataStatus = (List.range (j + 1)).map (q.dataStatus buffer k) := by
  obtain ⟨i, hi, hdata⟩ := hlog.data
  rwa [(first_some_unique hi.2.1 hi.2.2 hgrants.2.1 hgrants.2.2).1] at hdata

/-- The statuses read after the flush, if the drive is ready at poll `j`. -/
theorem LogOf.flushStatus_eq {k j : ℕ} {log : SectorLog} (hlog : q.LogOf buffer k log)
    (hflushed : q.FlushedAt buffer k j) :
    log.flushStatus = (List.range (j + 1)).map (q.flushStatus buffer k) := by
  rcases hlog.flush with ⟨i, hi, hflush⟩ | ⟨htimeout, -⟩
  · rwa [(first_some_unique hi.2.1 hi.2.2 hflushed.2.1 hflushed.2.2).1] at hflush
  · rw [FlushedAt, htimeout j hflushed.1] at hflushed
    exact absurd hflushed.2.1 (by decide)

/-- A drive that is ready has succeeded, or else reports an error. -/
theorem reportsSuccess_of_ready {status : UInt8} (hready : readyTest status = some 0)
    (herror : ¬reportsError status) : reportsSuccess status := by
  rw [readyTest, Option.ite_none_right_eq_some] at hready
  exact ⟨hready.1.1, by_contra fun hbits ↦ herror ⟨hready.1.1, hbits⟩⟩

/-- A status that lets the driver send the data shows DRQ. -/
theorem drq_of_granted {status : UInt8} (hgranted : drqTest status = some 0) :
    status &&& 0x08 ≠ 0 := by
  intro hdrq
  rw [drqTest, if_neg (not_not_intro hdrq)] at hgranted
  split_ifs at hgranted
  exact absurd hgranted (by decide)

/-- **The log of a sector with which nothing goes wrong** shows success and no failure. -/
theorem LogOf.confirmed {k : ℕ} {log : SectorLog} (hlog : q.LogOf buffer k log)
    (hsmooth : q.Smooth buffer k) : log.Confirmed ∧ ¬log.Failed := by
  obtain ⟨⟨j, hgrants, hdataOk⟩, j', hflushed, hflushOk⟩ := hsmooth
  have hdata := hlog.dataStatus_eq hgrants
  have hflush := hlog.flushStatus_eq hflushed
  have hdataNone : ∀ status ∈ log.dataStatus, ¬reportsError status := by
    rw [hdata]
    exact forall_mem_polls.mpr hdataOk
  have hflushNone : ∀ status ∈ log.flushStatus, ¬reportsError status := by
    rw [hflush]
    exact forall_mem_polls.mpr hflushOk
  have hlast : q.flushStatus buffer k j' ∈ log.flushStatus := by
    rw [hflush]
    exact List.mem_map_of_mem (List.mem_range.mpr (Nat.lt_succ_self j'))
  refine ⟨⟨hlog.words, hlog.flushed, _, hlast,
    reportsSuccess_of_ready hflushed.2.1 (hflushOk j' le_rfl)⟩, ?_⟩
  rintro (⟨status, hmem, herror⟩ | hnever | ⟨-, hnever⟩)
  · rcases List.mem_append.mp hmem with hmem | hmem
    · exact hdataNone status hmem herror
    · exact hflushNone status hmem herror
  · rw [hdata] at hnever
    exact drq_of_granted hgrants.2.1 (forall_mem_polls.mp hnever j le_rfl)
  · have hready := hflushed.2.1
    rw [hnever _ hlast] at hready
    exact absurd hready (by decide)

/-- What a write has exchanged when it ends: up to the wait for the first sector that the drive
refuses, or everything. -/
theorem ataPioWrite_path (q : Session) (count : UInt32) (buffer : UInt32 → UInt16) :
    let write := ataPioWrite q.basePort q.lba count buffer q.lba48
    (∃ k < count.toNat, (∀ j < k, ¬Refuses (q.dataStatus buffer j)) ∧
      Refuses (q.dataStatus buffer k) ∧ write.value q.dev q.history = -1 ∧
      q.history ++ write.trace q.dev q.history =
        q.awaited 0x34 0x30 k (q.writeBegun buffer k)) ∨
    ((∀ k < count.toNat, ¬Refuses (q.dataStatus buffer k)) ∧ write.value q.dev q.history = 0 ∧
      q.history ++ write.trace q.dev q.history = q.writeBegun buffer count.toNat) := by
  intro write
  have hends := forLoop_ends (path_ataWriteSector q buffer count.toNat)
  rw [writeBegun] at hends
  simp only [write, ataPioWrite, value_bind, trace_bind]
  generalize (forLoop (fun sector (_ : Unit) ↦ ataWriteSector q.basePort q.lba q.lba48 buffer
    (.ofNat sector)) count.toNat 0 ()).value q.dev q.history = v at hends ⊢
  generalize (forLoop (fun sector (_ : Unit) ↦ ataWriteSector q.basePort q.lba q.lba48 buffer
    (.ofNat sector)) count.toNat 0 ()).trace q.dev q.history = t at hends ⊢
  generalize hu : q.history ++ t = u at hends
  cases hends with
  | stopped k r hk hbefore hrefuses =>
    rw [trace_pure, List.append_nil]
    exact Or.inl ⟨k, hk, fun j hj ↦ hbefore j hj (), hrefuses, rfl, hu⟩
  | finished hall =>
    rw [trace_pure, List.append_nil]
    exact Or.inr ⟨fun k hk ↦ hall k hk (), rfl, hu⟩

/-- **How a write ends**: with `-1` if the drive refuses a sector, and with `0` and a log of every
sector if it does not. -/
theorem ataPioWrite_cases (q : Session) (count : UInt32) (buffer : UInt32 → UInt16) :
    let write := ataPioWrite q.basePort q.lba count buffer q.lba48
    let logs := (writeLog q.basePort).after [] (write.trace q.dev q.history)
    ((∃ k < count.toNat, Refuses (q.dataStatus buffer k)) ∧
      write.value q.dev q.history = -1) ∨
    ((∀ k < count.toNat, ¬Refuses (q.dataStatus buffer k)) ∧
      write.value q.dev q.history = 0 ∧ logs.length = count.toNat ∧
      (∀ k < count.toNat, ∃ log ∈ logs, q.LogOf buffer k log) ∧
      ∀ log ∈ logs, ∃ k < count.toNat, q.LogOf buffer k log) := by
  intro write logs
  rcases q.ataPioWrite_path count buffer with
    ⟨k, hk, -, hrefuses, hvalue, -⟩ | ⟨hall, hvalue, htrace⟩
  · exact Or.inl ⟨⟨k, hk, hrefuses⟩, hvalue⟩
  · obtain ⟨t, hbegun, hlogs⟩ := exists_logs hall
    obtain rfl := List.append_cancel_left (htrace.trans hbegun)
    exact Or.inr ⟨hall, hvalue, hlogs⟩

end Session

/-- **The result of a write does justice to what the driver has seen** exactly when the drive
refuses one of the sectors before its data are sent, or nothing at all goes wrong. -/
theorem write_reported_iff (q : Session) (count : UInt32) (buffer : UInt32 → UInt16) :
    WriteReported
        ((writeLog q.basePort).after []
          ((ataPioWrite q.basePort q.lba count buffer q.lba48).trace q.dev q.history))
        count.toNat
        ((ataPioWrite q.basePort q.lba count buffer q.lba48).value q.dev q.history) ↔
      (∃ k < count.toNat, Refuses (q.dataStatus buffer k)) ∨
        ∀ k < count.toNat, q.Smooth buffer k := by
  rcases q.ataPioWrite_cases count buffer with ⟨hrefuses, hvalue⟩ | ⟨hall, hvalue, hlogs⟩
  · rw [hvalue]
    exact iff_of_true ⟨fun hzero ↦ absurd hzero (by decide), fun _ ↦ rfl⟩ (Or.inl hrefuses)
  · obtain ⟨hlength, hof, hmem⟩ := hlogs
    rw [hvalue]
    constructor
    · intro hreported
      refine Or.inr fun k hk ↦ ?_
      obtain ⟨log, hlog, hlogOf⟩ := hof k hk
      exact hlogOf.smooth fun hfailed ↦ absurd (hreported.failed ⟨log, hlog, hfailed⟩) (by decide)
    · rintro (⟨k, hk, hrefuses⟩ | hsmooth)
      · exact absurd hrefuses (hall k hk)
      · refine ⟨fun _ ↦ ⟨hlength, fun log hlog ↦ ?_⟩, ?_⟩
        · obtain ⟨k, hk, hlogOf⟩ := hmem log hlog
          exact (hlogOf.confirmed (hsmooth k hk)).1
        · rintro ⟨log, hlog, hfailed⟩
          obtain ⟨k, hk, hlogOf⟩ := hmem log hlog
          exact absurd hfailed (hlogOf.confirmed (hsmooth k hk)).2

/-- One sector is written to a drive that shows DF all the time, and is ready all the same. -/
theorem faulty_write_succeeds :
    ¬WriteReported
      ((writeLog 0x1F0).after [] ((ataPioWrite 0x1F0 0 1 (fun _ ↦ 0) false).trace
        (steadyMachine 0x78 0xABCD 0) []))
      1 ((ataPioWrite 0x1F0 0 1 (fun _ ↦ 0) false).value (steadyMachine 0x78 0xABCD 0) []) := by
  intro hreported
  rcases (steadySession 0x78).ataPioWrite_cases 1 fun _ ↦ 0 with
    ⟨⟨k, -, hrefuses⟩, -⟩ | ⟨-, hvalue, -, hof, -⟩
  · exact not_drqFails_steadySession (show drqTest 0x78 = some 0 by decide) _ _ _ _
      ((Session.drqFails_iff _ _ _ _ _).mpr hrefuses)
  · obtain ⟨log, hlog, hlogOf⟩ := hof 0 (by decide)
    obtain ⟨⟨j, -, hdata⟩, -⟩ := hlogOf.smooth fun hfailed ↦
      absurd (hvalue.symm.trans (hreported.failed ⟨log, hlog, hfailed⟩)) (by decide)
    exact hdata 0 (Nat.zero_le j) ⟨show (0x78 : UInt8) &&& 0x80 = 0 by decide,
      show (0x78 : UInt8) &&& 0x21 ≠ 0 by decide⟩

end Aetherion.Ata
