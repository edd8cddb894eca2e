import Aetherion.Base.Polling
import Aetherion.Ata.Driver

/-!
# The two waits

`ata_wait_drq` and `ata_wait_ready` poll the status register of a channel, 1000 times for each
millisecond they are given.  What they return is what the first answer that ends the wait makes of
it, or `-1` if there is none.

A `Session` is a request and the device it meets.  Reads and writes begin each sector in the same
way, with a command and a wait for DRQ.
-/

set_option autoImplicit false

namespace Aetherion.Ata

open Driver Driver.Prog

/-- The status register of a channel. -/
abbrev statusPort (basePort : UInt16) : In := .inb (basePort + 7)

/-- A status that has been read. -/
def statusRead (basePort : UInt16) (status : UInt8) : Exchange := .inp (statusPort basePort) status

/-- Poll `j` of the status after a history. -/
def statusAnswer (basePort : UInt16) (dev : Device machine) (h : Trace machine) (j : ℕ) : UInt8 :=
  answer dev (statusPort basePort) h j

/-- The polls, one by one. -/
theorem polled_statusPort (basePort : UInt16) (dev : Device machine) (h : Trace machine) (n : ℕ) :
    polled dev (statusPort basePort) h n =
      h ++ ((List.range n).map (statusAnswer basePort dev h)).map (statusRead basePort) := by
  rw [polled_eq, List.map_map]
  rfl

/-- What a status makes of `ata_wait_drq`: ERR ends it with `-1`, and DRQ with `0`. -/
def drqTest (status : UInt8) : Option ℤ :=
  if status &&& 0x01 ≠ 0 then some (-1)
  else if status &&& 0x08 ≠ 0 then some 0
  else none

/-- What a status makes of `ata_wait_ready`: it ends with `0` when BSY is clear and DRDY set. -/
def readyTest (status : UInt8) : Option ℤ :=
  if status &&& 0x80 = 0 ∧ status &&& 0x40 ≠ 0 then some 0 else none

variable {basePort : UInt16} {dev : Device machine} {h : Trace machine}

theorem ataWaitDrq_eq (basePort : UInt16) (timeoutMs : UInt32) :
    ataWaitDrq basePort timeoutMs =
      wait (F := machine) (statusPort basePort) drqTest (timeoutMs * 1000).toNat (-1) := by
  have hpoll : (do
      let status ← inb (basePort + 7)
      if status &&& 0x01 ≠ 0 then (pure (.error (-1)) : Kernel (Except ℤ Unit))
      else if status &&& 0x08 ≠ 0 then pure (.error 0) else pure (.ok ())) =
      poll (F := machine) (statusPort basePort) drqTest := by
    refine congrArg (inb (basePort + 7) >>= ·) (funext fun status ↦ ?_)
    rw [drqTest]
    split_ifs <;> rfl
  rw [ataWaitDrq, hpoll]
  unfold wait
  refine congrArg (forLoop _ _ _ _ >>= ·) (funext fun r ↦ ?_)
  cases r <;> rfl

theorem ataWaitReady_eq (basePort : UInt16) (timeoutMs : UInt32) :
    ataWaitReady basePort timeoutMs =
      wait (F := machine) (statusPort basePort) readyTest (timeoutMs * 1000).toNat (-1) := by
  have hpoll : (do
      let status ← inb (basePort + 7)
      if status &&& 0x80 = 0 ∧ status &&& 0x40 ≠ 0 then
        (pure (.error 0) : Kernel (Except ℤ Unit))
      else pure (.ok ())) = poll (F := machine) (statusPort basePort) readyTest := by
    refine congrArg (inb (basePort + 7) >>= ·) (funext fun status ↦ ?_)
    rw [readyTest]
    split_ifs <;> rfl
  rw [ataWaitReady, hpoll]
  unfold wait
  refine congrArg (forLoop _ _ _ _ >>= ·) (funext fun r ↦ ?_)
  cases r <;> rfl

theorem ataWaitDrq_ends (basePort : UInt16) (dev : Device machine) (h : Trace machine) :
    WaitEnds dev (statusPort basePort) h drqTest 500000 (-1) ((ataWaitDrq basePort 500).value dev h)
      (h ++ (ataWaitDrq basePort 500).trace dev h) := by
  rw [ataWaitDrq_eq]
  exact wait_spec dev (statusPort basePort) h drqTest _ _

theorem ataWaitReady_ends (basePort : UInt16) (dev : Device machine) (h : Trace machine) :
    WaitEnds dev (statusPort basePort) h readyTest 1000000 (-1)
      ((ataWaitReady basePort 1000).value dev h)
      (h ++ (ataWaitReady basePort 1000).trace dev h) := by
  rw [ataWaitReady_eq]
  exact wait_spec dev (statusPort basePort) h readyTest _ _

/-- A drive with these answers does not take or hand over a sector: ERR comes before DRQ, or
neither comes in time. -/
def Refuses (status : ℕ → UInt8) : Prop :=
  (∃ j < 500000, drqTest (status j) = some (-1) ∧ ∀ i < j, drqTest (status i) = none) ∨
    ∀ j < 500000, drqTest (status j) = none

/-- A drive with these answers is ready at poll `j`. -/
def GrantsAt (status : ℕ → UInt8) (j : ℕ) : Prop :=
  j < 500000 ∧ drqTest (status j) = some 0 ∧ ∀ i < j, drqTest (status i) = none

theorem drqTest_cases {status : UInt8} {r : ℤ} (hr : drqTest status = some r) :
    r = -1 ∨ r = 0 := by
  rw [drqTest] at hr
  split_ifs at hr
  · exact Or.inl (Option.some.inj hr).symm
  · exact Or.inr (Option.some.inj hr).symm

theorem eq_zero_of_readyTest {status : UInt8} {r : ℤ} (hr : readyTest status = some r) : r = 0 := by
  rw [readyTest, Option.ite_none_right_eq_some] at hr
  exact (Option.some.inj hr.2).symm

/-- **The two outcomes of the wait for DRQ.** -/
theorem ataWaitDrq_cases (basePort : UInt16) (dev : Device machine) (h : Trace machine) :
    (Refuses (statusAnswer basePort dev h) ∧ (ataWaitDrq basePort 500).value dev h = -1) ∨
    (¬Refuses (statusAnswer basePort dev h) ∧ (ataWaitDrq basePort 500).value dev h = 0 ∧
      ∃ j, GrantsAt (statusAnswer basePort dev h) j ∧
        h ++ (ataWaitDrq basePort 500).trace dev h =
          polled dev (statusPort basePort) h (j + 1)) := by
  have hends := ataWaitDrq_ends basePort dev h
  generalize (ataWaitDrq basePort 500).value dev h = r at hends ⊢
  generalize h ++ (ataWaitDrq basePort 500).trace dev h = t at hends ⊢
  cases hends with
  | passed k r hk hbefore hfirst =>
    change drqTest (statusAnswer basePort dev h k) = some r at hfirst
    rcases drqTest_cases hfirst with rfl | rfl
    · exact Or.inl ⟨Or.inl ⟨k, hk, hfirst, hbefore⟩, rfl⟩
    · refine Or.inr ⟨?_, rfl, k, ⟨hk, hfirst, hbefore⟩, rfl⟩
      rintro (⟨j, hj, herror, hbefore'⟩ | hnone)
      · have hr := (first_some_unique hfirst hbefore herror hbefore').2
        exact absurd hr (by decide)
      · rw [hnone k hk] at hfirst
        exact absurd hfirst (by decide)
  | timeout hnone => exact Or.inl ⟨Or.inr hnone, rfl⟩

/-! ## Sectors -/

/-- A request for sectors, and the device and the history it meets. -/
structure Session where
  /-- `base_port`. -/
  basePort : UInt16
  /-- `lba`. -/
  lba : UInt64
  /-- `lba48`. -/
  lba48 : Bool
  /-- The device. -/
  dev : Device machine
  /-- What has been exchanged before the request. -/
  history : Trace machine

namespace Session

variable (q : Session) (ext short : UInt8) (k : ℕ) (h : Trace machine)

/-- `cur_lba` of sector `k`. -/
def sectorLba : UInt64 := q.lba + (UInt32.ofNat k).toUInt64

/-- After the command for sector `k`, sent after the history `h`. -/
def asked : Trace machine :=
  h ++ (ataCommand q.basePort (q.sectorLba k) q.lba48 ext short).trace q.dev h

/-- After the wait for DRQ as well. -/
def awaited : Trace machine :=
  q.asked ext short k h ++ (ataWaitDrq q.basePort 500).trace q.dev (q.asked ext short k h)

/-- The wait for DRQ fails. -/
def DrqFails : Prop := (ataWaitDrq q.basePort 500).value q.dev (q.asked ext short k h) < 0

/-- It does when the drive refuses. -/
theorem drqFails_iff :
    q.DrqFails ext short k h ↔
      Refuses (statusAnswer q.basePort q.dev (q.asked ext short k h)) := by
  rw [DrqFails]
  rcases ataWaitDrq_cases q.basePort q.dev (q.asked ext short k h) with
    ⟨hrefuses, hvalue⟩ | ⟨hgrants, hvalue, -⟩
  · rw [hvalue]
    exact iff_of_true (by decide) hrefuses
  · rw [hvalue]
    exact iff_of_false (by decide) hgrants

end Session

/-- A request to a channel that always shows the same status. -/
def steadySession (status : UInt8) : Session :=
  ⟨0x1F0, 0, false, steadyMachine status 0xABCD 0, []⟩

theorem not_drqFails_steadySession {status : UInt8} (hstatus : drqTest status = some 0)
    (ext short : UInt8) (k : ℕ) (h : Trace machine) :
    ¬(steadySession status).DrqFails ext short k h := by
  rw [Session.drqFails_iff]
  rintro (⟨j, -, herror, -⟩ | hnone)
  · exact absurd (hstatus.symm.trans herror) (by decide)
  · exact absurd (hstatus.symm.trans (hnone 0 (by decide))) (by decide)

/-- The writes of the command for one sector. -/
def commandOuts (basePort : UInt16) (lba : UInt64) (lba48 : Bool) (ext short : UInt8) : List Out :=
  (if lba48 then
    [.outb (basePort + 1) 0, .outb (basePort + 2) 0,
      .outb (basePort + 5) ((lba >>> 24) &&& 0xFF).toUInt8,
      .outb (basePort + 4) ((lba >>> 32) &&& 0xFF).toUInt8,
      .outb (basePort + 3) ((lba >>> 40) &&& 0xFF).toUInt8]
    else []) ++
  .outb (basePort + 6) (deviceBits false ||| ((lba >>> 24) &&& 0x0F).toUInt8) ::
  (if lba48 then [.outb (basePort + 1) 0] else []) ++
  [.outb (basePort + 2) 1, .outb (basePort + 3) (lba &&& 0xFF).toUInt8,
    .outb (basePort + 4) ((lba >>> 8) &&& 0xFF).toUInt8,
    .outb (basePort + 5) ((lba >>> 16) &&& 0xFF).toUInt8,
    .outb (basePort + 7) (if lba48 then ext else short)]

theorem trace_ataCommand (basePort : UInt16) (lba : UInt64) (lba48 : Bool) (ext short : UInt8)
    (dev : Device machine) (h : Trace machine) :
    (ataCommand basePort lba lba48 ext short).trace dev h =
      (ofOuts (commandOuts basePort lba lba48 ext short) : Trace machine) := by
  cases lba48 <;> rfl

end Aetherion.Ata
