import Aetherion.Base.Polling
import Aetherion.Ahci.Fetch

/-!
# Starting a port

The base registers of a port may only be changed while the port is at rest, with CR and FR clear.
Each of these two follows an enable bit that software sets, CR follows ST and FR follows FRE, after
any delay (`Follows`).

`ahci_port_start` clears ST, waits for both to clear, and goes on whatever comes of the wait.  It
does not clear FRE, which the firmware may have left set, so that FR need never clear, and if it is
clear for the wait it can still be on its way up.  `bases_guarded_iff` says when the base registers
are written at rest all the same.
-/

set_option autoImplicit false

namespace Aetherion.Ahci

open Driver Driver.Prog

/-! ## The port -/

section
variable (hba : Hba) (port : AhciPort) (dev : Device machine) (h : Trace machine)

/-- PxCMD as it would be read after a history. -/
def portCmd : UInt32 := (portRead hba port 0x18).value dev h

/-- A value of PxCMD after an exchange, as far as software controls it. -/
def cmdAfter (e : Exchange) (cmd : UInt32) : UInt32 :=
  match e with
  | .out (.mmio a v) => if a = portAddr hba port 0x18 then v else cmd
  | _ => cmd

/-- The bit `enable` of PxCMD is as software has set it, and the bit `flag` follows it: from one
moment to the next it stays as it is, or takes the value of the other. -/
structure Follows (flag enable : UInt32) : Prop where
  held : ∀ h e, portCmd hba port dev (h ++ [e]) &&& enable = 0 ↔
    cmdAfter hba port e (portCmd hba port dev h) &&& enable = 0
  follows : ∀ h e,
    (portCmd hba port dev (h ++ [e]) &&& flag = 0 ↔ portCmd hba port dev h &&& flag = 0) ∨
    (portCmd hba port dev (h ++ [e]) &&& flag = 0 ↔ portCmd hba port dev (h ++ [e]) &&& enable = 0)

/-- CR follows ST, and FR follows FRE. -/
structure PortFollows : Prop where
  cr : Follows hba port dev 0x8000 0x0001
  fr : Follows hba port dev 0x4000 0x0010

/-- PxCMD shows CR and FR clear. -/
def AtRest : Prop :=
  portCmd hba port dev h &&& 0x8000 = 0 ∧ portCmd hba port dev h &&& 0x4000 = 0

/-- A write to PxCLB, PxCLBU, PxFB or PxFBU. -/
def IsBaseWrite (e : Exchange) : Prop :=
  ∃ offset ∈ ([0x00, 0x04, 0x08, 0x0C] : List UInt32), ∃ v,
    e = .out (.mmio (portAddr hba port offset) v)

/-- The history when ST has been cleared. -/
def stopIssued : Trace machine :=
  h ++ (portRead hba port 0x18).trace dev h ++
    [.out (.mmio (portAddr hba port 0x18) (portCmd hba port dev h &&& ~~~1))]

/-- The history after `k` polls of PxCMD from there. -/
def stopPolled (k : ℕ) : Trace machine :=
  polled dev (.mmio (portAddr hba port 0x18)) (stopIssued hba port dev h) k

/-- **The base registers are guarded**: they are only written at rest, and if none of the polls
finds the port at rest, the result is `-1` and they are not written at all. -/
structure BasesGuarded (r : ℤ) (t : Trace machine) : Prop where
  safe : Along (fun h e ↦ IsBaseWrite hba port e → AtRest hba port dev h) h t
  timeout : (∀ k < 1000000, ¬AtRest hba port dev (stopPolled hba port dev h k)) →
    r = -1 ∧ ∀ e ∈ t, ¬IsBaseWrite hba port e

/-- The writes to the base registers. -/
def baseOuts : List Out :=
  let upper (offset : UInt32) (base : UInt64) : List Out :=
    if hba.cap64bit then [.mmio (portAddr hba port offset) (base >>> 32).toUInt32] else []
  [.mmio (portAddr hba port 0x00) port.cmdListBase.toUInt32] ++ upper 0x04 port.cmdListBase ++
    [.mmio (portAddr hba port 0x08) port.fisBase.toUInt32] ++ upper 0x0C port.fisBase

end

/-! ## Bits that follow one another -/

section
variable {hba : Hba} {port : AhciPort} {dev : Device machine} {h : Trace machine}
  {flag enable : UInt32}

/-- Exchanges that do not write PxCMD leave the enable bit as it is. -/
theorem Follows.enable_append (hdev : Follows hba port dev flag enable) {t : Trace machine}
    (ht : ∀ e ∈ t, ∀ v, cmdAfter hba port e v = v) :
    portCmd hba port dev (h ++ t) &&& enable = 0 ↔ portCmd hba port dev h &&& enable = 0 := by
  induction t generalizing h with
  | nil => rw [List.append_nil]
  | cons e t ih =>
    rw [List.append_cons, ih fun e' he' ↦ ht e' (List.mem_cons_of_mem _ he'), hdev.held,
      ht e List.mem_cons_self]

/-- Once the enable bit and the flag are clear, they stay so. -/
theorem Follows.flag_clear (hdev : Follows hba port dev flag enable) {t : Trace machine}
    (ht : ∀ e ∈ t, ∀ v, cmdAfter hba port e v = v)
    (henable : portCmd hba port dev h &&& enable = 0)
    (hflag : portCmd hba port dev h &&& flag = 0) :
    portCmd hba port dev (h ++ t) &&& flag = 0 := by
  induction t generalizing h with
  | nil => rwa [List.append_nil]
  | cons e t ih =>
    have henable' : portCmd hba port dev (h ++ [e]) &&& enable = 0 := by
      rwa [hdev.held, ht e List.mem_cons_self]
    rw [List.append_cons]
    refine ih (fun e' he' ↦ ht e' (List.mem_cons_of_mem _ he')) henable' ?_
    rcases hdev.follows h e with hstays | hfollows
    · exact hstays.mpr hflag
    · exact hfollows.mpr henable'

/-- Once they are set, they stay so. -/
theorem Follows.flag_set (hdev : Follows hba port dev flag enable) {t : Trace machine}
    (ht : ∀ e ∈ t, ∀ v, cmdAfter hba port e v = v)
    (henable : portCmd hba port dev h &&& enable ≠ 0)
    (hflag : portCmd hba port dev h &&& flag ≠ 0) :
    portCmd hba port dev (h ++ t) &&& flag ≠ 0 := by
  induction t generalizing h with
  | nil => rwa [List.append_nil]
  | cons e t ih =>
    have henable' : portCmd hba port dev (h ++ [e]) &&& enable ≠ 0 := by
      rwa [Ne, hdev.held, ht e List.mem_cons_self]
    rw [List.append_cons]
    refine ih (fun e' he' ↦ ht e' (List.mem_cons_of_mem _ he')) henable' ?_
    rcases hdev.follows h e with hstays | hfollows
    · exact mt hstays.mp hflag
    · exact mt hfollows.mp henable'

/-- FRE and FR at rest. -/
theorem atRest_iff_test (v : UInt32) :
    v &&& cmdRunning = 0 ↔ v &&& 0x8000 = 0 ∧ v &&& 0x4000 = 0 := by
  constructor
  · intro hv
    have hand (mask : UInt32) (hmask : cmdRunning &&& mask = mask) : v &&& mask = 0 := by
      rw [← hmask, ← UInt32.and_assoc, hv, UInt32.zero_and]
    exact ⟨hand 0x8000 (by decide), hand 0x4000 (by decide)⟩
  · rintro ⟨hcr, hfr⟩
    apply UInt32.toBitVec_inj.mp
    change v.toBitVec &&& ((0x8000 : BitVec 32) ||| 0x4000) = 0
    rw [BitVec.and_or_distrib_left]
    have hcr' := congrArg UInt32.toBitVec hcr
    have hfr' := congrArg UInt32.toBitVec hfr
    exact (congrArg₂ (· ||| ·) hcr' hfr').trans (by decide)

end

/-! ## The program -/

/-- What a read makes of `ahci_wait_bit`. -/
def bitTest (mask : UInt32) (expected : Bool) (v : UInt32) : Option ℤ :=
  if v &&& mask = (if expected then mask else 0) then some 0 else none

theorem bitTest_eq_none_iff (v : UInt32) :
    bitTest cmdRunning false v = none ↔ ¬(v &&& 0x8000 = 0 ∧ v &&& 0x4000 = 0) := by
  rw [bitTest, ← atRest_iff_test, if_neg Bool.false_ne_true]
  by_cases hv : v &&& cmdRunning = 0
  · rw [if_pos hv]
    exact iff_of_false (Option.some_ne_none 0) (not_not_intro hv)
  · rw [if_neg hv]
    exact iff_of_true rfl hv

theorem ahciWaitBit_eq (reg : UInt64) (mask : UInt32) (expected : Bool) (timeoutUs : UInt32) :
    ahciWaitBit reg mask expected timeoutUs =
      wait (F := machine) (.mmio reg) (bitTest mask expected) timeoutUs.toNat (-1) := by
  have hpoll : (do
      let v ← mmioRead reg
      if v &&& mask = (if expected then mask else 0) then
        (pure (.error 0) : Kernel (Except ℤ Unit))
      else pure (.ok ())) = poll (F := machine) (.mmio reg) (bitTest mask expected) := by
    refine congrArg (mmioRead reg >>= ·) (funext fun v ↦ ?_)
    rw [bitTest]
    split_ifs <;> rfl
  rw [ahciWaitBit, hpoll]
  unfold wait
  refine congrArg (forLoop _ _ _ _ >>= ·) (funext fun r ↦ ?_)
  cases r <;> rfl

section
variable (hba : Hba) (port : AhciPort) (dev : Device machine) (h : Trace machine)

/-- The end of `ahci_port_start`: the bits are set, and the driver waits for the others. -/
def portEnable : Kernel ℤ := do
  let cmd ← portRead hba port 0x18
  portWrite hba port 0x18 (cmd ||| (0x10 ||| 1))
  let r ← ahciWaitBit (portAddr hba port 0x18) cmdRunning true 1000000
  if r < 0 then do
    vgaWrite "[AHCI] Timeout demarrage port\n"
    pure (-1)
  else pure 0

/-- The middle of it. -/
def portSetBases : Kernel Unit := do
  portWrite hba port 0x00 port.cmdListBase.toUInt32
  portWriteUpper hba port 0x04 port.cmdListBase
  portWrite hba port 0x08 port.fisBase.toUInt32
  portWriteUpper hba port 0x0C port.fisBase

theorem trace_portSetBases :
    (portSetBases hba port).trace dev h = ofOuts (baseOuts hba port) := by
  rw [portSetBases, baseOuts, portWriteUpper, portWriteUpper]
  cases hba.cap64bit <;> rfl

variable {hba port dev h}

theorem portAddr_inj {a b : UInt32} (hab : portAddr hba port a = portAddr hba port b) : a = b := by
  rw [portAddr, portAddr, UInt64.add_right_inj] at hab
  have hnat := congrArg UInt64.toNat hab
  rw [UInt32.toNat_toUInt64, UInt32.toNat_toUInt64] at hnat
  exact UInt32.toNat_inj.mp hnat

/-- A write to PxCMD is none to a base register. -/
theorem not_isBaseWrite_cmd (v : UInt32) :
    ¬IsBaseWrite hba port (.out (.mmio (portAddr hba port 0x18) v)) := by
  rintro ⟨offset, hmem, v', heq⟩
  obtain ⟨haddr, -⟩ := Out.mmio.inj (Driver.Event.out.inj heq)
  have hoffset := portAddr_inj haddr
  rw [← hoffset] at hmem
  exact absurd hmem (by decide)

theorem not_isBaseWrite_inp (i : In) (r : machine.Reply i) :
    ¬IsBaseWrite hba port (.inp i r) :=
  fun ⟨_, _, _, heq⟩ ↦ nomatch heq

theorem isBaseWrite_of_mem {o : Out} (ho : o ∈ baseOuts hba port) :
    IsBaseWrite hba port (.out o) := by
  have hbase (offset : UInt32) (hoffset : offset ∈ ([0x00, 0x04, 0x08, 0x0C] : List UInt32))
      (v : UInt32) : IsBaseWrite hba port (.out (.mmio (portAddr hba port offset) v)) :=
    ⟨offset, hoffset, v, rfl⟩
  rw [baseOuts] at ho
  cases hcap : hba.cap64bit
  all_goals
    simp only [hcap, if_true, Bool.false_eq_true, if_false, List.append_nil, List.cons_append,
      List.nil_append, List.mem_cons, List.not_mem_nil, or_false] at ho
  · rcases ho with rfl | rfl
    · exact hbase 0x00 (by decide) _
    · exact hbase 0x08 (by decide) _
  · rcases ho with rfl | rfl | rfl | rfl
    · exact hbase 0x00 (by decide) _
    · exact hbase 0x04 (by decide) _
    · exact hbase 0x08 (by decide) _
    · exact hbase 0x0C (by decide) _

/-- A write to a base register does not touch PxCMD. -/
theorem cmdAfter_of_isBaseWrite {e : Exchange} (he : IsBaseWrite hba port e) (v : UInt32) :
    cmdAfter hba port e v = v := by
  obtain ⟨offset, hmem, v', rfl⟩ := he
  refine if_neg fun haddr ↦ ?_
  rw [portAddr_inj haddr] at hmem
  exact absurd hmem (by decide)

theorem ahciPortStart_eq : ahciPortStart hba port = (do
    let cmd ← portRead hba port 0x18
    portWrite hba port 0x18 (cmd &&& ~~~1)
    let _ ← ahciWaitBit (portAddr hba port 0x18) cmdRunning false 1000000
    portSetBases hba port
    portEnable hba port) := by
  simp only [portSetBases, Prog.bind_assoc]
  rfl

/-- The end of the program does not touch the base registers. -/
theorem emits_portEnable : Emits (fun e ↦ ¬IsBaseWrite hba port e) (portEnable hba port) := by
  have hwait : Emits (fun e ↦ ¬IsBaseWrite hba port e)
      (ahciWaitBit (portAddr hba port 0x18) cmdRunning true 1000000) := by
    generalize (1000000 : UInt32) = n
    refine (emits_forLoop (fun _ _ ↦ ?_) _ _ _).bind fun r ↦ by cases r <;> exact emits_pure _
    exact (emits_ask fun r ↦ not_isBaseWrite_inp _ r).bind fun _ ↦
      .ite (emits_pure _) (emits_pure _)
  refine (emits_ask fun r ↦ not_isBaseWrite_inp _ r).bind fun cmd ↦
    (emits_emit (not_isBaseWrite_cmd _)).bind fun _ ↦ hwait.bind fun r ↦ .ite ?_ (emits_pure _)
  exact (emits_emit fun ⟨_, _, _, heq⟩ ↦ nomatch heq).bind fun _ ↦ emits_pure _

/-- **How a port is started**: the stop, the polls, the base registers, and the rest. -/
theorem ahciPortStart_cases (hba : Hba) (port : AhciPort) (dev : Device machine)
    (h : Trace machine) :
    ∃ n rest,
      ((∃ k < 1000000, n = k + 1 ∧ AtRest hba port dev (stopPolled hba port dev h k) ∧
        ∀ j < k, ¬AtRest hba port dev (stopPolled hba port dev h j)) ∨
      ∀ k < 1000000, ¬AtRest hba port dev (stopPolled hba port dev h k)) ∧
      h ++ (ahciPortStart hba port).trace dev h =
        stopPolled hba port dev h n ++ ofOuts (baseOuts hba port) ++ rest ∧
      ∀ e ∈ rest, ¬IsBaseWrite hba port e := by
  have htest (j : ℕ) : bitTest cmdRunning false
      (answer dev (.mmio (portAddr hba port 0x18)) (stopIssued hba port dev h) j) = none ↔
      ¬AtRest hba port dev (stopPolled hba port dev h j) := bitTest_eq_none_iff _
  have hends := wait_spec dev (.mmio (portAddr hba port 0x18)) (stopIssued hba port dev h)
    (bitTest cmdRunning false) 1000000 (-1)
  have htrace : h ++ (ahciPortStart hba port).trace dev h =
      stopIssued hba port dev h ++ (wait (F := machine) (.mmio (portAddr hba port 0x18))
        (bitTest cmdRunning false) 1000000 (-1)).trace dev (stopIssued hba port dev h) ++
      ofOuts (baseOuts hba port) ++ (portEnable hba port).trace dev
        (stopIssued hba port dev h ++ (wait (F := machine) (.mmio (portAddr hba port 0x18))
          (bitTest cmdRunning false) 1000000 (-1)).trace dev (stopIssued hba port dev h) ++
        ofOuts (baseOuts hba port)) := by
    simp only [ahciPortStart_eq, trace_bind, ahciWaitBit_eq, trace_portSetBases, stopIssued]
    simp only [List.append_assoc]
    rfl
  generalize stopIssued hba port dev h ++ (wait (F := machine) (.mmio (portAddr hba port 0x18))
    (bitTest cmdRunning false) 1000000 (-1)).trace dev (stopIssued hba port dev h) = t
    at hends htrace
  generalize (wait (F := machine) (.mmio (portAddr hba port 0x18)) (bitTest cmdRunning false)
    1000000 (-1)).value dev (stopIssued hba port dev h) = r at hends
  cases hends with
  | passed k r hk hbefore hfirst =>
    have hrest : AtRest hba port dev (stopPolled hba port dev h k) := by
      by_contra hnot
      rw [(htest k).mpr hnot] at hfirst
      exact Option.some_ne_none r hfirst.symm
    exact ⟨k + 1, _, Or.inl ⟨k, hk, rfl, hrest, fun j hj ↦ (htest j).mp (hbefore j hj)⟩, htrace,
      emits_portEnable dev _⟩
  | timeout hnone =>
    exact ⟨1000000, _, Or.inr fun k hk ↦ (htest k).mp (hnone k hk), htrace, emits_portEnable dev _⟩

end

/-! ## At rest when the base registers are written -/

section
variable {hba : Hba} {port : AhciPort} {dev : Device machine} {h : Trace machine}

/-- The history when the last of the base registers is about to be written, the wait having ended
with poll `k`. -/
def basesAlmostSet (hba : Hba) (port : AhciPort) (dev : Device machine) (h : Trace machine)
    (k : ℕ) : Trace machine :=
  stopPolled hba port dev h (k + 1) ++ ofOuts (baseOuts hba port).dropLast

/-- From the stop on, ST is clear, and FRE as it was. -/
theorem enable_stopPolled (hdev : PortFollows hba port dev) (k : ℕ) :
    portCmd hba port dev (stopPolled hba port dev h k) &&& 0x0001 = 0 ∧
      (portCmd hba port dev (stopPolled hba port dev h k) &&& 0x0010 = 0 ↔
        portCmd hba port dev h &&& 0x0010 = 0) := by
  have hpolls (e : Exchange) (he : e ∈ (List.range k).map fun j ↦
      (Event.inp (F := machine) (.mmio (portAddr hba port 0x18))
        (answer dev (.mmio (portAddr hba port 0x18)) (stopIssued hba port dev h) j))) (v : UInt32) :
      cmdAfter hba port e v = v := by
    obtain ⟨j, -, rfl⟩ := List.mem_map.mp he
    rfl
  have hwritten (v : UInt32) : cmdAfter hba port
      (.out (.mmio (portAddr hba port 0x18) (portCmd hba port dev h &&& ~~~1))) v =
        portCmd hba port dev h &&& ~~~1 := if_pos rfl
  rw [stopPolled, polled_eq, hdev.cr.enable_append hpolls, hdev.fr.enable_append hpolls, stopIssued,
    hdev.cr.held, hdev.fr.held, hwritten, UInt32.and_assoc, UInt32.and_assoc]
  exact ⟨UInt32.and_zero, Iff.rfl⟩

theorem baseOuts_ne_nil (hba : Hba) (port : AhciPort) : baseOuts hba port ≠ [] := by
  rw [baseOuts]
  simp

/-- Some of the writes to the base registers leave PxCMD alone. -/
theorem cmdAfter_of_mem {os : List Out} (hos : ∀ o ∈ os, o ∈ baseOuts hba port) :
    ∀ e ∈ (ofOuts os : Trace machine), ∀ v, cmdAfter hba port e v = v := by
  intro e he
  obtain ⟨o, ho, rfl⟩ := List.mem_map.mp he
  exact cmdAfter_of_isBaseWrite (isBaseWrite_of_mem (hos o ho))

/-- A flag that is clear at the poll that ends the wait stays so while the base registers are
written. -/
theorem Follows.flag_clear_bases {flag enable : UInt32} (hdev : Follows hba port dev flag enable)
    {k : ℕ} {os : List Out} (hos : ∀ o ∈ os, o ∈ baseOuts hba port)
    (henable : portCmd hba port dev (stopPolled hba port dev h k) &&& enable = 0)
    (hflag : portCmd hba port dev (stopPolled hba port dev h k) &&& flag = 0) :
    portCmd hba port dev (stopPolled hba port dev h (k + 1) ++ ofOuts os) &&& flag = 0 := by
  have hpoll : stopPolled hba port dev h (k + 1) = stopPolled hba port dev h k ++
      [.inp (.mmio (portAddr hba port 0x18))
        (portCmd hba port dev (stopPolled hba port dev h k))] := rfl
  rw [hpoll, ← List.append_cons]
  refine hdev.flag_clear (fun e he ↦ ?_) henable hflag
  rcases List.mem_cons.mp he with rfl | he
  · exact fun v ↦ rfl
  · exact cmdAfter_of_mem hos e he

/-- A flag that has its enable bit stays set once it is, so if it is clear at the last of the
writes, it is clear at each of them. -/
theorem Follows.flag_clear_of_last {flag enable : UInt32} (hdev : Follows hba port dev flag enable)
    {pre post : List Out} {o : Out} (hpre : baseOuts hba port = pre ++ o :: post)
    (henable : portCmd hba port dev h &&& enable ≠ 0)
    (hlast : portCmd hba port dev (h ++ ofOuts (baseOuts hba port).dropLast) &&& flag = 0) :
    portCmd hba port dev (h ++ ofOuts pre) &&& flag = 0 := by
  have hmem : ∀ o' ∈ pre, o' ∈ baseOuts hba port := by
    intro o' ho'
    rw [hpre]
    exact List.mem_append_left _ ho'
  have hmem' : ∀ o' ∈ (o :: post).dropLast, o' ∈ baseOuts hba port := by
    intro o' ho'
    rw [hpre]
    exact List.mem_append_right _ (List.dropLast_subset _ ho')
  by_contra hset
  refine hdev.flag_set (cmdAfter_of_mem hmem') ?_ hset ?_
  · rwa [Ne, hdev.enable_append (cmdAfter_of_mem hmem)]
  · rwa [hpre, List.dropLast_append_of_ne_nil (List.cons_ne_nil o post), ofOuts, List.map_append,
      ← List.append_assoc] at hlast

/-- **The port stays at rest** while the base registers are written, unless FRE was left set and FR
comes up before the last of them. -/
theorem atRest_bases_iff (hdev : PortFollows hba port dev) {k : ℕ}
    (hrest : AtRest hba port dev (stopPolled hba port dev h k)) :
    (∀ pre o post, baseOuts hba port = pre ++ o :: post →
      AtRest hba port dev (stopPolled hba port dev h (k + 1) ++ ofOuts pre)) ↔
    portCmd hba port dev h &&& 0x0010 = 0 ∨
      portCmd hba port dev (basesAlmostSet hba port dev h k) &&& 0x4000 = 0 := by
  obtain ⟨hst, hfre⟩ := enable_stopPolled (h := h) hdev k
  obtain ⟨-, hfre'⟩ := enable_stopPolled (h := h) hdev (k + 1)
  constructor
  · intro hall
    refine Or.inr (hall _ ((baseOuts hba port).getLast (baseOuts_ne_nil hba port)) [] ?_).2
    exact (List.dropLast_append_getLast (baseOuts_ne_nil hba port)).symm
  · intro hcond pre o post hpre
    have hmem : ∀ o ∈ pre, o ∈ baseOuts hba port := by
      intro o' ho'
      rw [hpre]
      exact List.mem_append_left _ ho'
    refine ⟨hdev.cr.flag_clear_bases hmem hst hrest.1, ?_⟩
    by_cases hfree : portCmd hba port dev h &&& 0x0010 = 0
    · exact hdev.fr.flag_clear_bases hmem (hfre.mpr hfree) hrest.2
    · -- once FR is up it stays up, and it is not at the last write
      exact hdev.fr.flag_clear_of_last hpre (mt hfre'.mp hfree) (hcond.resolve_left hfree)

variable (hba port dev h) in
/-- Up to the end of the polls, nothing is written to a base register. -/
theorem stopPolled_eq (n : ℕ) :
    ∃ t, stopPolled hba port dev h n = h ++ t ∧ ∀ e ∈ t, ¬IsBaseWrite hba port e := by
  refine ⟨(portRead hba port 0x18).trace dev h ++
    (.out (.mmio (portAddr hba port 0x18) (portCmd hba port dev h &&& ~~~1)) ::
    (List.range n).map fun j ↦ .inp (.mmio (portAddr hba port 0x18))
      (answer dev (.mmio (portAddr hba port 0x18)) (stopIssued hba port dev h) j)), ?_, ?_⟩
  · rw [stopPolled, polled_eq]
    conv_lhs => rw [stopIssued]
    rw [List.append_assoc, List.append_assoc]
    rfl
  · intro e he
    rcases List.mem_append.mp he with he | he
    · obtain rfl := List.mem_singleton.mp he
      exact not_isBaseWrite_inp _ _
    · rcases List.mem_cons.mp he with rfl | he
      · exact not_isBaseWrite_cmd _
      · obtain ⟨j, -, rfl⟩ := List.mem_map.mp he
        exact not_isBaseWrite_inp _ _

/-- Where the base registers are written. -/
theorem safe_iff {P : Trace machine → Prop} {n : ℕ} {t rest : Trace machine}
    (ht : h ++ t = stopPolled hba port dev h n ++ ofOuts (baseOuts hba port) ++ rest)
    (hrest : ∀ e ∈ rest, ¬IsBaseWrite hba port e) :
    Along (fun h e ↦ IsBaseWrite hba port e → P h) h t ↔
      ∀ pre o post, baseOuts hba port = pre ++ o :: post →
        P (stopPolled hba port dev h n ++ ofOuts pre) := by
  obtain ⟨u, hu, hpolls⟩ := stopPolled_eq hba port dev h n
  rw [hu, List.append_assoc, List.append_assoc] at ht
  obtain rfl := List.append_cancel_left ht
  rw [along_append, along_append, along_ofOuts, hu]
  constructor
  · rintro ⟨-, hbases, -⟩ pre o post hpre
    refine hbases pre o post hpre (isBaseWrite_of_mem ?_)
    rw [hpre]
    exact List.mem_append_right _ List.mem_cons_self
  · intro hall
    exact ⟨along_of_forall fun e he _ hbase ↦ absurd hbase (hpolls e he),
      fun pre o post hpre _ ↦ hall pre o post hpre,
      along_of_forall fun e he _ hbase ↦ absurd hbase (hrest e he)⟩

/-- The base registers are written, whatever comes of the wait. -/
theorem exists_isBaseWrite {n : ℕ} {t rest : Trace machine}
    (ht : h ++ t = stopPolled hba port dev h n ++ ofOuts (baseOuts hba port) ++ rest) :
    ∃ e ∈ t, IsBaseWrite hba port e := by
  obtain ⟨u, hu, -⟩ := stopPolled_eq hba port dev h n
  rw [hu, List.append_assoc, List.append_assoc] at ht
  obtain rfl := List.append_cancel_left ht
  have ho := List.getLast_mem (baseOuts_ne_nil hba port)
  exact ⟨_, List.mem_append_right _ (List.mem_append_left _ (List.mem_map_of_mem ho)),
    isBaseWrite_of_mem ho⟩

/-- So it takes a poll that finds the port at rest. -/
theorem BasesGuarded.exists_atRest {r : ℤ}
    (hguarded : BasesGuarded hba port dev h r ((ahciPortStart hba port).trace dev h)) :
    ∃ k < 1000000, AtRest hba port dev (stopPolled hba port dev h k) := by
  by_contra hnone
  obtain ⟨n, rest, -, htrace, -⟩ := ahciPortStart_cases hba port dev h
  obtain ⟨e, he, hbase⟩ := exists_isBaseWrite htrace
  exact (hguarded.timeout fun k hk hrest ↦ hnone ⟨k, hk, hrest⟩).2 e he hbase

end

/-- **The base registers are guarded** exactly when one of the polls finds the port at rest, and
FRE was clear to begin with or FR is still not up when the last of them is written. -/
theorem bases_guarded_iff (hba : Hba) (port : AhciPort) (dev : Device machine)
    (hdev : PortFollows hba port dev) (h : Trace machine) :
    BasesGuarded hba port dev h ((ahciPortStart hba port).value dev h)
        ((ahciPortStart hba port).trace dev h) ↔
      ∃ k < 1000000, (AtRest hba port dev (stopPolled hba port dev h k) ∧
          ∀ j < k, ¬AtRest hba port dev (stopPolled hba port dev h j)) ∧
        (portCmd hba port dev h &&& 0x0010 = 0 ∨
          portCmd hba port dev (basesAlmostSet hba port dev h k) &&& 0x4000 = 0) := by
  obtain ⟨n, rest, hends, htrace, hrest⟩ := ahciPortStart_cases hba port dev h
  constructor
  · intro hguarded
    obtain ⟨k', hk', hrest'⟩ := hguarded.exists_atRest
    rcases hends with ⟨k, hk, rfl, hatRest, hbefore⟩ | hnone
    · exact ⟨k, hk, ⟨hatRest, hbefore⟩,
        (atRest_bases_iff hdev hatRest).mp ((safe_iff htrace hrest).mp hguarded.safe)⟩
    · exact absurd hrest' (hnone k' hk')
  · rintro ⟨k, hk, ⟨hatRest, hbefore⟩, hcond⟩
    rcases hends with ⟨k', hk', rfl, hatRest', hbefore'⟩ | hnone
    · obtain rfl := first_unique hatRest hbefore hatRest' hbefore'
      exact ⟨(safe_iff htrace hrest).mpr ((atRest_bases_iff hdev hatRest).mpr hcond),
        fun hnever ↦ absurd hatRest (hnever k hk)⟩
    · exact absurd hatRest (hnone k hk)

/-- PxCMD on a port where CR and FR follow at once. -/
def shownCmd (cmd : UInt32) : UInt32 :=
  (if cmd &&& 0x0001 = 0 then 0 else 0x8001) ||| (if cmd &&& 0x0010 = 0 then 0 else 0x4010)

theorem shownCmd_bits (cmd : UInt32) :
    (shownCmd cmd &&& 0x0001 = 0 ↔ cmd &&& 0x0001 = 0) ∧
      (shownCmd cmd &&& 0x8000 = 0 ↔ cmd &&& 0x0001 = 0) ∧
      (shownCmd cmd &&& 0x0010 = 0 ↔ cmd &&& 0x0010 = 0) ∧
      (shownCmd cmd &&& 0x4000 = 0 ↔ cmd &&& 0x0010 = 0) := by
  rw [shownCmd]
  by_cases hst : cmd &&& 0x0001 = 0 <;> by_cases hfre : cmd &&& 0x0010 = 0
  all_goals
    simp only [hst, hfre, if_true, if_false, iff_true, iff_false]
    decide

/-- A machine with such a port, which the firmware has left with `cmd` in PxCMD. -/
def promptMachine (hba : Hba) (port : AhciPort) (cmd : UInt32) : Device machine := fun h i ↦
  match i with
  | .mmio a =>
    if a = portAddr hba port 0x18 then
      shownCmd (h.foldl (fun cmd e ↦ cmdAfter hba port e cmd) cmd)
    else (0 : UInt32)
  | i => steadyMachine 0 0 0 h i

theorem portCmd_promptMachine (hba : Hba) (port : AhciPort) (cmd : UInt32) (h : Trace machine) :
    portCmd hba port (promptMachine hba port cmd) h =
      shownCmd (h.foldl (fun cmd e ↦ cmdAfter hba port e cmd) cmd) := if_pos rfl

theorem portFollows_promptMachine (hba : Hba) (port : AhciPort) (cmd : UInt32) :
    PortFollows hba port (promptMachine hba port cmd) := by
  have hheld (h : Trace machine) (e : Exchange) {bit : UInt32}
      (hbit : ∀ v, shownCmd v &&& bit = 0 ↔ v &&& bit = 0) :
      portCmd hba port (promptMachine hba port cmd) (h ++ [e]) &&& bit = 0 ↔
        cmdAfter hba port e (portCmd hba port (promptMachine hba port cmd) h) &&& bit = 0 := by
    rw [portCmd_promptMachine, portCmd_promptMachine, List.foldl_append, hbit]
    generalize h.foldl _ cmd = v
    change cmdAfter hba port e v &&& bit = 0 ↔ _
    rcases e with (_ | _ | _ | _ | _ | _ | _ | _) | _
    case out.mmio a w =>
      rw [cmdAfter, cmdAfter]
      split_ifs
      · rfl
      · exact (hbit v).symm
    all_goals exact (hbit v).symm
  refine ⟨⟨fun h e ↦ hheld h e fun v ↦ (shownCmd_bits v).1, fun h e ↦ Or.inr ?_⟩,
    ⟨fun h e ↦ hheld h e fun v ↦ (shownCmd_bits v).2.2.1, fun h e ↦ Or.inr ?_⟩⟩
  · rw [portCmd_promptMachine, (shownCmd_bits _).2.1, (shownCmd_bits _).1]
  · rw [portCmd_promptMachine, (shownCmd_bits _).2.2.2, (shownCmd_bits _).2.2.1]

/-- On a port that was never used, they are guarded. -/
theorem bases_guarded_unused :
    BasesGuarded AhciState.initial.hba firstPort
      (promptMachine AhciState.initial.hba firstPort 0) []
      ((ahciPortStart AhciState.initial.hba firstPort).value
        (promptMachine AhciState.initial.hba firstPort 0) [])
      ((ahciPortStart AhciState.initial.hba firstPort).trace
        (promptMachine AhciState.initial.hba firstPort 0) []) := by
  have hdev := portFollows_promptMachine AhciState.initial.hba firstPort 0
  have hfre : portCmd AhciState.initial.hba firstPort
      (promptMachine AhciState.initial.hba firstPort 0) [] &&& 0x0010 = 0 := by
    rw [portCmd_promptMachine]
    decide
  obtain ⟨hst, hfre'⟩ := enable_stopPolled (h := []) hdev 0
  refine (bases_guarded_iff _ _ _ hdev []).mpr ⟨0, by decide, ⟨⟨?_, ?_⟩,
    fun j hj ↦ absurd hj (Nat.not_lt_zero j)⟩, Or.inl hfre⟩
  · rw [portCmd_promptMachine, (shownCmd_bits _).1] at hst
    rwa [portCmd_promptMachine, (shownCmd_bits _).2.1]
  · rw [portCmd_promptMachine, (shownCmd_bits _).2.2.1] at hfre'
    rw [portCmd_promptMachine, (shownCmd_bits _).2.2.2]
    exact hfre'.mpr hfre

/-- On a port that the firmware has left with FIS receive enabled, they are not. -/
theorem bases_unguarded_after_firmware :
    PortFollows AhciState.initial.hba firstPort
        (promptMachine AhciState.initial.hba firstPort 0x10) ∧
      ¬BasesGuarded AhciState.initial.hba firstPort
        (promptMachine AhciState.initial.hba firstPort 0x10) []
        ((ahciPortStart AhciState.initial.hba firstPort).value
          (promptMachine AhciState.initial.hba firstPort 0x10) [])
        ((ahciPortStart AhciState.initial.hba firstPort).trace
          (promptMachine AhciState.initial.hba firstPort 0x10) []) := by
  have hdev := portFollows_promptMachine AhciState.initial.hba firstPort 0x10
  refine ⟨hdev, fun hguarded ↦ ?_⟩
  obtain ⟨k, -, -, hfr⟩ := hguarded.exists_atRest
  have hfre := (enable_stopPolled (h := []) hdev k).2
  rw [portCmd_promptMachine, (shownCmd_bits _).2.2.2] at hfr
  rw [portCmd_promptMachine, portCmd_promptMachine, (shownCmd_bits _).2.2.1] at hfre
  exact absurd (hfre.mp hfr) (by decide)

end Aetherion.Ahci
