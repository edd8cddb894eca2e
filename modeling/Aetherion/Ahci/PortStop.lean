import Aetherion.Ahci.PortStart

/-!
# Stopping a port

`ahci_port_stop` clears both enable bits, and its caller is told whether CR and FR have followed.
Nobody calls it.  If `ahci_init` did, `ahci_port_start` would be safe: a port that has been stopped
stays so until somebody writes PxCMD again, and started from there its base registers are guarded
whatever the delays (`start_after_stop_guarded`).
-/

set_option autoImplicit false

namespace Aetherion.Ahci

open Driver Driver.Prog

/-- `ahci_port_stop`. -/
def ahciPortStop (hba : Hba) (port : AhciPort) : Kernel ℤ := do
  let cmd ← portRead hba port 0x18
  portWrite hba port 0x18 (cmd &&& ~~~(1 ||| 0x10))
  ahciWaitBit (portAddr hba port 0x18) cmdRunning false 1000000

/-- The enable bits are clear, and so is what follows them. -/
structure Stopped (hba : Hba) (port : AhciPort) (dev : Device machine) (h : Trace machine) :
    Prop where
  st : portCmd hba port dev h &&& 0x0001 = 0
  fre : portCmd hba port dev h &&& 0x0010 = 0
  atRest : AtRest hba port dev h

section
variable {hba : Hba} {port : AhciPort} {dev : Device machine} {h : Trace machine}

/-- **A port that has been stopped stays so** as long as nobody writes PxCMD. -/
theorem Stopped.append (hdev : PortFollows hba port dev) (hs : Stopped hba port dev h)
    {t : Trace machine} (ht : ∀ e ∈ t, ∀ v, cmdAfter hba port e v = v) :
    Stopped hba port dev (h ++ t) where
  st := (hdev.cr.enable_append ht).mpr hs.st
  fre := (hdev.fr.enable_append ht).mpr hs.fre
  atRest := ⟨hdev.cr.flag_clear ht hs.st hs.atRest.1, hdev.fr.flag_clear ht hs.fre hs.atRest.2⟩

theorem cmdAfter_cmd (v w : UInt32) :
    cmdAfter hba port (.out (.mmio (portAddr hba port 0x18) v)) w = v := if_pos rfl

/-- A flag stays clear when its enable bit is written as clear. -/
theorem Follows.flag_clear_write {flag enable v : UInt32} (hdev : Follows hba port dev flag enable)
    (hv : v &&& enable = 0) (hflag : portCmd hba port dev h &&& flag = 0) :
    portCmd hba port dev (h ++ [.out (.mmio (portAddr hba port 0x18) v)]) &&& flag = 0 := by
  have henable : portCmd hba port dev (h ++ [.out (.mmio (portAddr hba port 0x18) v)]) &&&
      enable = 0 := by rwa [hdev.held, cmdAfter_cmd]
  rcases hdev.follows h (.out (.mmio (portAddr hba port 0x18) v)) with hstays | hfollows
  · exact hstays.mpr hflag
  · exact hfollows.mpr henable

/-- Nor does a write to PxCMD change that which leaves the enable bits clear. -/
theorem Stopped.write (hdev : PortFollows hba port dev) (hs : Stopped hba port dev h) {v : UInt32}
    (hst : v &&& 0x0001 = 0) (hfre : v &&& 0x0010 = 0) :
    Stopped hba port dev (h ++ [.out (.mmio (portAddr hba port 0x18) v)]) where
  st := by rwa [hdev.cr.held, cmdAfter_cmd]
  fre := by rwa [hdev.fr.held, cmdAfter_cmd]
  atRest := ⟨hdev.cr.flag_clear_write hst hs.atRest.1, hdev.fr.flag_clear_write hfre hs.atRest.2⟩

/-- The history when both enable bits have been cleared. -/
def bothCleared (hba : Hba) (port : AhciPort) (dev : Device machine) (h : Trace machine) :
    Trace machine :=
  h ++ (portRead hba port 0x18).trace dev h ++
    [.out (.mmio (portAddr hba port 0x18) (portCmd hba port dev h &&& ~~~(1 ||| 0x10)))]

/-- The polls of the wait leave PxCMD alone. -/
theorem cmdAfter_polls {k : ℕ} {e : Exchange} (he : e ∈ (List.range k).map fun j ↦
      (Event.inp (F := machine) (.mmio (portAddr hba port 0x18))
        (answer dev (.mmio (portAddr hba port 0x18)) h j))) (v : UInt32) :
    cmdAfter hba port e v = v := by
  obtain ⟨j, -, rfl⟩ := List.mem_map.mp he
  rfl

/-- After `k` polls from there. -/
def stopWaited (hba : Hba) (port : AhciPort) (dev : Device machine) (h : Trace machine) (k : ℕ) :
    Trace machine :=
  polled dev (.mmio (portAddr hba port 0x18)) (bothCleared hba port dev h) k

theorem eq_zero_of_bitTest {mask v : UInt32} {expected : Bool} {r : ℤ}
    (h : bitTest mask expected v = some r) : r = 0 :=
  (Option.some_inj.mp (Option.ite_none_right_eq_some.mp h).2).symm

/-- **How a port is stopped**: a poll finds it at rest, or none does. -/
theorem ahciPortStop_cases (hba : Hba) (port : AhciPort) (dev : Device machine)
    (h : Trace machine) :
    (∃ k < 1000000, AtRest hba port dev (stopWaited hba port dev h k) ∧
      (ahciPortStop hba port).value dev h = 0 ∧
      h ++ (ahciPortStop hba port).trace dev h = stopWaited hba port dev h (k + 1)) ∨
    (∀ k < 1000000, ¬AtRest hba port dev (stopWaited hba port dev h k)) ∧
      (ahciPortStop hba port).value dev h = -1 := by
  have htest (j : ℕ) : bitTest cmdRunning false
      (answer dev (.mmio (portAddr hba port 0x18)) (bothCleared hba port dev h) j) = none ↔
      ¬AtRest hba port dev (stopWaited hba port dev h j) := bitTest_eq_none_iff _
  have hends := wait_spec dev (.mmio (portAddr hba port 0x18)) (bothCleared hba port dev h)
    (bitTest cmdRunning false) 1000000 (-1)
  have htrace : h ++ (ahciPortStop hba port).trace dev h =
      bothCleared hba port dev h ++ (wait (F := machine) (.mmio (portAddr hba port 0x18))
        (bitTest cmdRunning false) 1000000 (-1)).trace dev (bothCleared hba port dev h) := by
    simp only [ahciPortStop, trace_bind, ahciWaitBit_eq, bothCleared]
    simp only [List.append_assoc]
    rfl
  have hvalue : (ahciPortStop hba port).value dev h = (wait (F := machine)
      (.mmio (portAddr hba port 0x18)) (bitTest cmdRunning false) 1000000 (-1)).value dev
        (bothCleared hba port dev h) := by
    simp only [ahciPortStop, value_bind, ahciWaitBit_eq, bothCleared]
    rfl
  rw [htrace, hvalue]
  generalize bothCleared hba port dev h ++ (wait (F := machine) (.mmio (portAddr hba port 0x18))
    (bitTest cmdRunning false) 1000000 (-1)).trace dev (bothCleared hba port dev h) = t at hends ⊢
  generalize (wait (F := machine) (.mmio (portAddr hba port 0x18)) (bitTest cmdRunning false)
    1000000 (-1)).value dev (bothCleared hba port dev h) = r at hends ⊢
  cases hends with
  | passed k r hk hbefore hfirst =>
    have hrest : AtRest hba port dev (stopWaited hba port dev h k) := by
      by_contra hnot
      rw [(htest k).mpr hnot] at hfirst
      exact Option.some_ne_none r hfirst.symm
    exact .inl ⟨k, hk, hrest, eq_zero_of_bitTest hfirst, rfl⟩
  | timeout hnone => exact .inr ⟨fun k hk ↦ (htest k).mp (hnone k hk), rfl⟩

/-- From the write on, the enable bits are clear. -/
theorem enable_stopWaited (hdev : PortFollows hba port dev) (k : ℕ) :
    portCmd hba port dev (stopWaited hba port dev h k) &&& 0x0001 = 0 ∧
      portCmd hba port dev (stopWaited hba port dev h k) &&& 0x0010 = 0 := by
  rw [stopWaited, polled_eq, hdev.cr.enable_append fun e he ↦ cmdAfter_polls he,
    hdev.fr.enable_append fun e he ↦ cmdAfter_polls he, bothCleared, hdev.cr.held, hdev.fr.held,
    cmdAfter_cmd, UInt32.and_assoc, UInt32.and_assoc]
  exact ⟨UInt32.and_zero, UInt32.and_zero⟩

/-- **What the result `0` means.** -/
theorem stopped_ahciPortStop (hdev : PortFollows hba port dev)
    (hstop : (ahciPortStop hba port).value dev h = 0) :
    Stopped hba port dev (h ++ (ahciPortStop hba port).trace dev h) := by
  rcases ahciPortStop_cases hba port dev h with ⟨k, -, hrest, -, htrace⟩ | ⟨-, hvalue⟩
  · obtain ⟨hst, hfre⟩ := enable_stopWaited (h := h) hdev k
    have hstopped : Stopped hba port dev (stopWaited hba port dev h k) := ⟨hst, hfre, hrest⟩
    rw [htrace]
    exact hstopped.append hdev fun e he v ↦ by
      obtain rfl := List.mem_singleton.mp he
      rfl
  · rw [hvalue] at hstop
    exact absurd hstop (by decide)

/-- The base registers are written when the port is stopped. -/
def WrittenStopped (hba : Hba) (port : AhciPort) (dev : Device machine) (h : Trace machine)
    (t : Trace machine) : Prop :=
  Along (fun h e ↦ IsBaseWrite hba port e → Stopped hba port dev h) h t

/-- A port that is stopped when ST is cleared once more stays so until all its base registers are
written. -/
theorem Stopped.bases (hdev : PortFollows hba port dev)
    (hissued : Stopped hba port dev (stopPolled hba port dev h 0)) {pre post : List Out} {o : Out}
    (hpre : baseOuts hba port = pre ++ o :: post) :
    Stopped hba port dev (stopPolled hba port dev h 1 ++ ofOuts pre) := by
  have hpoll : stopPolled hba port dev h 1 = stopPolled hba port dev h 0 ++
      [.inp (.mmio (portAddr hba port 0x18))
        (portCmd hba port dev (stopPolled hba port dev h 0))] := rfl
  rw [hpoll, ← List.append_cons]
  refine hissued.append hdev fun e he ↦ ?_
  rcases List.mem_cons.mp he with rfl | he
  · exact fun v ↦ rfl
  · refine cmdAfter_of_mem (fun o' ho' ↦ ?_) e he
    rw [hpre]
    exact List.mem_append_left _ ho'

/-- **A port that is started after it has been stopped has its base registers guarded**, after any
delays, and whatever has been done in between but to write PxCMD; and when they are written, ST and
FRE are clear as well. -/
theorem start_after_stop_guarded (hba : Hba) (port : AhciPort) (dev : Device machine)
    (hdev : PortFollows hba port dev) (h t : Trace machine)
    (ht : ∀ e ∈ t, ∀ v, cmdAfter hba port e v = v)
    (hstop : (ahciPortStop hba port).value dev h = 0) :
    let h' := h ++ (ahciPortStop hba port).trace dev h ++ t
    BasesGuarded hba port dev h' ((ahciPortStart hba port).value dev h')
        ((ahciPortStart hba port).trace dev h') ∧
      WrittenStopped hba port dev h' ((ahciPortStart hba port).trace dev h') := by
  intro h'
  have hstopped : Stopped hba port dev h' := (stopped_ahciPortStop hdev hstop).append hdev ht
  have hissued : Stopped hba port dev (stopPolled hba port dev h' 0) := by
    refine Stopped.write hdev (hstopped.append hdev fun e he v ↦ ?_) ?_ ?_
    · obtain rfl := List.mem_singleton.mp he
      rfl
    · rw [UInt32.and_assoc]
      exact UInt32.and_zero
    · rw [UInt32.and_assoc]
      exact hstopped.fre
  obtain ⟨n, rest, hends, htrace, hrest⟩ := ahciPortStart_cases hba port dev h'
  rcases hends with ⟨k, -, rfl, hatRest, hbefore⟩ | hnone
  · -- the first poll is enough
    obtain rfl := first_unique hatRest hbefore hissued.atRest fun j hj ↦
      absurd hj (Nat.not_lt_zero j)
    refine ⟨⟨(safe_iff htrace hrest).mpr ((atRest_bases_iff hdev hatRest).mpr (.inl hstopped.fre)),
      fun hnever ↦ absurd hatRest (hnever 0 (by decide))⟩, ?_⟩
    exact (safe_iff htrace hrest).mpr fun pre o post hpre ↦ hissued.bases hdev hpre
  · exact absurd hissued.atRest (hnone 0 (by decide))

/-- The port that the firmware has left with FIS receive enabled, for which a start alone is not
safe. -/
theorem start_after_stop_guarded_firmware :
    let hba := AhciState.initial.hba
    let dev := promptMachine hba firstPort 0x10
    let h' := (ahciPortStop hba firstPort).trace dev []
    BasesGuarded hba firstPort dev h' ((ahciPortStart hba firstPort).value dev h')
        ((ahciPortStart hba firstPort).trace dev h') ∧
      WrittenStopped hba firstPort dev h' ((ahciPortStart hba firstPort).trace dev h') := by
  intro hba dev h'
  have hdev := portFollows_promptMachine hba firstPort 0x10
  have hguarded := start_after_stop_guarded hba firstPort dev hdev [] [] (by simp) ?_
  · rwa [List.nil_append, List.append_nil] at hguarded
  -- CR and FR follow at once
  obtain ⟨hst, hfre⟩ := enable_stopWaited (h := []) hdev 0
  rw [portCmd_promptMachine, (shownCmd_bits _).1] at hst
  rw [portCmd_promptMachine, (shownCmd_bits _).2.2.1] at hfre
  rcases ahciPortStop_cases hba firstPort dev [] with ⟨-, -, -, hvalue, -⟩ | ⟨hnone, -⟩
  · exact hvalue
  · refine absurd ⟨?_, ?_⟩ (hnone 0 (by decide))
    · rw [portCmd_promptMachine]
      exact (shownCmd_bits _).2.1.mpr hst
    · rw [portCmd_promptMachine]
      exact (shownCmd_bits _).2.2.2.mpr hfre

end

end Aetherion.Ahci
