import Aetherion.Base.Approx
import Aetherion.Shell.ComesUp

/-!
# The bounds do not matter

Where the kernel need not come to an end, the model gives it a bound: a number of tries to every
wait for the keyboard, and a depth to the scan of the buses.  With larger bounds the kernel does the
same (`approx_kernelBoot`).  So there is one thing that it does for the keys that are typed,
whatever the bounds with which it comes to its prompt (`one_outcome`).
-/

set_option autoImplicit false

namespace Aetherion.Shell

open Driver Driver.Prog Storage Pci Keyboard

section
variable {n m : ℕ}

/-! ## The keyboard -/

theorem approx_ps2WaitInput (hle : n ≤ m) :
    Approx (· = none) (ps2WaitInput n).run (ps2WaitInput m).run :=
  approx_run_of_le (p := ps2WaitInput) rfl (fun _ _ ih ↦
    approx_run_bind (approx_refl _ _) fun _ ↦ approx_run_ite ih (approx_refl _ _)) hle

theorem approx_ps2WaitOutput (hle : n ≤ m) :
    Approx (· = none) (ps2WaitOutput n).run (ps2WaitOutput m).run :=
  approx_run_of_le (p := ps2WaitOutput) rfl (fun _ _ ih ↦
    approx_run_bind (approx_refl _ _) fun _ ↦ approx_run_ite ih (approx_refl _ _)) hle

theorem approx_ps2Drain (hle : n ≤ m) :
    Approx (· = none) (ps2Drain n).run (ps2Drain m).run :=
  approx_run_of_le (p := ps2Drain) rfl (fun _ _ ih ↦
    approx_run_bind (approx_refl _ _) fun _ ↦
      approx_run_ite (approx_run_bind (approx_refl _ _) fun _ ↦ ih) (approx_refl _ _)) hle

theorem approx_keyboardInit (hle : n ≤ m) :
    Approx (· = none) (keyboardInit n).run (keyboardInit m).run := by
  have hcmd (v : UInt8) : Approx (· = none) (ps2SendCmd n v).run (ps2SendCmd m v).run :=
    approx_run_bind (approx_ps2WaitInput hle) fun _ ↦ approx_refl _ _
  have hdata (v : UInt8) : Approx (· = none) (ps2SendData n v).run (ps2SendData m v).run :=
    approx_run_bind (approx_ps2WaitInput hle) fun _ ↦ approx_refl _ _
  have hread : Approx (· = none) (ps2ReadData n).run (ps2ReadData m).run :=
    approx_run_bind (approx_ps2WaitOutput hle) fun _ ↦ approx_refl _ _
  refine approx_run_bind (hcmd _) fun _ ↦ approx_run_bind (hcmd _) fun _ ↦
    approx_run_bind (approx_ps2Drain hle) fun _ ↦ approx_run_bind (hcmd _) fun _ ↦
    approx_run_bind hread fun _ ↦ approx_run_bind (hcmd _) fun _ ↦
    approx_run_bind (hdata _) fun _ ↦ approx_run_bind (hcmd _) fun _ ↦
    approx_run_bind hread fun _ ↦ approx_run_ite (approx_refl _ _) ?_
  refine approx_run_bind (hcmd _) fun _ ↦ approx_run_bind hread fun _ ↦
    approx_run_ite (approx_refl _ _) ?_
  refine approx_run_bind (hcmd _) fun _ ↦ approx_run_bind (hdata _) fun _ ↦
    approx_run_bind hread fun _ ↦ approx_run_bind hread fun _ ↦
    approx_run_ite (approx_refl _ _) ?_
  exact approx_run_bind (hdata _) fun _ ↦ approx_run_bind hread fun _ ↦
    approx_run_bind (hdata _) fun _ ↦ approx_run_bind hread fun _ ↦
    approx_run_bind (hcmd _) fun _ ↦ approx_run_bind (hdata _) fun _ ↦ approx_refl _ _

/-! ## The buses -/

theorem approx_pciScanFunction {scan scan' : UInt8 → PciTable → Kernel (Option (ℤ × PciTable))}
    (hscan : ∀ bus t, Approx (· = none) (scan bus t) (scan' bus t)) (bus device function : UInt8)
    (s : ℤ × PciTable) :
    Approx (Exits (· = Leave.tooDeep) fun _ ↦ False) (pciScanFunction scan bus device function s)
      (pciScanFunction scan' bus device function s) := by
  have hbridge (d : PciDevice) (t : PciTable) :
      Approx (· = none) (pciScanBridge scan d t) (pciScanBridge scan' d t) := by
    refine .ite (approx_then fun _ ↦ approx_then fun secondaryBus ↦ approx_then fun _ ↦
      (hscan secondaryBus t).bind (fun r hr dev ↦ ?_) fun r ↦ approx_refl _ _) (approx_refl _ _)
    rw [hr]
    exact returns_pure rfl
  refine approx_then fun found ↦ .ite (approx_refl _ _) ?_
  split
  · refine approx_then fun d ↦ approx_then fun _ ↦
      (hbridge d _).bind (fun r hr dev ↦ ?_) fun r ↦ approx_refl _ _
    rw [hr]
    exact returns_pure rfl
  · exact approx_refl _ _

theorem approx_pciScanDevice {scan scan' : UInt8 → PciTable → Kernel (Option (ℤ × PciTable))}
    (hscan : ∀ bus t, Approx (· = none) (scan bus t) (scan' bus t)) (bus device : UInt8)
    (s : ℤ × PciTable) :
    Approx (Exits (· = none) fun _ ↦ False) (pciScanDevice scan bus device s)
      (pciScanDevice scan' bus device s) := by
  refine (approx_forLoop (fun function s ↦ approx_pciScanFunction hscan bus device _ s) 8 0 s).bind
    (fun r hr dev ↦ ?_) fun r ↦ approx_refl _ _
  cases r with
  | error e =>
    obtain rfl : e = .tooDeep := hr
    exact returns_pure rfl
  | ok s => exact False.elim hr

theorem approx_pciScanBus (hle : n ≤ m) (bus : UInt8) (t : PciTable) :
    Approx (· = none) (pciScanBus n bus t) (pciScanBus m bus t) := by
  refine approx_of_le (U := (· = none)) (p := fun n (i : UInt8 × PciTable) ↦ pciScanBus n i.1 i.2)
    (fun _ _ ↦ returns_pure rfl) (fun n m ih i ↦ ?_) hle (bus, t)
  refine (approx_forLoop (fun device s ↦ approx_pciScanDevice (fun bus t ↦ ih (bus, t)) i.1 _ s)
    32 0 (0, i.2)).bind (fun r hr dev ↦ ?_) fun r ↦ approx_refl _ _
  cases r with
  | error e => exact returns_pure hr
  | ok s => exact False.elim hr

theorem approx_pciInit (hle : n ≤ m) : Approx (· = none) (pciInit n) (pciInit m) := by
  refine approx_then fun _ ↦ approx_then fun _ ↦ approx_then fun _ ↦
    (approx_pciScanBus hle 0 .empty).bind (fun r hr dev ↦ ?_) fun r ↦ approx_refl _ _
  rw [hr]
  exact returns_pure rfl

/-! ## The kernel -/

/-- **With larger bounds the kernel does the same**, or it has not come up with the smaller ones. -/
theorem approx_kernelBoot {n' m' : ℕ} (hle : n ≤ m) (hle' : n' ≤ m') (identify : UInt64) :
    Approx (· = none) (kernelBoot n n' identify).run (kernelBoot m m' identify).run := by
  have hsame {α : Type} (p : OptionT Kernel α) : Approx (· = none) p.run p.run := approx_refl _ _
  exact approx_run_bind (hsame _) fun _ ↦ approx_run_bind (hsame _) fun _ ↦
    approx_run_bind (hsame _) fun _ ↦ approx_run_bind (hsame _) fun _ ↦
    approx_run_bind (hsame _) fun _ ↦ approx_run_bind (hsame _) fun _ ↦
    approx_run_bind (hsame _) fun _ ↦ approx_run_bind (approx_keyboardInit hle) fun _ ↦
    approx_run_bind (approx_pciInit hle') fun _ ↦ hsame _

end

theorem kernelMain_of_le (b : Boot) {tries depth : ℕ} (htries : b.tries ≤ tries)
    (hdepth : b.depth ≤ depth) (hup : b.system.isSome) (keys : List UInt8) :
    kernelMain { b with tries, depth } keys = kernelMain b keys := by
  have hnone : ¬b.system = none := Option.isSome_iff_ne_none.mp hup
  obtain ⟨hsystem, htrace⟩ :=
    (approx_kernelBoot htries hdepth b.identify b.dev []).resolve_left hnone
  change Option.map _ ((kernelBoot tries depth b.identify).run.value b.dev []) = _
  rw [← hsystem, Boot.trace, Boot.screen, Boot.trace]
  simp only
  rw [← htrace]
  rfl

/-- **There is one outcome** for all keys: every large enough bound leads to it, and no bound leads
to another. -/
theorem one_outcome (b : Boot) (hup : b.ComesUp) : ∃ outcome : List UInt8 → Running,
    (∃ n, ∀ tries depth, n ≤ tries → n ≤ depth →
      ∀ keys, kernelMain { b with tries, depth } keys = some (outcome keys)) ∧
    ∀ tries depth keys r, kernelMain { b with tries, depth } keys = some r → r = outcome keys := by
  obtain ⟨tries₀, depth₀, hup₀⟩ := hup
  let b₀ : Boot := { b with tries := tries₀, depth := depth₀ }
  obtain ⟨sys, hsys⟩ := Option.isSome_iff_exists.mp hup₀
  let outcome := session sys b.dev b₀.trace b₀.screen b.cmdBuf
  have hrun (keys : List UInt8) : kernelMain b₀ keys = some (outcome keys) := by
    rw [kernelMain, show b₀.system = some sys from hsys]
    rfl
  refine ⟨outcome, ⟨max tries₀ depth₀, fun tries depth htries hdepth keys ↦ ?_⟩, ?_⟩
  · rw [← hrun keys]
    exact kernelMain_of_le b₀ ((le_max_left _ _).trans htries) ((le_max_right _ _).trans hdepth)
      hup₀ keys
  · -- both come to what the larger of the bounds come to
    intro tries depth keys r hr
    let b₁ : Boot := { b with tries, depth }
    have hup₁ : b₁.system.isSome := by
      obtain ⟨sys₁, hsys₁, -⟩ := Option.map_eq_some_iff.mp hr
      exact Option.isSome_of_eq_some hsys₁
    have h₀ := kernelMain_of_le b₀ (le_max_left tries₀ tries) (le_max_left depth₀ depth) hup₀ keys
    have h₁ := kernelMain_of_le b₁ (le_max_right tries₀ tries) (le_max_right depth₀ depth) hup₁ keys
    exact Option.some.inj (hr.symm.trans (h₁.symm.trans (h₀.trans (hrun keys))))

/-- The line `help`. -/
def helpLine : List UInt8 := [104, 101, 108, 112, 10]

/-- On a machine with a function behind a bridge, where the line is typed. -/
theorem one_outcome_ready : ∃ outcome : List UInt8 → Running,
    ∃ n, ∀ tries depth, n ≤ tries → n ≤ depth →
      kernelMain { readyBoot with tries, depth } helpLine = some (outcome helpLine) := by
  obtain ⟨outcome, ⟨n, hn⟩, -⟩ := one_outcome readyBoot <|
    comesUp_of_grounded readyBoot serves_readyBoot readyBoot_keyboard
      (grounded_oneBridge true) (room_oneBridge true)
  exact ⟨outcome, n, fun tries depth htries hdepth ↦ hn tries depth htries hdepth helpLine⟩

end Aetherion.Shell
