import Aetherion.Keyboard.Init
import Aetherion.Shell.Prompt

/-!
# The whole of `kernel_main`

From the cleared screen to the loop of the shell: the banner, the keyboard, the PCI bus, the disks,
and the two listings.  What comes out is the `System` that the commands of the shell work on, and
the history of the machine goes on from there.

Two things need not come to an end.  The keyboard may keep the kernel waiting, and the scan of the
buses may find a bridge that leads to itself; so every wait is given a number of tries here, and the
scan a depth, and what is shown holds for all of them.

The rest of this file is the rule by which a fact about all exchanges of the kernel is shown
(`kernelTrace_keeps`): part by part up to the loop, and from there on one command at a time.
-/

set_option autoImplicit false

namespace Aetherion.Shell

open Driver Driver.Prog Storage

/-! ## The kernel -/

/-- `kernel_main` up to its first prompt, with every wait for the keyboard given `n` tries, and
`identify` where `ahci_detect_ports` keeps its buffer of that name. -/
def kernelBoot (n depth : ℕ) (identify : UInt64) : OptionT Kernel System := do
  vgaSetColor .lightCyan .black
  vgaWrite "=====================================\n"
  vgaWrite "   AETHERION OS - Kernel v0.3\n"
  vgaWrite "=====================================\n\n"
  vgaSetColor .white .black
  vgaWrite "Kernel initialise avec succes.\n"
  vgaWrite "Bienvenue dans Aetherion OS !\n\n"
  Keyboard.keyboardInit n
  let pci ← OptionT.mk (Pci.pciInit depth)
  let disks ← findDisks identify
  diskList disks.registry
  OptionT.mk (Pci.pciListDevices pci)
  vgaSetColor .lightGreen .black
  vgaWrite "Systeme pret. Tapez 'help' pour les commandes.\n"
  vgaSetColor .white .black
  pure ⟨disks.ahci.hba, disks.registry, pci⟩

/-- A machine that the kernel is started on. -/
structure Boot where
  /-- The machine. -/
  dev : Device machine
  /-- How many tries each wait for the keyboard is given. -/
  tries : ℕ
  /-- How deep the scan of the buses may go. -/
  depth : ℕ
  /-- Where `ahci_detect_ports` keeps what a drive answers to IDENTIFY. -/
  identify : UInt64
  /-- The terminal before `vga_init`. -/
  term : Vga.Term
  /-- What is in `cmd_buf` before the first key. -/
  cmdBuf : ℕ → UInt8

/-- What the kernel finds, if it gets that far. -/
def Boot.system (b : Boot) : Option System :=
  (kernelBoot b.tries b.depth b.identify).run.value b.dev []

/-- What it exchanges with the machine until then. -/
def Boot.trace (b : Boot) : Trace machine :=
  (kernelBoot b.tries b.depth b.identify).run.trace b.dev []

/-- The terminal at the first prompt. -/
def Boot.screen (b : Boot) : Vga.Term := Shell.screen.after (Vga.vgaInit b.term) b.trace

/-- `kernel_main`, given some keys, if it comes to its loop. -/
def kernelMain (b : Boot) (keys : List UInt8) : Option Running :=
  b.system.map fun sys ↦ session sys b.dev b.trace b.screen b.cmdBuf keys

/-- All that the kernel exchanges with the machine, whether it comes to its loop or not. -/
def kernelTrace (b : Boot) (keys : List UInt8) : Trace machine :=
  (kernelMain b keys).elim b.trace Running.history

/-! ## What all exchanges keep -/

section
variable {P : Exchange → Prop}

theorem emits_mk {α : Type} {p : Kernel (Option α)} (hp : Emits P p) :
    Emits P (OptionT.mk p).run := hp

theorem emits_lift {α : Type} {p : Kernel α} (hp : Emits P p) :
    Emits P (OptionT.lift p : OptionT Kernel α).run := hp.bind fun _ ↦ emits_pure _

/-- A sequence that may break off. -/
theorem emits_bindO {α β : Type} {p : OptionT Kernel α} {f : α → OptionT Kernel β}
    (hp : Emits P p.run) (hf : ∀ a, Emits P (f a).run) : Emits P (p >>= f).run := by
  rw [OptionT.run_bind]
  refine hp.bind fun o ↦ ?_
  cases o with
  | none => exact emits_pure _
  | some a => exact hf a

/-- The same for what is known of its value, if it does not break off. -/
theorem returns_bindO {α β : Type} {dev : Device machine} {p : OptionT Kernel α}
    {f : α → OptionT Kernel β} {Q : α → Prop} {R : β → Prop}
    (hp : Returns dev (fun o ↦ ∀ a ∈ o, Q a) p.run)
    (hf : ∀ a, Q a → Returns dev (fun o ↦ ∀ b ∈ o, R b) (f a).run) :
    Returns dev (fun o ↦ ∀ b ∈ o, R b) (p >>= f).run := by
  rw [OptionT.run_bind]
  refine hp.bind fun o ho ↦ ?_
  cases o with
  | none => exact returns_pure fun _ hmem ↦ absurd hmem (Option.not_mem_none _)
  | some a => exact hf a (ho a rfl)

theorem returns_thenO {α β : Type} {dev : Device machine} {p : OptionT Kernel α}
    {f : α → OptionT Kernel β} {R : β → Prop}
    (hf : ∀ a, Returns dev (fun o ↦ ∀ b ∈ o, R b) (f a).run) :
    Returns dev (fun o ↦ ∀ b ∈ o, R b) (p >>= f).run :=
  returns_bindO (Q := fun _ ↦ True) (fun _ _ _ ↦ trivial) fun a _ ↦ hf a

/-- **The disks that the kernel has** are those that detection has found, and so are the ports of
the controller. -/
theorem disks_system {b : Boot} {P : Registry → Ahci.Hba → Prop}
    (hP : Returns b.dev (fun disks ↦ P disks.registry disks.ahci.hba) (findDisks b.identify))
    {sys : System} (hsys : b.system = some sys) : P sys.disks sys.hba := by
  have hreturns : Returns b.dev (fun o ↦ ∀ sys ∈ o, P sys.disks sys.hba)
      (kernelBoot b.tries b.depth b.identify).run := by
    refine returns_thenO fun _ ↦ returns_thenO fun _ ↦ returns_thenO fun _ ↦ returns_thenO fun _ ↦
      returns_thenO fun _ ↦ returns_thenO fun _ ↦ returns_thenO fun _ ↦ returns_thenO fun _ ↦
      returns_thenO fun pci ↦ ?_
    refine returns_bindO (Q := fun disks ↦ P disks.registry disks.ahci.hba) ?_ fun disks hdisks ↦ ?_
    · refine hP.bind fun disks hdisks ↦ returns_pure ?_
      rintro _ ⟨⟩
      exact hdisks
    · refine returns_thenO fun _ ↦ returns_thenO fun _ ↦ returns_thenO fun _ ↦
        returns_thenO fun _ ↦ returns_thenO fun _ ↦ returns_pure ?_
      rintro _ ⟨⟩
      exact hdisks
  exact hreturns [] sys hsys

/-- They were set up by the drivers. -/
theorem detected_system {b : Boot} {sys : System} (hsys : b.system = some sys) :
    sys.disks.All Detected :=
  disks_system (P := fun g _ ↦ g.All Detected) (allDetected_findDisks b.identify) hsys

/-- **A session keeps what its commands keep.** -/
theorem session_keeps {I : Trace machine → Prop} {sys : System} {dev : Device machine}
    {h : Trace machine} {t : Vga.Term} {buf : ℕ → UInt8} (hh : I h)
    (hcommand : ∀ h line t, I h → I (h ++ (runCommand sys dev h line t).trace))
    (keys : List UInt8) : I (session sys dev h t buf keys).history := by
  induction keys using List.reverseRecOn with
  | nil => exact hh
  | append_singleton keys c ih =>
    rw [session_concat, Running.key]
    split
    · exact ih
    split
    · rw [Running.enter]
      simp only
      split
      · split
        · exact hcommand _ _ _ ih
        · exact hcommand _ _ _ ih
      · exact ih
    · exact ih

/-- **The kernel keeps what its commands keep.** -/
theorem kernelTrace_keeps {I : Trace machine → Prop} {b : Boot} (hboot : I b.trace)
    (hcommand : ∀ sys, b.system = some sys → ∀ h line t, I h →
      I (h ++ (runCommand sys b.dev h line t).trace)) (keys : List UInt8) :
    I (kernelTrace b keys) := by
  rw [kernelTrace, kernelMain]
  cases hsys : b.system with
  | none => exact hboot
  | some sys => exact session_keeps hboot (hcommand sys hsys) keys

end

end Aetherion.Shell
