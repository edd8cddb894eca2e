import Aetherion.Pci.Search
import Aetherion.Shell.MainLoop
import Aetherion.Shell.ReadCommand

/-!
# What the commands print

The branches of the dispatcher of `kernel_main`, each with what it does to the screen.  A command
that talks to the machine is a program, and the screen is read off its trace.

A branch is done with the screen when it has ended its last line.  All of them do that but one: the
text of the branch for an unknown command goes through the buffer of `vga_printf`, and of a line
of 236 characters or more the newline behind it no longer fits (`runCommand_col`).
-/

set_option autoImplicit false

namespace Aetherion.Shell

open Driver Driver.Prog Storage CString

/-- What the kernel has set up before it starts the shell. -/
structure System where
  /-- The statics of `ahci.c`. -/
  hba : Ahci.Hba
  /-- The table of disks. -/
  disks : Registry
  /-- The table of PCI functions. -/
  pci : Pci.PciTable

/-- The terminal that a program writes to. -/
def screen : Observer machine Vga.Term Empty where
  step t e :=
    match e with
    | .out (.print text) => (Vga.vgaWrite t (ofString text), [])
    | .out (.color fg bg) => (Vga.vgaSetColor t fg bg, [])
    | _ => (t, [])

/-! ## The branches -/

def helpCommand : Kernel Unit := do
  vgaWrite "Commandes disponibles:\n"
  vgaWrite "  help     - Afficher cette aide\n"
  vgaWrite "  clear    - Effacer l'ecran\n"
  vgaWrite "  disks    - Lister les disques\n"
  vgaWrite "  pci      - Lister les peripheriques PCI\n"
  vgaWrite "  read <disk> <lba> <count> - Lire secteurs\n"
  vgaWrite "  echo <text> - Afficher du texte\n"
  vgaWrite "  reboot   - Redemarrer (triple fault)\n"

/-- What a command leaves behind. -/
structure Ran where
  /-- The terminal. -/
  term : Vga.Term
  /-- The exchanges it has made. -/
  trace : Trace machine
  /-- It comes back to the loop: the machine has not been stopped, and no read has gone past the end
  of a table. -/
  ended : Bool

/-- A command that is a program. -/
def Ran.ofProg {α : Type} (p : Kernel α) (ended : α → Bool) (dev : Device machine)
    (h : Trace machine) (t : Vga.Term) : Ran :=
  ⟨screen.after t (p.trace dev h), p.trace dev h, ended (p.value dev h)⟩

/-- The branch of the dispatcher for a command. -/
def Command.run (sys : System) (dev : Device machine) (h : Trace machine) (line : List UInt8)
    (t : Vga.Term) : Command → Ran
  | .help => .ofProg helpCommand (fun _ ↦ true) dev h t
  | .clear => ⟨Vga.vgaClear t, [], true⟩
  | .disks => .ofProg (diskList sys.disks) (fun _ ↦ true) dev h t
  | .pci => .ofProg (Pci.pciListDevices sys.pci) Option.isSome dev h t
  | .read => .ofProg (readCommand sys.hba sys.disks line) (fun _ ↦ true) dev h t
  | .echo => ⟨Vga.vgaPutchar (Vga.vgaWrite t (line.drop 5)) 10, [], true⟩
  | .reboot => ⟨Vga.vgaWrite t (ofString "Redemarrage...\n"), [], false⟩
  | .unknown => ⟨Vga.vgaPrintf t (ofString "Commande inconnue: " ++ line ++ [10]), [], true⟩

def runCommand (sys : System) (dev : Device machine) (h : Trace machine) (line : List UInt8)
    (t : Vga.Term) : Ran := (dispatch line).run sys dev h line t

/-- The command does not come back to the loop. -/
def System.Stops (sys : System) (line : List UInt8) : Prop :=
  dispatch line = .reboot ∨ dispatch line = .pci ∧ Pci.maxPciDevices < sys.pci.count

instance (sys : System) : DecidablePred sys.Stops := fun _ ↦
  inferInstanceAs (Decidable (_ ∨ _ ∧ _))

/-! ## The last line of a program -/

section
variable {α β : Type} {p : Kernel α} {f : α → Kernel β} {Q : α → Prop} {R : β → Prop}

/-- Whenever the program ends with a value that satisfies `Q`, it has ended the last line it
printed. -/
def EndsLine (Q : α → Prop) (p : Kernel α) : Prop :=
  ∀ dev h t, Q (p.value dev h) → (screen.after t (p.trace dev h)).col = 0

/-- The program prints nothing. -/
abbrev Silent (p : Kernel α) : Prop := Emits (fun e : Exchange ↦ screen.Ignores e) p

theorem endsLine_vgaWrite {text : String} (hend : (ofString text).getLast? = some 10)
    {Q : Unit → Prop} : EndsLine Q (vgaWrite text) :=
  fun _ _ t _ ↦ Vga.vgaWrite_col_of_newline t hend

theorem endsLine_pure {a : α} (ha : ¬Q a) : EndsLine Q (pure a : Kernel α) :=
  fun _ _ _ h ↦ absurd h ha

/-- **A sequence** ends its last line if its second part does, or if its first part does and the
second part prints nothing. -/
theorem EndsLine.bind (hp : EndsLine Q p) (hf : ∀ a, EndsLine R (f a) ∨ Q a ∧ Silent (f a)) :
    EndsLine R (p >>= f) := by
  intro dev h t hR
  rw [trace_bind, Observer.after_append]
  rcases hf (p.value dev h) with hends | ⟨hQ, hsilent⟩
  · exact hends dev _ _ hR
  · rw [screen.after_of_ignores (hsilent dev _)]
    exact hp dev h t hQ

/-- Nothing need be known of the first part. -/
theorem endsLine_then (hf : ∀ a, EndsLine R (f a)) : EndsLine R (p >>= f) :=
  EndsLine.bind (Q := fun _ ↦ False) (fun _ _ _ h ↦ h.elim) fun a ↦ Or.inl (hf a)

/-- The last line is ended, and nothing is printed after it. -/
theorem endsLine_vgaWrite_then {text : String} (hend : (ofString text).getLast? = some 10)
    {f : Unit → Kernel β} (hf : ∀ a, Silent (f a)) : EndsLine R (vgaWrite text >>= f) :=
  EndsLine.bind (Q := fun _ ↦ True) (endsLine_vgaWrite hend) fun a ↦ Or.inr ⟨trivial, hf a⟩

theorem EndsLine.ite {c : Prop} [Decidable c] {q : Kernel α} (hp : EndsLine Q p)
    (hq : EndsLine Q q) : EndsLine Q (if c then p else q) := by
  split
  · exact hp
  · exact hq

end

/-! ## The last line of a command -/

theorem endsLine_helpCommand : EndsLine (fun _ ↦ True) helpCommand :=
  endsLine_then fun _ ↦ endsLine_then fun _ ↦ endsLine_then fun _ ↦ endsLine_then fun _ ↦
    endsLine_then fun _ ↦ endsLine_then fun _ ↦ endsLine_then fun _ ↦ endsLine_vgaWrite (by decide)

theorem endsLine_diskList (g : Registry) : EndsLine (fun _ ↦ True) (diskList g) := by
  refine endsLine_then fun _ ↦ endsLine_then fun _ ↦ endsLine_then fun _ ↦ .ite ?_ ?_
  · exact endsLine_vgaWrite (by decide)
  · exact endsLine_then fun _ ↦ endsLine_vgaWrite (by decide)

theorem endsLine_pciListDevices (t : Pci.PciTable) :
    EndsLine (fun r ↦ r.isSome = true) (Pci.pciListDevices t) := by
  refine endsLine_then fun _ ↦ endsLine_then fun _ ↦ endsLine_then fun _ ↦ endsLine_then fun r ↦ ?_
  cases r with
  | error => exact endsLine_pure (by simp)
  | ok => exact endsLine_vgaWrite_then (by decide) fun _ ↦ emits_pure _

/-- Without a call of `disk_read` there is a message. -/
theorem endsLine_prepareRead (g : Registry) (line : List UInt8) :
    EndsLine (· = none) (prepareRead g line) := by
  rw [prepareRead]
  split
  · exact endsLine_vgaWrite_then (by decide) fun _ ↦ emits_pure _
  · refine endsLine_then fun buf ↦ ?_
    cases buf with
    | none =>
      exact endsLine_vgaWrite_then (by decide) fun _ ↦
        (emits_emit fun _ ↦ rfl).bind fun _ ↦ emits_pure _
    | some buf => exact endsLine_pure (by simp)

theorem endsLine_readCommand (hba : Ahci.Hba) (g : Registry) (line : List UInt8) :
    EndsLine (fun _ ↦ True) (readCommand hba g line) := by
  refine (endsLine_prepareRead g line).bind fun call ↦ ?_
  cases call with
  | none => exact Or.inr ⟨rfl, emits_pure _⟩
  | some call =>
    have hfree : Silent (free call.block.addr) := emits_emit fun _ ↦ rfl
    refine Or.inl (endsLine_then fun old ↦ endsLine_then fun r ↦ EndsLine.ite ?_ ?_)
    · exact endsLine_then fun _ ↦ endsLine_then fun _ ↦
        endsLine_vgaWrite_then (by decide) fun _ ↦ hfree
    · exact endsLine_vgaWrite_then (by decide) fun _ ↦ hfree

/-! ## Where a command leaves the cursor -/

/-- The line asks for no command, and with the text around it does not fit the buffer of
`vga_printf`. -/
def Overlong (line : List UInt8) : Prop := dispatch line = .unknown ∧ 236 ≤ line.length

instance : DecidablePred Overlong := fun _ ↦ inferInstanceAs (Decidable (_ ∧ _))

/-- The column of the cursor after a line has been dealt with. -/
def columnAfter (line : List UInt8) : ℕ := if Overlong line then 15 else 0

/-- **The branch for an unknown command** ends its line as long as the newline fits. -/
theorem unknown_col {line : List UInt8} (hline : ∀ c ∈ line, ¬Vga.IsControl c) (t : Vga.Term)
    (ht : t.col = 0) :
    (Vga.vgaPrintf t (ofString "Commande inconnue: " ++ line ++ [10])).col =
      if 236 ≤ line.length then 15 else 0 := by
  have hlen : (ofString "Commande inconnue: ").length = 19 := by decide
  have hmessage : ∀ c ∈ ofString "Commande inconnue: ", ¬Vga.IsControl c := by
    have hall : (ofString "Commande inconnue: ").all (¬Vga.IsControl ·) = true := by decide
    simpa using hall
  rw [Vga.vgaPrintf]
  split
  · rename_i hlong
    have htext : ∀ c ∈ ofString "Commande inconnue: " ++ line, ¬Vga.IsControl c := by
      intro c hc
      exact (List.mem_append.mp hc).elim (hmessage c) (hline c)
    rw [List.take_append_of_le_length (by rw [List.length_append]; omega),
      Vga.vgaWrite_col t (by omega) fun c hc ↦ htext c (List.mem_of_mem_take hc), ht,
      List.length_take, List.length_append, hlen]
    omega
  · rw [List.take_of_length_le
      (by rw [List.length_append, List.length_append, hlen, List.length_singleton]; omega)]
    exact Vga.vgaWrite_col_of_newline t (by simp)

section
variable {sys : System} {dev : Device machine} {h : Trace machine} {line : List UInt8}
  {t : Vga.Term}

theorem runCommand_ended : (runCommand sys dev h line t).ended = true ↔ ¬sys.Stops line := by
  rw [runCommand, System.Stops]
  cases dispatch line with
  | pci =>
    have hlist : (Pci.pciListDevices sys.pci).value dev h ≠ none ↔ _ :=
      Pci.returns_pciListDevices dev sys.pci h
    rw [← Option.isSome_iff_ne_none] at hlist
    simpa [Command.run, Ran.ofProg] using hlist
  | help | clear | disks | read | echo | reboot | unknown => simp [Command.run, Ran.ofProg]

theorem Command.run_col {c : Command} (hline : ∀ c ∈ line, ¬Vga.IsControl c) (ht : t.col = 0)
    (hended : (c.run sys dev h line t).ended = true) :
    (c.run sys dev h line t).term.col = if c = .unknown ∧ 236 ≤ line.length then 15 else 0 := by
  cases c with
  | help => exact endsLine_helpCommand dev h t trivial
  | clear => rfl
  | disks => exact endsLine_diskList sys.disks dev h t trivial
  | pci => exact endsLine_pciListDevices sys.pci dev h t hended
  | read => exact endsLine_readCommand sys.hba sys.disks line dev h t trivial
  | echo => exact Vga.vgaPutchar_newline_col _
  | reboot => cases hended
  | unknown => exact (unknown_col hline t ht).trans (if_congr (and_iff_right rfl).symm rfl rfl)

/-- **A command that comes back to the loop leaves the cursor at the left margin**, unless the line
is an overlong one. -/
theorem runCommand_col (hline : ∀ c ∈ line, ¬Vga.IsControl c) (ht : t.col = 0)
    (hended : (runCommand sys dev h line t).ended = true) :
    (runCommand sys dev h line t).term.col = columnAfter line :=
  (Command.run_col hline ht hended).trans (if_congr Iff.rfl rfl rfl)

end

end Aetherion.Shell
