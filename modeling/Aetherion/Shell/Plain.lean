import Aetherion.Ata.Bus
import Aetherion.Pci.Registers
import Aetherion.Shell.KernelMain

/-!
# What most of the kernel exchanges

Two things are shown of all that the kernel exchanges with the machine: that nothing of it writes to
a disk (`Shell.ReadOnly`), and that it gives back to the heap what it has from there (`Shell.Heap`).
Most of its functions have to do with neither.  What they exchange is `Plain`: it reads only, it
builds no command for the AHCI adapter, and it does not ask the heap for anything.  That is shown
here, function by function.
-/

set_option autoImplicit false

namespace Aetherion.Shell

open Driver Driver.Prog Storage Ata Ahci

/-! ## Reading only -/

/-- The ports of the keyboard controller, and the address register of configuration space. -/
def systemPorts : List UInt16 := [0x60, 0x64, 0xCF8, 0xCF9, 0xCFA, 0xCFB]

/-- READ SECTORS, READ SECTORS EXT and IDENTIFY DEVICE. -/
def pioReads : List UInt8 := [0x20, 0x24, 0xEC]

/-- A byte for a port.  In the command register of a channel it is a command that reads. -/
def ReadOnlyPort (p : UInt16) (v : UInt8) : Prop :=
  p ∈ systemPorts ∨ ∃ c : Channel, ∃ reg ∈ registers, p = c.base + reg ∧ (reg = 7 → v ∈ pioReads)

/-- What goes to the ports leaves what is on the ATA drives, and in configuration space, as it
is. -/
def ReadOnly : Exchange → Prop
  | .out (.outb p v) => ReadOnlyPort p v
  | .out (.outw _ _) => False
  | .out (.outl p _) => p = 0xCF8
  | _ => True

/-- Nothing goes into the memory that the AHCI adapter has its commands from, or into its
registers. -/
def Storeless : Exchange → Prop
  | .out (.store _ _) | .out (.mmio _ _) => False
  | _ => True

/-- The exchange asks nothing of the heap, and looks into no buffer that a device fills. -/
def Heapless : Exchange → Prop
  | .out (.free _) | .inp (.malloc _) _ | .inp (.dma _) _ => False
  | _ => True

/-- The exchange reads only, and has nothing to do with the heap. -/
def Harmless (e : Exchange) : Prop := ReadOnly e ∧ Heapless e

/-- Nor does it tell the adapter anything. -/
def Plain (e : Exchange) : Prop := Harmless e ∧ Storeless e

theorem emits_harmless {α : Type} {p : Kernel α} (hp : Emits Plain p) : Emits Harmless p :=
  hp.mono fun _ ↦ And.left

theorem emits_readOnly {α : Type} {p : Kernel α} (hp : Emits Plain p) : Emits ReadOnly p :=
  hp.mono fun _ he ↦ he.1.1

/-! ## Exchanges -/

theorem plain_outb {p : UInt16} {v : UInt8} (hp : ReadOnlyPort p v) :
    Emits Plain (outb p v) := emits_emit ⟨⟨hp, trivial⟩, trivial⟩

theorem plain_system {p : UInt16} (hp : p ∈ systemPorts) (v : UInt8) :
    Emits Plain (outb p v) := plain_outb (.inl hp)

theorem plain_register (c : Channel) {reg : UInt16} (hreg : reg ∈ registers) (hne : reg ≠ 7)
    (v : UInt8) : Emits Plain (outb (c.base + reg) v) :=
  plain_outb (.inr ⟨c, reg, hreg, rfl, fun h ↦ absurd h hne⟩)

theorem plain_command (c : Channel) {v : UInt8} (hv : v ∈ pioReads) :
    Emits Plain (outb (c.base + 7) v) :=
  plain_outb (.inr ⟨c, 7, by decide, rfl, fun _ ↦ hv⟩)

theorem plain_inb (p : UInt16) : Emits Plain (inb p) :=
  emits_ask fun _ ↦ ⟨⟨trivial, trivial⟩, trivial⟩

theorem plain_inw (p : UInt16) : Emits Plain (inw p) :=
  emits_ask fun _ ↦ ⟨⟨trivial, trivial⟩, trivial⟩

theorem plain_outl (v : UInt32) : Emits Plain (outl 0xCF8 v) :=
  emits_emit ⟨⟨rfl, trivial⟩, trivial⟩

theorem plain_inl (p : UInt16) : Emits Plain (inl p) :=
  emits_ask fun _ ↦ ⟨⟨trivial, trivial⟩, trivial⟩

theorem plain_print (text : String) : Emits Plain (vgaWrite text) :=
  emits_emit ⟨⟨trivial, trivial⟩, trivial⟩

theorem plain_color (fg bg : Vga.VgaColor) : Emits Plain (vgaSetColor fg bg) :=
  emits_emit ⟨⟨trivial, trivial⟩, trivial⟩

theorem plain_mmioRead (a : UInt64) : Emits Plain (mmioRead a) :=
  emits_ask fun _ ↦ ⟨⟨trivial, trivial⟩, trivial⟩

/-! ## The keyboard -/

section
variable (n : ℕ)

theorem plain_ps2WaitInput : Emits Plain (Keyboard.ps2WaitInput n).run := by
  induction n with
  | zero => exact emits_pure _
  | succ n ih =>
    refine emits_bindO (emits_lift (plain_inb _)) fun status ↦ ?_
    split
    · exact ih
    · exact emits_pure _

theorem plain_ps2WaitOutput : Emits Plain (Keyboard.ps2WaitOutput n).run := by
  induction n with
  | zero => exact emits_pure _
  | succ n ih =>
    refine emits_bindO (emits_lift (plain_inb _)) fun status ↦ ?_
    split
    · exact ih
    · exact emits_pure _

theorem plain_ps2SendCmd (cmd : UInt8) : Emits Plain (Keyboard.ps2SendCmd n cmd).run :=
  emits_bindO (plain_ps2WaitInput n) fun _ ↦ emits_lift (plain_system (by decide) _)

theorem plain_ps2SendData (data : UInt8) : Emits Plain (Keyboard.ps2SendData n data).run :=
  emits_bindO (plain_ps2WaitInput n) fun _ ↦ emits_lift (plain_system (by decide) _)

theorem plain_ps2ReadData : Emits Plain (Keyboard.ps2ReadData n).run :=
  emits_bindO (plain_ps2WaitOutput n) fun _ ↦ emits_lift (plain_inb _)

theorem plain_ps2Drain : Emits Plain (Keyboard.ps2Drain n).run := by
  induction n with
  | zero => exact emits_pure _
  | succ n ih =>
    refine emits_bindO (emits_lift (plain_inb _)) fun status ↦ ?_
    split
    · exact emits_bindO (emits_lift (plain_inb _)) fun _ ↦ ih
    · exact emits_pure _

theorem plain_message (text : String) :
    Emits Plain (vgaWrite text : OptionT Kernel Unit).run := emits_lift (plain_print text)

theorem plain_keyboardInit : Emits Plain (Keyboard.keyboardInit n).run := by
  have hcmd := plain_ps2SendCmd n
  have hdata := plain_ps2SendData n
  have hread := plain_ps2ReadData n
  refine emits_bindO (hcmd _) fun _ ↦ emits_bindO (hcmd _) fun _ ↦
    emits_bindO (plain_ps2Drain n) fun _ ↦ emits_bindO (hcmd _) fun _ ↦
    emits_bindO hread fun config ↦ emits_bindO (hcmd _) fun _ ↦ emits_bindO (hdata _) fun _ ↦
    emits_bindO (hcmd _) fun _ ↦ emits_bindO hread fun res ↦ ?_
  split
  · exact plain_message _
  refine emits_bindO (hcmd _) fun _ ↦ emits_bindO hread fun res ↦ ?_
  split
  · exact plain_message _
  refine emits_bindO (hcmd _) fun _ ↦ emits_bindO (hdata _) fun _ ↦ emits_bindO hread fun _ ↦
    emits_bindO hread fun selfTest ↦ ?_
  split
  · exact plain_message _
  exact emits_bindO (hdata _) fun _ ↦ emits_bindO hread fun _ ↦ emits_bindO (hdata _) fun _ ↦
    emits_bindO hread fun _ ↦ emits_bindO (hcmd _) fun _ ↦ emits_bindO (hdata _) fun _ ↦
    plain_message _

end

/-! ## The buses -/

section
open Pci
variable (d : PciDevice)

theorem plain_pciReadConfig (reg : UInt8) : Emits Plain (pciReadConfig d reg) :=
  (plain_outl _).bind fun _ ↦ plain_inl _

theorem plain_pciReadConfig16 (reg : UInt8) : Emits Plain (pciReadConfig16 d reg) :=
  (plain_pciReadConfig d _).bind fun _ ↦ emits_pure _

theorem plain_pciReadConfig8 (reg : UInt8) : Emits Plain (pciReadConfig8 d reg) :=
  (plain_pciReadConfig d _).bind fun _ ↦ emits_pure _

theorem plain_pciReadBars : Emits Plain (pciReadBars d) :=
  emits_forEach (fun _ _ ↦ (plain_pciReadConfig d _).bind fun _ ↦ emits_pure _) _ _ _

theorem plain_pciReadDeviceInfo : Emits Plain (pciReadDeviceInfo d) := by
  have h32 := plain_pciReadConfig d
  have h16 := plain_pciReadConfig16 d
  have h8 := plain_pciReadConfig8 d
  refine (h16 _).bind fun _ ↦ (h16 _).bind fun _ ↦ (h16 _).bind fun _ ↦ (h16 _).bind fun _ ↦ ?_
  refine (h8 _).bind fun _ ↦ (h8 _).bind fun _ ↦ (h8 _).bind fun _ ↦ (h8 _).bind fun _ ↦ ?_
  refine (h8 _).bind fun _ ↦ (h8 _).bind fun _ ↦ (h8 _).bind fun _ ↦ (h8 _).bind fun _ ↦ ?_
  refine (plain_pciReadBars d).bind fun _ ↦ (h32 _).bind fun _ ↦ ?_
  refine (h16 _).bind fun _ ↦ (h16 _).bind fun _ ↦ (h32 _).bind fun _ ↦ ?_
  exact (h8 _).bind fun _ ↦ (h8 _).bind fun _ ↦ (h8 _).bind fun _ ↦ (h8 _).bind fun _ ↦
    (h8 _).bind fun _ ↦ emits_pure _

theorem plain_pciScanFunction {scan : UInt8 → PciTable → Kernel (Option (ℤ × PciTable))}
    (hscan : ∀ bus t, Emits Plain (scan bus t)) (bus device function : UInt8)
    (s : ℤ × PciTable) : Emits Plain (pciScanFunction scan bus device function s) := by
  have hexists : Emits Plain (pciDeviceExists bus device function) :=
    (plain_outl _).bind fun _ ↦ (plain_inl _).bind fun _ ↦ emits_pure _
  refine hexists.bind fun found ↦ .ite (emits_pure _) ?_
  split
  · refine (plain_pciReadDeviceInfo _).bind fun d ↦ (plain_print _).bind fun _ ↦ ?_
    have hbridge : Emits Plain (pciScanBridge scan d (s.2.put s.2.count ‹_› d)) :=
      .ite ((plain_print _).bind fun _ ↦ (plain_pciReadConfig8 _ _).bind fun _ ↦
        (plain_print _).bind fun _ ↦ (hscan _ _).bind fun _ ↦ emits_pure _) (emits_pure _)
    refine hbridge.bind fun r ↦ ?_
    cases r with
    | none => exact emits_pure _
    | some t => exact (plain_print _).bind fun _ ↦ .ite (emits_pure _) (emits_pure _)
  · exact emits_pure _

theorem plain_pciScanBus (depth : ℕ) :
    ∀ bus t, Emits Plain (pciScanBus depth bus t) := by
  induction depth with
  | zero => exact fun _ _ ↦ emits_pure _
  | succ depth ih =>
    intro bus t
    refine (emits_forLoop (fun device s ↦ ?_) _ _ _).bind fun r ↦ by cases r <;> exact emits_pure _
    refine (emits_forLoop (fun function s ↦ plain_pciScanFunction ih _ _ _ s) _ _ _).bind
      fun r ↦ ?_
    rcases r with (s | s | _) | s <;> exact emits_pure _

theorem plain_pciInit (depth : ℕ) : Emits Plain (pciInit depth) := by
  refine (plain_color _ _).bind fun _ ↦ (plain_print _).bind fun _ ↦
    (plain_color _ _).bind fun _ ↦ (plain_pciScanBus depth 0 _).bind fun r ↦ ?_
  cases r with
  | none => exact emits_pure _
  | some s => exact (plain_print _).bind fun _ ↦ emits_pure _

theorem plain_pciListDevices (t : PciTable) : Emits Plain (pciListDevices t) := by
  refine (plain_color _ _).bind fun _ ↦ (plain_print _).bind fun _ ↦
    (plain_color _ _).bind fun _ ↦ (emits_forLoop (fun i _ ↦ ?_) _ _ _).bind fun r ↦ ?_
  · split
    · exact emits_pure _
    · exact (plain_print _).bind fun _ ↦ emits_pure _
  · cases r with
    | error => exact emits_pure _
    | ok => exact (plain_print _).bind fun _ ↦ emits_pure _

end

/-! ## The disks -/

section
variable (c : Channel)

theorem plain_ataWaitReady (base : UInt16) (timeoutMs : UInt32) :
    Emits Plain (ataWaitReady base timeoutMs) := by
  refine (emits_forLoop (fun _ _ ↦ ?_) _ _ _).bind fun r ↦ by cases r <;> exact emits_pure _
  exact (plain_inb _).bind fun _ ↦ .ite (emits_pure _) (emits_pure _)

theorem plain_ataWaitDrq (base : UInt16) (timeoutMs : UInt32) :
    Emits Plain (ataWaitDrq base timeoutMs) := by
  refine (emits_forLoop (fun _ _ ↦ ?_) _ _ _).bind fun r ↦ by cases r <;> exact emits_pure _
  exact (plain_inb _).bind fun _ ↦ .ite (emits_pure _) (.ite (emits_pure _) (emits_pure _))

theorem plain_ataSelectDrive (isMaster : Bool) (lba : UInt64) (lba48 : Bool) :
    Emits Plain (ataSelectDrive c.base isMaster lba lba48) := by
  have hreg {reg : UInt16} (h : reg ∈ registers) (hne : reg ≠ 7) (v : UInt8) :=
    plain_register c h hne v
  refine Emits.bind (.ite ?_ (emits_pure _)) fun _ ↦ hreg (by decide) (by decide) _
  exact (hreg (by decide) (by decide) _).bind fun _ ↦ (hreg (by decide) (by decide) _).bind fun _ ↦
    (hreg (by decide) (by decide) _).bind fun _ ↦ (hreg (by decide) (by decide) _).bind fun _ ↦
    hreg (by decide) (by decide) _

theorem plain_ataIdentify (isMaster : Bool) :
    Emits Plain (ataIdentify c.base isMaster) := by
  refine (plain_ataSelectDrive c _ _ _).bind fun _ ↦
    (plain_command c (by decide)).bind fun _ ↦ ?_
  refine (plain_inb _).bind fun status ↦ .ite (emits_pure _) ?_
  refine (plain_ataWaitReady _ _).bind fun ready ↦ .ite (emits_pure _) ?_
  refine (plain_inb _).bind fun status ↦ .ite (emits_pure _) ?_
  refine (emits_forEach (fun _ _ ↦ ?_) _ _ _).bind fun _ ↦ emits_pure _
  exact (plain_inw _).bind fun _ ↦ emits_pure _

/-- A read of some sectors. -/
theorem plain_ataPioRead (lba : UInt64) (count : UInt32) (buf : UInt32 → UInt16)
    (lba48 : Bool) : Emits Plain (ataPioRead c.base lba count buf lba48) := by
  refine (emits_forLoop (fun sector buf ↦ ?_) _ _ _).bind fun r ↦ by cases r <;> exact emits_pure _
  have hreg {reg : UInt16} (h : reg ∈ registers) (hne : reg ≠ 7) (v : UInt8) :=
    plain_register c h hne v
  refine Emits.bind ?_ fun _ ↦ (plain_ataWaitDrq _ _).bind fun drq ↦ .ite (emits_pure _) ?_
  · refine (plain_ataSelectDrive c _ _ _).bind fun _ ↦
      (Emits.ite (hreg (by decide) (by decide) _) (emits_pure _)).bind fun _ ↦
      (hreg (by decide) (by decide) _).bind fun _ ↦ (hreg (by decide) (by decide) _).bind fun _ ↦
      (hreg (by decide) (by decide) _).bind fun _ ↦ (hreg (by decide) (by decide) _).bind fun _ ↦ ?_
    exact plain_command c (by split <;> decide)
  · refine (emits_forEach (fun _ _ ↦ ?_) _ _ _).bind fun _ ↦ emits_pure _
    exact (plain_inw _).bind fun _ ↦ emits_pure _

end

section
variable (hba : Hba) (port : AhciPort)

theorem harmless_portWrite (offset val : UInt32) :
    Emits Harmless (portWrite hba port offset val) := emits_emit ⟨trivial, trivial⟩

theorem plain_portRead (offset : UInt32) : Emits Plain (portRead hba port offset) :=
  plain_mmioRead _

/-- A command for the adapter is built and waited for. -/
theorem harmless_ahciExecCmd (fis : Fis) (buffer : UInt64) (count : UInt32) (isWrite : Bool) :
    Emits Harmless (ahciExecCmd hba port fis buffer count isWrite) := by
  have hstore (a : UInt64) (bytes : List UInt8) : Emits Harmless (store a bytes) :=
    emits_emit ⟨trivial, trivial⟩
  have hload (a : UInt64) : Emits Harmless (load32 a) := emits_ask fun _ ↦ ⟨trivial, trivial⟩
  refine Emits.bind ?_ fun _ ↦ (harmless_portWrite _ _ _ _).bind fun _ ↦ ?_
  · exact (hstore _ _).bind fun _ ↦ (hstore _ _).bind fun _ ↦ (hstore _ _).bind fun _ ↦
      (hstore _ _).bind fun _ ↦ (hstore _ _).bind fun _ ↦ (hload _).bind fun _ ↦
      (hstore _ _).bind fun _ ↦ hstore _ _
  · have hread (offset : UInt32) := emits_harmless (plain_portRead hba port offset)
    have hpoll : ∀ timeout, Emits Harmless (pollCi hba port timeout) := by
      intro timeout
      induction timeout with
      | zero => exact emits_pure _
      | succ timeout ih => exact (hread _).bind fun _ ↦ .ite (emits_pure _) ih
    refine (hpoll _).bind fun timeout ↦ .ite (emits_pure _) ?_
    refine (hread _).bind fun is ↦ .ite ?_ (emits_pure _)
    exact (emits_harmless (plain_print _)).bind fun _ ↦ emits_pure _

theorem plain_ahciWaitBit (reg : UInt64) (mask : UInt32) (expected : Bool)
    (timeoutUs : UInt32) : Emits Plain (ahciWaitBit reg mask expected timeoutUs) := by
  refine (emits_forLoop (fun _ _ ↦ ?_) _ _ _).bind fun r ↦ by cases r <;> exact emits_pure _
  exact (plain_mmioRead _).bind fun _ ↦ .ite (emits_pure _) (emits_pure _)

/-- The registers that `ahci_port_start` sets: PxCLB, PxFB and PxCMD. -/
def startRegisters : List UInt32 := [0x00, 0x04, 0x08, 0x0C, 0x18]

/-- What setting up a port exchanges. -/
inductive StartsPort : Exchange → Prop
  | plain {e : Exchange} (he : Plain e) : StartsPort e
  | register {offset : UInt32} (hoffset : offset ∈ startRegisters) (v : UInt32) :
      StartsPort (.out (.mmio (portAddr hba port offset) v))

theorem emits_ahciPortStart : Emits (StartsPort hba port) (ahciPortStart hba port) := by
  have hplain {α : Type} {p : Kernel α} (hp : Emits Plain p) : Emits (StartsPort hba port) p :=
    hp.mono fun _ ↦ .plain
  have hwrite {offset : UInt32} (hoffset : offset ∈ startRegisters) (v : UInt32) :
      Emits (StartsPort hba port) (portWrite hba port offset v) := emits_emit (.register hoffset v)
  have hupper {offset : UInt32} (hoffset : offset ∈ startRegisters) (base : UInt64) :
      Emits (StartsPort hba port) (portWriteUpper hba port offset base) :=
    .ite (hwrite hoffset _) (emits_pure _)
  refine (hplain (plain_portRead _ _ _)).bind fun _ ↦ (hwrite (by decide) _).bind fun _ ↦
    (hplain (plain_ahciWaitBit _ _ _ _)).bind fun _ ↦ (hwrite (by decide) _).bind fun _ ↦
    (hupper (by decide) _).bind fun _ ↦ (hwrite (by decide) _).bind fun _ ↦
    (hupper (by decide) _).bind fun _ ↦ (hplain (plain_portRead _ _ _)).bind fun _ ↦
    (hwrite (by decide) _).bind fun _ ↦ (hplain (plain_ahciWaitBit _ _ _ _)).bind fun _ ↦
    .ite ?_ (emits_pure _)
  exact (hplain (plain_print _)).bind fun _ ↦ emits_pure _

theorem harmless_ahciPortStart : Emits Harmless (ahciPortStart hba port) :=
  (emits_ahciPortStart hba port).mono fun e he ↦ by
    cases he with
    | plain he => exact he.1
    | register _ _ => exact ⟨trivial, trivial⟩

end

/-! ## The shell -/

theorem plain_diskList (g : Registry) : Emits Plain (diskList g) := by
  refine (plain_color _ _).bind fun _ ↦ (plain_print _).bind fun _ ↦
    (plain_color _ _).bind fun _ ↦ .ite (plain_print _) ?_
  refine (emits_forEach (fun i _ ↦ ?_) _ _ _).bind fun _ ↦ plain_print _
  split
  · exact emits_pure _
  · exact plain_print _

theorem plain_hexDump (count : Int32) (words : UInt32 → UInt16) :
    Emits Plain (hexDump count words) :=
  emits_forEach (fun _ _ ↦ .ite ((Emits.ite (plain_print _) (emits_pure _)).bind fun _ ↦
    plain_print _) (emits_pure _)) _ _ _

theorem plain_helpCommand : Emits Plain helpCommand :=
  (plain_print _).bind fun _ ↦ (plain_print _).bind fun _ ↦ (plain_print _).bind fun _ ↦
    (plain_print _).bind fun _ ↦ (plain_print _).bind fun _ ↦
    (plain_print _).bind fun _ ↦ (plain_print _).bind fun _ ↦ plain_print _

/-! ## The start -/

/-- **The rule for the start of the kernel**, up to its first prompt: `P` holds until the disks are
looked for, and `Q k` when `k` has been found.  It may stop before the prompt, too. -/
theorem triple_kernelBoot {dev : Device machine} {P : Trace machine → Prop}
    {Q : Disks → Trace machine → Prop} {R : Option System → Trace machine → Prop}
    {identify : UInt64} (hfind : Triple dev P (findDisks identify) Q)
    (hP : ∀ h e, Plain e → P h → P (h ++ [e])) (hQ : ∀ k h e, Plain e → Q k h → Q k (h ++ [e]))
    (hstopped : ∀ h, P h → R none h) (hstopped' : ∀ k h, Q k h → R none h)
    (hprompt : ∀ k pci h, Q k h → R (some ⟨k.ahci.hba, k.registry, pci⟩) h) (n depth : ℕ) :
    Triple dev P (kernelBoot n depth identify).run R := by
  have hpart {α : Type} {S : Trace machine → Prop} {p : OptionT Kernel α} (hp : Emits Plain p.run)
      (hS : ∀ h e, Plain e → S h → S (h ++ [e])) (hstop : ∀ h, S h → R none h) :
      Triple dev S p.run fun o h ↦ o.elim (R none h) fun _ ↦ S h :=
    (triple_of_emits hp hS).mono (fun _ ↦ id) fun o h hh ↦ by
      cases o with
      | none => exact hstop h hh
      | some a => exact hh
  have hbefore {α : Type} {p : OptionT Kernel α} (hp : Emits Plain p.run) := hpart hp hP hstopped
  have hafter {α : Type} (k : Disks) {p : OptionT Kernel α} (hp : Emits Plain p.run) :=
    hpart hp (hQ k) (hstopped' k)
  have hprint (text : String) := emits_lift (plain_print text)
  have hcolor (fg bg : Vga.VgaColor) := emits_lift (plain_color fg bg)
  refine triple_run_bind (hbefore (hcolor _ _)) fun _ ↦
    triple_run_bind (hbefore (hprint _)) fun _ ↦ triple_run_bind (hbefore (hprint _)) fun _ ↦
    triple_run_bind (hbefore (hprint _)) fun _ ↦ triple_run_bind (hbefore (hcolor _ _)) fun _ ↦
    triple_run_bind (hbefore (hprint _)) fun _ ↦ triple_run_bind (hbefore (hprint _)) fun _ ↦
    triple_run_bind (hbefore (plain_keyboardInit n)) fun _ ↦
    triple_run_bind (hbefore (emits_mk (plain_pciInit depth))) fun pci ↦
    triple_run_bind (Q := Q) ?_ fun k ↦ ?_
  · exact hfind.bind fun k ↦ triple_pure fun _ ↦ id
  · exact triple_run_bind (hafter k (emits_lift (plain_diskList _))) fun _ ↦
      triple_run_bind (hafter k (emits_mk (plain_pciListDevices _))) fun _ ↦
      triple_run_bind (hafter k (hcolor _ _)) fun _ ↦ triple_run_bind (hafter k (hprint _)) fun _ ↦
      triple_run_bind (hafter k (hcolor _ _)) fun _ ↦ triple_pure (hprompt k pci)

end Aetherion.Shell
