import Aetherion.Shell.Plain
import Aetherion.Storage.Names

/-!
# A kernel that only reads

The drivers can write sectors, but `kernel_main` has no use for that.  Whatever machine it is
started on and whatever is typed, all that it sends to the ports are commands to the keyboard,
addresses of configuration space, and task files of commands that read; and nothing goes into the
memory of the AHCI adapter, nor sets a slot's bit, but commands that it fetches as commands that
read (`OnlyReads`).

For the ATA drives and for configuration space that settles it: what they hold is the same
afterwards as before (`kernel_only_reads`).
-/

set_option autoImplicit false

namespace Aetherion.Shell

open Driver Driver.Prog Storage Ata Ahci

/-! ## Commands that read -/

/-- READ DMA, READ DMA EXT and IDENTIFY DEVICE. -/
def dmaReads : List UInt8 := [0xC8, 0x25, 0xEC]

/-- Whenever the adapter starts to fetch, the header has the write bit clear, and in the driver's
table is the FIS of a command that reads.  (That the header does not lead to the table is another
matter.) -/
def FetchedAsRead (hba : Hba) (port : AhciPort) (t : Trace machine) : Prop :=
  ∀ m, ∀ m' ∈ (adapter hba port).reports m t,
    HeaderBuilt m' (fetchHeader port) false ∧
      (m'.readBytes port.cmdTableBase 64).getD 2 0 ∈ dmaReads

/-- The address is that of no PxCI of the controller at `abar`. -/
def StartsNothing (abar a : UInt64) : Prop :=
  ∀ (hba : Hba) (port : AhciPort), hba.abar = abar → a ≠ portAddr hba port 0x38

/-- **A history of reads**, with an adapter at `abar`: exchanges that read only and tell the adapter
nothing, settings of registers of it other than PxCI, and commands that are fetched as reads. -/
inductive OnlyReads (dev : Device machine) (abar : UInt64) : Trace machine → Prop
  | nil : OnlyReads dev abar []
  | exchange {h : Trace machine} {e : Exchange} (hh : OnlyReads dev abar h) (he : ReadOnly e)
      (hstore : Storeless e) : OnlyReads dev abar (h ++ [e])
  | register {h : Trace machine} {a : UInt64} (hh : OnlyReads dev abar h)
      (ha : StartsNothing abar a) (v : UInt32) : OnlyReads dev abar (h ++ [.out (.mmio a v)])
  | command {h : Trace machine} (hh : OnlyReads dev abar h) {hba : Hba} (habar : hba.abar = abar)
      (port : AhciPort) (fis : Fis) (buffer : UInt64) (count : UInt32) (isWrite : Bool)
      (hfetch : FetchedAsRead hba port
        ((ahciExecCmd hba port fis buffer count isWrite).trace dev h)) :
      OnlyReads dev abar (h ++ (ahciExecCmd hba port fis buffer count isWrite).trace dev h)

section
variable {dev : Device machine} {abar : UInt64} {h : Trace machine}

/-- Nothing else goes to the ports. -/
theorem OnlyReads.readOnly (hreads : OnlyReads dev abar h) : ∀ e ∈ h, ReadOnly e := by
  have hmore {h t : Trace machine} (hh : ∀ e ∈ h, ReadOnly e) (ht : ∀ e ∈ t, ReadOnly e) :
      ∀ e ∈ h ++ t, ReadOnly e := List.forall_mem_append.mpr ⟨hh, ht⟩
  induction hreads with
  | nil => exact List.forall_mem_nil _
  | exchange _ he _ ih => exact hmore ih (List.forall_mem_singleton.mpr he)
  | register _ _ _ ih => exact hmore ih (List.forall_mem_singleton.mpr trivial)
  | command _ _ port fis buffer count isWrite _ ih =>
    exact hmore ih fun e he ↦ (harmless_ahciExecCmd _ port fis buffer count isWrite dev _ e he).1

/-- Registers of ports are told apart by their offsets, whatever the ports. -/
theorem portOffset_mod (num off : UInt32) :
    (0x100 + ((num * 0x80).toUInt64 + off.toUInt64) : UInt64).toNat % 0x80 = off.toNat % 0x80 := by
  have hbase : (num * 0x80).toNat = num.toNat * 0x80 % 2 ^ 32 := UInt32.toNat_mul ..
  rw [UInt64.toNat_add, UInt64.toNat_add, UInt32.toNat_toUInt64, UInt32.toNat_toUInt64, hbase]
  change (0x100 + (_ + _) % 2 ^ 64) % 2 ^ 64 % _ = _
  omega

theorem portAddr_eq (hba : Hba) (port : AhciPort) (off : UInt32) :
    portAddr hba port off =
      hba.abar + (0x100 + ((port.portNum * 0x80).toUInt64 + off.toUInt64)) := by
  rw [portAddr, UInt64.add_assoc, UInt64.add_assoc]

theorem startsNothing_of_mod {off : UInt64} (hoff : off.toNat % 0x80 ≠ 0x38) :
    StartsNothing abar (abar + off) := by
  rintro hba port rfl heq
  rw [portAddr_eq] at heq
  obtain rfl := (UInt64.add_right_inj _).mp heq
  exact hoff (portOffset_mod port.portNum 0x38)

theorem startsNothing_port {hba : Hba} (port : AhciPort) {offset : UInt32}
    (hoffset : offset ∈ startRegisters) : StartsNothing hba.abar (portAddr hba port offset) := by
  rw [portAddr_eq]
  refine startsNothing_of_mod ?_
  rw [portOffset_mod]
  simp only [startRegisters, List.mem_cons, List.not_mem_nil, or_false] at hoffset
  rcases hoffset with rfl | rfl | rfl | rfl | rfl <;> decide

theorem ahciBuildRegFis_command (command : UInt8) (lba : UInt64) (count : UInt32) (lba48 : Bool) :
    (ahciBuildRegFis command lba count lba48).toList.getD 2 0 = command := by
  rw [List.getD_eq_getElem _ _ (by simp), Vector.getElem_toList]
  cases lba48 <;>
    simp only [ahciBuildRegFis, Bool.false_eq_true, if_true, if_false, Vector.getElem_set,
      Nat.reduceEqDiff]

theorem identifyFis_reads : identifyFis.toList.getD 2 0 ∈ dmaReads := by decide

theorem readFis_reads (lba : UInt64) (count : UInt32) :
    (readFis lba count).toList.getD 2 0 ∈ dmaReads := by
  rw [readFis, requestFis]
  split
  · rw [ahciBuildRegFis_command]
    decide
  · rw [ahciBuildRegFis_command]
    decide

/-! ## Programs that keep it so -/

section
variable {α : Type} {p : Kernel α}

/-- Most programs build no command. -/
theorem reads_plain (hp : Emits Plain p) :
    Triple dev (OnlyReads dev abar) p (fun _ ↦ OnlyReads dev abar) :=
  triple_of_emits hp fun _ _ he hreads ↦ hreads.exchange he.1.1 he.2

theorem reads_malloc (size : UInt64) :
    Triple dev (OnlyReads dev abar) (malloc size) (fun _ ↦ OnlyReads dev abar) :=
  triple_ask fun _ hreads ↦ hreads.exchange trivial trivial

theorem reads_free (a : UInt64) :
    Triple dev (OnlyReads dev abar) (free a) (fun _ ↦ OnlyReads dev abar) :=
  triple_emit fun _ hreads ↦ hreads.exchange trivial trivial

theorem reads_dma (a : UInt64) :
    Triple dev (OnlyReads dev abar) (dma a) (fun _ ↦ OnlyReads dev abar) :=
  triple_ask fun _ hreads ↦ hreads.exchange trivial trivial

end

theorem reads_hbaWrite (hba : Hba) (v : UInt32) :
    Triple dev (OnlyReads dev hba.abar) (hbaWrite hba 0x04 v) (fun _ ↦ OnlyReads dev hba.abar) :=
  triple_emit fun _ hreads ↦ hreads.register (startsNothing_of_mod (by decide)) v

theorem reads_ahciPortStart (hba : Hba) (port : AhciPort) :
    Triple dev (OnlyReads dev hba.abar) (ahciPortStart hba port)
      (fun _ ↦ OnlyReads dev hba.abar) := by
  refine triple_of_emits (emits_ahciPortStart hba port) fun h e he hreads ↦ ?_
  cases he with
  | plain he => exact hreads.exchange he.1.1 he.2
  | register hoffset v => exact hreads.register (startsNothing_port port hoffset) v

/-- **A command that reads is fetched as one**, at a port with memory of its own. -/
theorem reads_ahciExecCmd (hba : Hba) {port : AhciPort} (hport : WellPlaced port) {fis : Fis}
    (hfis : fis.toList.getD 2 0 ∈ dmaReads) (buffer : UInt64) (count : UInt32) :
    Triple dev (OnlyReads dev hba.abar) (ahciExecCmd hba port fis buffer count false)
      (fun _ ↦ OnlyReads dev hba.abar) := by
  intro h hreads
  refine hreads.command rfl port fis buffer count false fun m m' hm' ↦ ?_
  obtain ⟨hheader, htable⟩ := header_fetched hba hport fis buffer count false dev h m m' hm'
  exact ⟨hheader, htable ▸ hfis⟩

/-! ## Detection -/

theorem reads_ataProbe (ch drive : ℕ) :
    Triple dev (OnlyReads dev abar) (ataProbe ch drive) (fun _ ↦ OnlyReads dev abar) := by
  refine (reads_plain (plain_ataIdentify _ _)).bind fun o ↦ ?_
  cases o with
  | none => exact triple_pure fun _ ↦ id
  | some words =>
    refine .ite (fun _ ↦ triple_pure fun _ ↦ id) fun _ ↦ .ite (fun _ ↦ triple_pure fun _ ↦ id)
      fun _ ↦ (reads_malloc _).bind fun disk ↦ ?_
    cases disk with
    | none => exact triple_pure fun _ ↦ id
    | some disk =>
      refine (reads_malloc _).bind fun device ↦ ?_
      cases device with
      | none => exact (reads_free _).bind fun _ ↦ triple_pure fun _ ↦ id
      | some _ => exact triple_pure fun _ ↦ id

theorem reads_ahciProbe {hba : Hba} {i : Fin 32} (hport : WellPlaced (hba.port i))
    (identify : UInt64) :
    Triple dev (OnlyReads dev hba.abar) (ahciProbe hba i identify)
      (fun _ ↦ OnlyReads dev hba.abar) := by
  have hnone (text : String) : Triple dev (OnlyReads dev hba.abar)
      (vgaWrite text >>= fun _ ↦ (pure none : Kernel (Option Disk)))
      (fun _ ↦ OnlyReads dev hba.abar) :=
    (reads_plain (plain_print text)).bind fun _ ↦ triple_pure fun _ ↦ id
  refine (reads_ahciPortStart hba _).bind fun started ↦ .ite (fun _ ↦ hnone _) fun _ ↦ ?_
  refine Triple.bind (Q := fun _ ↦ OnlyReads dev hba.abar) ?_ fun o ↦ ?_
  · refine (reads_ahciExecCmd hba hport identifyFis_reads _ _).bind fun r ↦
      .ite (fun _ ↦ triple_pure fun _ ↦ id) fun _ ↦ ?_
    exact (reads_dma _).bind fun _ ↦ triple_pure fun _ ↦ id
  cases o with
  | none => exact hnone _
  | some words =>
    refine .ite (fun _ ↦ triple_pure fun _ ↦ id) fun _ ↦ (reads_malloc _).bind fun disk ↦ ?_
    cases disk <;> exact triple_pure fun _ ↦ id

theorem indifferent_onlyReads : Indifferent (OnlyReads dev abar) := by
  intro h e he hreads
  cases he with
  | address hp v =>
    refine hreads.exchange (.inl ?_) trivial
    exact List.mem_append_right [0x60, 0x64] hp
  | _ => exact hreads.exchange trivial trivial

/-- **Detection only reads**, wherever it finds the adapter. -/
theorem reads_findDisks (identify : UInt64) :
    Triple dev (fun h ↦ ∀ abar, OnlyReads dev abar h) (findDisks identify)
      (fun k ↦ OnlyReads dev k.ahci.hba.abar) := by
  have hprobe {I : Trace machine → Prop} {p : Kernel (Option Disk)} {g : Registry} {found : ℤ}
      (hp : Triple dev I p (fun _ ↦ I)) : Triple dev I p (AfterProbe (fun _ _ ↦ I) g found) :=
    hp.mono (fun _ ↦ id) fun o _ hh ↦ by cases o <;> exact hh
  exact triple_findDisks (A := fun _ _ _ h ↦ ∀ abar, OnlyReads dev abar h)
    (B := fun _ abar _ _ _ ↦ OnlyReads dev abar)
    (fun _ _ _ h e he hh abar ↦ indifferent_onlyReads h e he (hh abar))
    (fun _ _ _ _ _ ↦ indifferent_onlyReads)
    (fun ch drive _ _ _ _ ↦ hprobe (triple_forall fun _ ↦ reads_ataProbe ch drive))
    (fun _ _ _ ↦ id) (fun _ _ _ _ _ _ ↦ id) (fun _ hba _ v ↦ reads_hbaWrite hba v)
    fun _ _ _ _ _ hready ↦ hprobe (reads_ahciProbe hready.placed identify)

/-- What has been read when the kernel comes to its first prompt, or has stopped before. -/
def BootReads (dev : Device machine) (o : Option System) (h : Trace machine) : Prop :=
  ∃ abar, OnlyReads dev abar h ∧ ∀ sys ∈ o, sys.hba.abar = abar

theorem OnlyReads.bootReads_none (hreads : OnlyReads dev abar h) : BootReads dev none h :=
  ⟨abar, hreads, fun _ hsys ↦ absurd hsys (Option.not_mem_none _)⟩

theorem reads_kernelBoot (n depth : ℕ) (identify : UInt64) :
    Triple dev (fun h ↦ ∀ abar, OnlyReads dev abar h) (kernelBoot n depth identify).run
      (BootReads dev) := by
  refine triple_kernelBoot (reads_findDisks identify)
    (fun _ _ he hreads abar ↦ (hreads abar).exchange he.1.1 he.2)
    (fun _ _ _ he hreads ↦ hreads.exchange he.1.1 he.2) (fun _ hreads ↦ (hreads 0).bootReads_none)
    (fun _ _ hreads ↦ hreads.bootReads_none) (fun k pci h hreads ↦ ?_) n depth
  refine ⟨k.ahci.hba.abar, hreads, ?_⟩
  rintro _ ⟨⟩
  rfl

/-! ## The shell -/

/-- A disk that one of the drivers has set up, at a port with memory of its own if it is at one. -/
def Usable (hba : Hba) (d : Disk) : Prop :=
  Detected d ∧ ∀ i, d.ops = some (.ahci i) → WellPlaced (hba.port i)

theorem usable_system {b : Boot} {sys : System} (hsys : b.system = some sys) :
    sys.disks.All (Usable sys.hba) := by
  refine disks_system (P := fun g hba ↦ g.All (Usable hba)) (fun h d hd ↦ ?_) hsys
  refine ⟨allDetected_findDisks b.identify h d hd, fun i hops ↦ ?_⟩
  exact ((portsReady_findDisks b.identify h).ready d i hd hops).2.placed

theorem reads_diskRead {hba : Hba} {d : Disk} (hd : Usable hba d) (lba : UInt64) (count : UInt32)
    (b : Buffer) :
    Triple dev (OnlyReads dev hba.abar) (diskRead hba (some d) lba count b)
      (fun _ ↦ OnlyReads dev hba.abar) := by
  obtain ⟨hdetected, hport⟩ := hd
  cases hdetected with
  | ata ch drive words =>
    exact (reads_plain (plain_ataPioRead _ lba count b.words _)).bind fun _ ↦
      triple_pure fun _ ↦ id
  | ahci i words =>
    exact (reads_ahciExecCmd hba (hport i rfl) (readFis_reads _ _) _ _).bind fun _ ↦
      (reads_dma _).bind fun _ ↦ triple_pure fun _ ↦ id

/-- A call of `disk_read` is for a disk of the table. -/
theorem returns_prepareRead {g : Registry} {P : Disk → Prop} (hg : g.All P) (line : List UInt8)
    (dev : Device machine) :
    Returns dev (fun o ↦ ∀ call ∈ o, P call.disk) (prepareRead g line) := by
  rw [prepareRead]
  split
  · exact returns_then fun _ ↦ returns_pure fun _ hmem ↦ absurd hmem (Option.not_mem_none _)
  · rename_i d hd
    refine returns_then fun buf ↦ ?_
    cases buf with
    | none =>
      exact returns_then fun _ ↦ returns_then fun _ ↦
        returns_pure fun _ hmem ↦ absurd hmem (Option.not_mem_none _)
    | some buf =>
      refine returns_pure ?_
      rintro _ ⟨⟩
      exact hg d ⟨_, (diskGet_eq_some_iff.mp hd).2⟩

theorem reads_prepareRead (g : Registry) (line : List UInt8) :
    Triple dev (OnlyReads dev abar) (prepareRead g line) (fun _ ↦ OnlyReads dev abar) := by
  rw [prepareRead]
  split
  · exact (reads_plain (plain_print _)).bind fun _ ↦ triple_pure fun _ ↦ id
  · refine (reads_malloc _).bind fun buf ↦ ?_
    cases buf with
    | none =>
      exact (reads_plain (plain_print _)).bind fun _ ↦ (reads_free _).bind fun _ ↦
        triple_pure fun _ ↦ id
    | some buf => exact triple_pure fun _ ↦ id

theorem reads_readCommand {hba : Hba} {g : Registry} (hg : g.All (Usable hba))
    (line : List UInt8) :
    Triple dev (OnlyReads dev hba.abar) (readCommand hba g line)
      (fun _ ↦ OnlyReads dev hba.abar) := by
  refine ((reads_prepareRead g line).and_returns (returns_prepareRead hg line dev)).bind
    fun o ↦ ?_
  cases o with
  | none => exact triple_pure fun _ hh ↦ hh.1
  | some call =>
    refine Triple.mono (P := fun h ↦ Usable hba call.disk ∧ OnlyReads dev hba.abar h)
      (triple_and fun hcall ↦ ?_) (fun _ hh ↦ ⟨hh.2 call rfl, hh.1⟩) fun _ _ hh ↦ hh
    refine (reads_dma _).bind fun old ↦
      (reads_diskRead hcall call.lba call.count _).bind fun r ↦ .ite (fun _ ↦ ?_) fun _ ↦ ?_
    · exact (reads_plain (plain_print _)).bind fun _ ↦
        (reads_plain (plain_hexDump _ _)).bind fun _ ↦
        (reads_plain (plain_print _)).bind fun _ ↦ reads_free _
    · exact (reads_plain (plain_print _)).bind fun _ ↦ reads_free _

/-- **A command** of the shell only reads. -/
theorem reads_runCommand {sys : System} (hdisks : sys.disks.All (Usable sys.hba))
    (line : List UInt8) (t : Vga.Term) (hreads : OnlyReads dev sys.hba.abar h) :
    OnlyReads dev sys.hba.abar (h ++ (runCommand sys dev h line t).trace) := by
  rw [runCommand]
  cases dispatch line with
  | help => exact reads_plain plain_helpCommand h hreads
  | disks => exact reads_plain (plain_diskList sys.disks) h hreads
  | pci => exact reads_plain (plain_pciListDevices sys.pci) h hreads
  | read => exact reads_readCommand hdisks line h hreads
  | clear | echo | reboot | unknown => exact (List.append_nil h).symm ▸ hreads

/-- **All that the kernel exchanges** is of that kind, with the adapter where it has been found. -/
theorem onlyReads_kernelTrace (b : Boot) (keys : List UInt8) :
    ∃ abar, (∀ sys ∈ b.system, sys.hba.abar = abar) ∧
      OnlyReads b.dev abar (kernelTrace b keys) := by
  obtain ⟨abar, hboot, hfound⟩ := reads_kernelBoot b.tries b.depth b.identify [] fun _ ↦ .nil
  refine ⟨abar, hfound, kernelTrace_keeps hboot (fun sys hsys h line t hreads ↦ ?_) keys⟩
  obtain rfl := hfound sys hsys
  exact reads_runCommand (usable_system hsys) line t hreads

end

/-! ## What that leaves alone -/

/-- Without a data word that is written, nothing is stored. -/
theorem cells_step {e : Exchange} (he : ReadOnly e) (base : UInt16) (d : Drives) :
    ((drives base).step d e).cells = d.cells := by
  rcases e with (⟨p, v⟩ | ⟨p, v⟩ | _ | _ | _ | _ | _ | _) | ⟨i, r⟩
  · simp only [drives, Drives.step]
    split <;> rfl
  · exact he.elim
  · rfl
  · rfl
  · rfl
  · rfl
  · rfl
  · rfl
  · cases i with
    | inw p =>
      simp only [drives, Drives.step]
      cases d.transfer with
      | none => rfl
      | some t =>
        simp only
        split <;> rfl
    | inb | inl | mmio | load32 | dma | malloc => rfl

/-- The data port of configuration space is only read. -/
theorem bank_step {σ : Type} (bank : Pci.Bank σ) {e : Exchange} (he : ReadOnly e)
    (s : UInt32 × σ) : (bank.ports.step s e).2 = s.2 := by
  rcases e with (_ | _ | ⟨p, v⟩ | _ | _ | _ | _ | _) | ⟨i, r⟩
  · rfl
  · rfl
  · obtain rfl : p = 0xCF8 := he
    rfl
  all_goals rfl

/-- **The kernel only reads**, on every machine and whatever is typed: no data word goes to a port,
the ports get nothing but commands for the keyboard, configuration addresses and task files of
commands that read, and the AHCI adapter is started for nothing but commands that it fetches as
commands that read.  So what is stored on the ATA drives, and in the registers of configuration
space, stays as it is. -/
theorem kernel_only_reads (b : Boot) (keys : List UInt8) :
    (∀ e ∈ kernelTrace b keys, ReadOnly e) ∧
      (∃ abar, (∀ sys ∈ b.system, sys.hba.abar = abar) ∧
        OnlyReads b.dev abar (kernelTrace b keys)) ∧
      (∀ (s : Channel → Drives) (c : Channel),
        (channelBus.after s (kernelTrace b keys) c).cells = (s c).cells) ∧
      ∀ (σ : Type) (bank : Pci.Bank σ) (s : UInt32 × σ),
        (bank.ports.after s (kernelTrace b keys)).2 = s.2 := by
  obtain ⟨abar, hfound, hreads⟩ := onlyReads_kernelTrace b keys
  have hall := hreads.readOnly
  refine ⟨hall, ⟨abar, hfound, hreads⟩, fun s c ↦ ?_, fun σ bank s ↦ ?_⟩
  · rw [channelBus, Peripheral.after_bus]
    exact Peripheral.view_after _ (fun d e he ↦ cells_step he c.base d) hall (s c)
  · exact Peripheral.view_after _ (fun s e he ↦ bank_step bank he s) hall s

end Aetherion.Shell
