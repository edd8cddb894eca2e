import Aetherion.Ahci.Driver
import Aetherion.Ata.Driver

/-!
# Requests to a disk

`disk_read` and `disk_write` pass a request on to the driver of the disk, whichever that is; and at
boot the two drivers, one after the other, put into the table every disk they can find.
-/

set_option autoImplicit false

namespace Aetherion.Storage

open Driver Driver.Prog Ata Ahci

/-- The result, and the buffer afterwards. -/
def diskRead (hba : Hba) (disk : Option Disk) (lba : UInt64) (count : UInt32) (buffer : Buffer) :
    Kernel (ℤ × Buffer) :=
  match disk.bind Disk.ops with
  | none => do
    vgaWrite "[DISK] Erreur: lecture non supportee\n"
    pure (-1, buffer)
  | some (.ata dev) => do
    let r ← ataDiskRead dev lba count buffer.words
    pure (r.1, { buffer with words := r.2 })
  | some (.ahci port) => ahciReadSectors hba port lba count buffer

def diskWrite (hba : Hba) (disk : Option Disk) (lba : UInt64) (count : UInt32) (buffer : Buffer) :
    Kernel ℤ :=
  match disk.bind Disk.ops with
  | none => do
    vgaWrite "[DISK] Erreur: ecriture non supportee\n"
    pure (-1)
  | some (.ata dev) => ataDiskWrite dev lba count buffer.words
  | some (.ahci port) => ahciWriteSectors hba port lba count buffer

/-- What the kernel knows about its disks. -/
structure Disks where
  /-- The value of `ata_init`. -/
  ataFound : ℤ
  /-- The value of `ahci_init`. -/
  ahciFound : ℤ
  /-- The statics of `ahci.c`. -/
  ahci : AhciState
  /-- The table. -/
  registry : Registry

/-- The part of `kernel_main` that looks for disks. -/
def findDisks (identify : UInt64) : Kernel Disks := do
  let g ← diskInit
  let ata ← ataInit g
  let ahci ← ahciInit AhciState.initial ata.2 identify
  pure ⟨ata.1, ahci.1, ahci.2.1, ahci.2.2⟩

/-- A machine whose drives answer every IDENTIFY with ones, with nothing behind its AHCI
controller. -/
def idleMachine : Device machine := steadyMachine 0x50 1 0x01060100

/-! ## Where the disks of the table come from -/

/-- The disk was set up by one of the two drivers. -/
inductive Detected : Disk → Prop where
  | ata (ch drive : ℕ) (identify : ℕ → UInt16) : Detected (ataDisk ch drive identify)
  | ahci (i : Fin 32) (identify : ℕ → UInt16) : Detected (ahciDisk i identify)

/-- Such a disk has a driver. -/
theorem Detected.ops {d : Disk} (h : Detected d) : ∃ ops, d.ops = some ops := by
  cases h
  · exact ⟨_, rfl⟩
  · exact ⟨_, rfl⟩

variable {dev : Device machine}

theorem returns_diskRegister (g : Registry) (d : Disk) :
    Returns dev (fun r ↦ r.2 = g.add d) (diskRegister g (some d)) := fun h ↦
  diskRegister_value_snd g d dev h

theorem returns_ataProbe (ch drive : ℕ) :
    Returns dev (fun o ↦ ∀ d, o = some d → ∃ words, d = ataDisk ch drive words)
      (ataProbe ch drive) := by
  have hnone : ∀ d, (none : Option Disk) = some d → ∃ words, d = ataDisk ch drive words :=
    fun d hd ↦ nomatch hd
  refine returns_then fun o ↦ ?_
  cases o with
  | none => exact returns_pure hnone
  | some words =>
    refine .ite (fun _ ↦ returns_pure hnone) fun _ ↦ .ite (fun _ ↦ returns_pure hnone) fun _ ↦ ?_
    refine returns_then fun disk ↦ ?_
    cases disk with
    | none => exact returns_pure hnone
    | some disk =>
      refine returns_then fun device ↦ ?_
      cases device with
      | none => exact returns_then fun _ ↦ returns_pure hnone
      | some device => exact returns_pure fun d hd ↦ ⟨words, (Option.some.inj hd).symm⟩

theorem returns_ahciProbe (hba : Hba) (i : Fin 32) (identify : UInt64) :
    Returns dev (fun o ↦ ∀ d, o = some d → ∃ words, d = ahciDisk i words)
      (ahciProbe hba i identify) := by
  have hnone : ∀ d, (none : Option Disk) = some d → ∃ words, d = ahciDisk i words :=
    fun d hd ↦ nomatch hd
  refine returns_then fun started ↦ .ite (fun _ ↦ returns_then fun _ ↦ returns_pure hnone)
    fun _ ↦ returns_then fun o ↦ ?_
  cases o with
  | none => exact returns_then fun _ ↦ returns_pure hnone
  | some words =>
    refine .ite (fun _ ↦ returns_pure hnone) fun _ ↦ returns_then fun disk ↦ ?_
    cases disk with
    | none => exact returns_pure hnone
    | some disk => exact returns_pure fun d hd ↦ ⟨words, (Option.some.inj hd).symm⟩

/-- Every disk of the table satisfies `P`. -/
def Registry.All (g : Registry) (P : Disk → Prop) : Prop := ∀ d, g.Registered d → P d

theorem Registry.all_empty (P : Disk → Prop) : Registry.empty.All P := fun d hd ↦
  absurd hd (not_registered_empty d)

variable {P : Disk → Prop} {g : Registry}

theorem Registry.All.add (hg : g.All P) {d : Disk} (hd : P d) : (g.add d).All P := fun _ he ↦
  he.of_add.elim (hg _) fun heq ↦ heq ▸ hd

theorem Registry.All.ataInit (hP : ∀ ch drive words, P (ataDisk ch drive words)) (hg : g.All P) :
    Returns dev (fun r ↦ r.2.All P) (ataInit g) := by
  refine returns_then fun _ ↦ returns_then fun _ ↦ returns_then fun _ ↦ ?_
  refine (returns_forEach (fun _ (s : Registry × ℤ) ↦ s.1.All P) (fun ch s _ _ hs ↦ ?_) hg).bind
    fun s hs ↦ ?_
  · refine returns_forEach (fun _ (s : Registry × ℤ) ↦ s.1.All P) (fun drive s _ _ hs ↦ ?_) hs
    refine (returns_ataProbe ch drive).bind fun o ho ↦ ?_
    cases o with
    | none => exact returns_pure hs
    | some d =>
      obtain ⟨words, rfl⟩ := ho d rfl
      exact (returns_diskRegister _ _).bind fun r hr ↦
        returns_pure (show r.2.All P from hr ▸ hs.add (hP ch drive words))
  · exact .ite (fun _ ↦ returns_then fun _ ↦ returns_then fun _ ↦ returns_then fun _ ↦
      returns_pure hs) fun _ ↦ returns_pure hs

theorem Registry.All.ahciDetectPorts {s : AhciState} {identify : UInt64}
    (hP : ∀ i words, P (ahciDisk i words)) (hg : g.All P) :
    Returns dev (fun r ↦ r.2.2.All P) (ahciDetectPorts s g identify) := by
  refine (returns_forEach (fun _ (s : AhciState × Registry × ℤ) ↦ s.2.1.All P)
    (fun i s _ _ hs ↦ ?_) hg).bind fun r hr ↦ returns_pure hr
  refine .ite (fun _ ↦ returns_pure hs) fun _ ↦ returns_then fun sig ↦
    .ite (fun _ ↦ returns_then fun _ ↦ returns_pure hs) fun _ ↦
      (returns_ahciProbe _ _ identify).bind fun o ho ↦ ?_
  cases o with
  | none => exact returns_pure hs
  | some d =>
    obtain ⟨words, rfl⟩ := ho d rfl
    exact (returns_diskRegister _ _).bind fun r hr ↦
      returns_pure (show r.2.All P from hr ▸ hs.add (hP _ words))

/-- **What `ahci_init` leaves behind**: what it was given, if there is no controller, and what
`ahci_detect_ports` makes of it, under some capabilities, if there is one. -/
theorem returns_ahciInit {Q : AhciState → Registry → Prop} {s : AhciState} {identify : UInt64}
    (hnone : Q s g)
    (hdetect : ∀ hba : Hba, hba.ports = s.hba.ports →
      Returns dev (fun r ↦ Q r.2.1 r.2.2) (ahciDetectPorts { s with hba := hba } g identify)) :
    Returns dev (fun r ↦ Q r.2.1 r.2.2) (ahciInit s g identify) := by
  refine returns_then fun _ ↦ returns_then fun _ ↦ returns_then fun _ ↦ ?_
  refine (returns_forLoop (fun _ _ ↦ True) (fun r ↦ Q r.2.1 r.2.2) (fun bus _ _ _ _ ↦ ?_)
    trivial).bind fun r hr ↦ ?_
  · refine returns_forLoop (fun _ _ ↦ True) _ (fun device _ _ _ _ ↦ ?_) trivial
    refine returns_forLoop (fun _ _ ↦ True) _ (fun func _ _ _ _ ↦ ?_) trivial
    refine returns_then fun classCode ↦ .ite (fun _ ↦ ?_) fun _ ↦ returns_pure trivial
    refine Returns.bind (Q := fun r ↦ Q r.2.1 r.2.2) ?_ ?_
    · -- the steps of the setup before it looks for ports change nothing but the capabilities
      exact returns_then fun _ ↦ returns_then fun _ ↦ returns_then fun _ ↦ returns_then fun _ ↦
        returns_then fun _ ↦ returns_then fun _ ↦ returns_then fun _ ↦ returns_then fun _ ↦
        returns_then fun _ ↦ returns_then fun _ ↦ returns_then fun _ ↦ hdetect _ rfl
    · intro r hr _
      exact hr
  · cases r with
    | error r => exact returns_pure hr
    | ok _ =>
      exact returns_then fun _ ↦ returns_then fun _ ↦ returns_then fun _ ↦ returns_pure hnone

/-- **Every disk of the table was set up by one of the two drivers.** -/
theorem allDetected_findDisks (identify : UInt64) :
    Returns dev (fun k ↦ k.registry.All Detected) (findDisks identify) := by
  refine Returns.bind (Q := fun g ↦ g.All Detected) ?_ fun g hg ↦ ?_
  · exact returns_then fun _ ↦ returns_then fun _ ↦ returns_then fun _ ↦
      returns_pure (Registry.all_empty _)
  · refine (hg.ataInit Detected.ata).bind fun ata hata ↦ ?_
    exact (returns_ahciInit (Q := fun _ g ↦ g.All Detected) hata fun hba _ ↦
      hata.ahciDetectPorts Detected.ahci).bind fun ahci hahci ↦ returns_pure hahci

end Aetherion.Storage
