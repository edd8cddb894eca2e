import Aetherion.Base.Confined
import Aetherion.Ata.Drive

/-!
# Two channels on one bus

A request to a drive exchanges nothing but the bytes and words of its own channel
(`confined_ataPioRead`, `confined_ataPioWrite`), and the drives of the other channel take no notice
of them (`disregards_channel`).  So what `Ata.Drive` says of one channel holds on a machine with
both of them: the one does what it would do alone, and the other stays as it is.
-/

set_option autoImplicit false

namespace Aetherion.Ata

open Driver Driver.Prog Driver.Peripheral Storage

/-- The registers of a channel behind its data port. -/
def registers : List UInt16 := [1, 2, 3, 4, 5, 6, 7]

/-- What the driver exchanges with a channel. -/
def channelPart (base : UInt16) : Part machine where
  reads i := i = .inb (base + 7) ∨ i = .inw base
  writes o := (∃ reg ∈ registers, ∃ v, o = .outb (base + reg) v) ∨ ∃ v, o = .outw base v

/-! ## Identification and requests -/

section
variable {base : UInt16}

theorem confined_outb {reg : UInt16} (hreg : reg ∈ registers) (v : UInt8) :
    Confined (channelPart base) (outb (base + reg) v) := confined_emit (.inl ⟨reg, hreg, v, rfl⟩)

theorem confined_outw (v : UInt16) : Confined (channelPart base) (outw base v) :=
  confined_emit (.inr ⟨v, rfl⟩)

theorem confined_status : Confined (channelPart base) (inb (base + 7)) := confined_ask (.inl rfl)

theorem confined_inw : Confined (channelPart base) (inw base) := confined_ask (.inr rfl)

theorem confined_ataWaitReady (timeoutMs : UInt32) :
    Confined (channelPart base) (ataWaitReady base timeoutMs) := by
  refine (confined_forLoop (fun _ _ ↦ ?_) _ _ _).bind fun r ↦ by cases r <;> exact confined_pure _
  exact confined_status.bind fun _ ↦ .ite (confined_pure _) (confined_pure _)

theorem confined_ataWaitDrq (timeoutMs : UInt32) :
    Confined (channelPart base) (ataWaitDrq base timeoutMs) := by
  refine (confined_forLoop (fun _ _ ↦ ?_) _ _ _).bind fun r ↦ by cases r <;> exact confined_pure _
  exact confined_status.bind fun _ ↦ .ite (confined_pure _) (.ite (confined_pure _)
    (confined_pure _))

theorem confined_ataSelectDrive (isMaster : Bool) (lba : UInt64) (lba48 : Bool) :
    Confined (channelPart base) (ataSelectDrive base isMaster lba lba48) := by
  refine Confined.bind (.ite ?_ (confined_pure _)) fun _ ↦ confined_outb (by decide) _
  exact (confined_outb (by decide) _).bind fun _ ↦ (confined_outb (by decide) _).bind fun _ ↦
    (confined_outb (by decide) _).bind fun _ ↦ (confined_outb (by decide) _).bind fun _ ↦
    confined_outb (by decide) _

/-- **The question what a drive is** keeps to its channel. -/
theorem confined_ataIdentify (isMaster : Bool) :
    Confined (channelPart base) (ataIdentify base isMaster) := by
  refine (confined_ataSelectDrive _ _ _).bind fun _ ↦ (confined_outb (by decide) _).bind fun _ ↦
    confined_status.bind fun (status : UInt8) ↦ .ite (confined_pure _) ?_
  refine (confined_ataWaitReady _).bind fun ready ↦ .ite (confined_pure _) ?_
  refine confined_status.bind fun (status : UInt8) ↦ .ite (confined_pure _) ?_
  exact (confined_forEach (fun _ _ ↦ confined_inw.bind fun _ ↦ confined_pure _) _ _ _).bind fun _ ↦
    confined_pure _

theorem confined_ataCommand (lba : UInt64) (lba48 : Bool) (ext short : UInt8) :
    Confined (channelPart base) (ataCommand base lba lba48 ext short) :=
  (confined_ataSelectDrive _ _ _).bind fun _ ↦
    (Confined.ite (confined_outb (by decide) _) (confined_pure _)).bind fun _ ↦
    (confined_outb (by decide) _).bind fun _ ↦ (confined_outb (by decide) _).bind fun _ ↦
    (confined_outb (by decide) _).bind fun _ ↦ (confined_outb (by decide) _).bind fun _ ↦
    confined_outb (by decide) _

theorem confined_ataReadSector (lba : UInt64) (lba48 : Bool) (sector : UInt32)
    (buf : UInt32 → UInt16) :
    Confined (channelPart base) (ataReadSector base lba lba48 sector buf) := by
  refine (confined_ataCommand _ _ _ _).bind fun _ ↦ (confined_ataWaitDrq _).bind fun _ ↦
    .ite (confined_pure _) ?_
  exact (confined_forEach (fun _ _ ↦ confined_inw.bind fun _ ↦ confined_pure _) _ _ _).bind fun _ ↦
    confined_pure _

theorem confined_ataWriteSector (lba : UInt64) (lba48 : Bool) (buf : UInt32 → UInt16)
    (sector : UInt32) :
    Confined (channelPart base) (ataWriteSector base lba lba48 buf sector) := by
  refine (confined_ataCommand _ _ _ _).bind fun _ ↦ (confined_ataWaitDrq _).bind fun _ ↦
    .ite (confined_pure _) ?_
  exact (confined_forEach (fun _ _ ↦ confined_outw _) _ _ _).bind fun _ ↦
    (confined_outb (by decide) _).bind fun _ ↦ (confined_ataWaitReady _).bind fun _ ↦
    confined_pure _

/-- **A request to read** keeps to its channel. -/
theorem confined_ataPioRead (lba : UInt64) (count : UInt32) (buffer : UInt32 → UInt16)
    (lba48 : Bool) : Confined (channelPart base) (ataPioRead base lba count buffer lba48) :=
  (confined_forLoop (fun _ _ ↦ confined_ataReadSector _ _ _ _) _ _ _).bind fun r ↦ by
    cases r <;> exact confined_pure _

/-- **A request to write** keeps to its channel. -/
theorem confined_ataPioWrite (lba : UInt64) (count : UInt32) (buffer : UInt32 → UInt16)
    (lba48 : Bool) : Confined (channelPart base) (ataPioWrite base lba count buffer lba48) :=
  (confined_forLoop (fun _ _ ↦ confined_ataWriteSector _ _ _ _) _ _ _).bind fun r ↦ by
    cases r <;> exact confined_pure _

end

/-! ## The bus -/

/-- The channel behind a port. -/
def Channel.ofPort (p : UInt16) : Channel := if 0x170 ≤ p ∧ p ≤ 0x177 then .secondary else .primary

/-- Who answers a read. -/
def Channel.owner : In → Channel
  | .inb p => .ofPort p
  | .inw p => .ofPort p
  | _ => .primary

/-- The machine with the drives of both channels. -/
def channelBus : Peripheral machine (Channel → Drives) :=
  bus (fun c ↦ drives c.base) Channel.owner

theorem owner_channel (c : Channel) (i : In) (hi : (channelPart c.base).reads i) :
    Channel.owner i = c := by
  rcases hi with rfl | rfl <;> cases c <;> rfl

/-- **The drives of one channel take no notice of what is exchanged with the other.** -/
theorem disregards_channel {c c' : Channel} (hc : c' ≠ c) :
    (drives c'.base).Disregards (channelPart c.base) := by
  have hports : registers.all fun reg ↦ c.base + reg - c'.base ∉ registers := by
    cases c <;> cases c' <;> first | exact absurd rfl hc | rfl
  have hport : ∀ reg ∈ registers, c.base + reg - c'.base ∉ registers := fun reg hreg ↦
    of_decide_eq_true (List.all_eq_true.mp hports reg hreg)
  have hdata : c.base ≠ c'.base := by
    cases c <;> cases c' <;> first | exact absurd rfl hc | decide
  rintro d (o | ⟨i, r⟩) (he | he)
  · obtain ⟨reg, hreg, v, rfl⟩ := he
    have hout := hport reg hreg
    simp only [registers, List.mem_cons, List.not_mem_nil, or_false, not_or] at hout
    simp [drives, Drives.step, TaskFile.write, hout]
  · obtain ⟨v, rfl⟩ := he
    simp only [drives, Drives.step]
    cases d.transfer with
    | none => rfl
    | some t => exact if_neg fun h ↦ hdata h.1
  · subst he
    rfl
  · subst he
    simp only [drives, Drives.step]
    cases d.transfer with
    | none => rfl
    | some t => exact if_neg fun h ↦ hdata h.1

/-- **A program for one channel** runs on the bus as it runs on that channel. -/
theorem runs_on_channel {α : Type} {c : Channel} {p : Kernel α} {s₀ s : Channel → Drives} {a : α}
    {d : Drives} (hp : (drives c.base).Runs (s₀ c) p (s c) a d)
    (hpart : Confined (channelPart c.base) p) :
    channelBus.Runs s₀ p s a (Function.update s c d) :=
  hp.on_bus hpart (owner_channel c) fun _ hj ↦ disregards_channel hj

end Aetherion.Ata
