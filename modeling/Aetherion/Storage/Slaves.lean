import Aetherion.Base.Independent
import Aetherion.Ata.Bus
import Aetherion.Storage.Requests

/-!
# What detection finds on working drives

On a machine with working drives on both channels and no AHCI controller, detection asks each of the
four drives what it is, and registers those that are ATA disks and have sectors, in its own order
(`returns_findDisks`).

Only the slaves are of any use afterwards, since every request goes to the slave of a channel.  The
disks of slaves that detection has registered are the `slaveDisk`s of those slaves that are disks
(`registered_slave_iff`).
-/

set_option autoImplicit false

namespace Aetherion.Storage

open Driver Driver.Prog Driver.Peripheral Ata Ahci

/-! ## Disks and drives -/

/-- The drive is an ATA disk, and has sectors. -/
def IsDisk (words : ℕ → UInt16) : Prop := words 0 &&& 0x8000 = 0 ∧ totalSectors words ≠ 0

instance (words : ℕ → UInt16) : Decidable (IsDisk words) := inferInstanceAs (Decidable (_ ∧ _))

/-- The disk has been made from a slave. -/
def Disk.IsSlave (d : Disk) : Prop := ∃ dev, d.ops = some (.ata dev) ∧ dev.isMaster = false

/-- `ch`. -/
def channelNumber : Channel → ℕ
  | .primary => 0
  | .secondary => 1

/-- The disk that detection makes of what the slave of a channel says about itself. -/
def slaveDisk (identify : Channel → ℕ → UInt16) (c : Channel) : Disk :=
  ataDisk (channelNumber c) 1 (identify c)

/-- What the slave of a channel says about itself. -/
def slaveIdentity (s : Channel → Drives) (c : Channel) : ℕ → UInt16 := (s c).identity true

/-- What a drive says about itself. -/
def driveIdentity (s : Channel → Drives) (ch drive : ℕ) : ℕ → UInt16 :=
  (s (channels ch)).identity !decide (drive = 0)

/-- The disk of a drive, if it is one. -/
def driveDisk (s : Channel → Drives) (ch drive : ℕ) : Option Disk :=
  if IsDisk (driveIdentity s ch drive) then some (ataDisk ch drive (driveIdentity s ch drive))
  else none

/-- The disks of the four drives. -/
def driveDisks (s : Channel → Drives) : List Disk :=
  [(0, 0), (0, 1), (1, 0), (1, 1)].filterMap fun u ↦ driveDisk s u.1 u.2

theorem channels_channelNumber (c : Channel) : channels (channelNumber c) = c := by cases c <;> rfl

theorem isSlave_slaveDisk (identify : Channel → ℕ → UInt16) (c : Channel) :
    (slaveDisk identify c).IsSlave := ⟨_, rfl, rfl⟩

theorem isSlave_ataDisk {ch drive : ℕ} {words : ℕ → UInt16} :
    (ataDisk ch drive words).IsSlave ↔ drive ≠ 0 := by
  constructor
  · rintro ⟨dev, hdev, hslave⟩
    cases hdev
    exact of_decide_eq_false hslave
  · exact fun hdrive ↦ ⟨_, rfl, decide_eq_false hdrive⟩

/-- **The slaves among the disks.** -/
theorem mem_driveDisks_slave {s : Channel → Drives} {d : Disk} :
    d ∈ driveDisks s ∧ d.IsSlave ↔
      ∃ c, IsDisk (slaveIdentity s c) ∧ d = slaveDisk (slaveIdentity s) c := by
  rw [driveDisks, List.mem_filterMap]
  constructor
  · rintro ⟨⟨⟨ch, drive⟩, hu, hd⟩, hslave⟩
    rw [driveDisk, Option.ite_none_right_eq_some, Option.some.injEq] at hd
    obtain ⟨hdisk, rfl⟩ := hd
    have hdrive := isSlave_ataDisk.mp hslave
    simp only [List.mem_cons, Prod.mk.injEq, List.not_mem_nil, or_false] at hu
    rcases hu with ⟨rfl, rfl⟩ | ⟨rfl, rfl⟩ | ⟨rfl, rfl⟩ | ⟨rfl, rfl⟩
    · exact absurd rfl hdrive
    · exact ⟨.primary, hdisk, rfl⟩
    · exact absurd rfl hdrive
    · exact ⟨.secondary, hdisk, rfl⟩
  · rintro ⟨c, hdisk, rfl⟩
    refine ⟨⟨(channelNumber c, 1), by cases c <;> decide, ?_⟩, isSlave_slaveDisk _ c⟩
    cases c <;> exact if_pos hdisk

/-! ## The table -/

theorem Registry.registered_add_iff {g : Registry} (hroom : g.count < maxDisks) {d e : Disk} :
    (g.add d).Registered e ↔ g.Registered e ∨ e = d := by
  constructor
  · exact Registered.of_add
  · rintro (⟨i, hi⟩ | rfl)
    · have hlt := Registry.get?_lt hi
      exact ⟨i, by rw [Registry.get?_add, if_neg (by omega), hi]⟩
    · exact ⟨g.count, by rw [Registry.get?_add, if_pos ⟨hroom, rfl⟩]⟩

/-- As long as there is room, registering disks registers them. -/
theorem Registry.registered_foldl_add {ds : List Disk} {g : Registry}
    (hroom : g.count + ds.length ≤ maxDisks) {e : Disk} :
    (ds.foldl Registry.add g).Registered e ↔ g.Registered e ∨ e ∈ ds := by
  induction ds generalizing g with
  | nil => simp
  | cons d ds ih =>
    rw [List.length_cons] at hroom
    have hcount : (g.add d).count = g.count + 1 := by
      rw [Registry.count_add]
      omega
    rw [List.foldl_cons, ih (by omega), registered_add_iff (by omega), List.mem_cons, or_assoc]

/-! ## Detection -/

/-- The table and the count with a drive's disk. -/
def withDrive (s : Channel → Drives) (st : Registry × ℤ) (u : ℕ × ℕ) : Registry × ℤ :=
  (driveDisk s u.1 u.2).elim st fun d ↦ (st.1.add d, st.2 + 1)

theorem foldl_withDrive (s : Channel → Drives) (us : List (ℕ × ℕ)) (st : Registry × ℤ) :
    (us.foldl (withDrive s) st).1 =
      (us.filterMap fun u ↦ driveDisk s u.1 u.2).foldl Registry.add st.1 := by
  induction us generalizing st with
  | nil => rfl
  | cons u us ih =>
    rw [List.foldl_cons, ih, List.filterMap_cons, withDrive]
    cases driveDisk s u.1 u.2 with
    | none => rfl
    | some d => rfl

/-- The machine has these drives on its two channels, has memory, and has no AHCI controller, nor
anything else in configuration space. -/
structure HasDrives (dev : Device machine) (s : Channel → Drives) : Prop where
  /-- The drives answer what is for their channel. -/
  attached : ∀ c, (drives c.base).Attached (s c) (channelPart c.base) dev
  /-- There is always memory. -/
  malloc : ∀ size h, ∃ block, (malloc size).value dev h = some block
  /-- Configuration space is empty. -/
  config : ∀ bus device func reg, Returns dev (· = 0) (pciRead32 bus device func reg)

theorem hasDrives_channelBus (s : Channel → Drives) : HasDrives (channelBus.device s) s :=
  ⟨fun c ↦ attached_bus (owner_channel c) s, fun _ _ ↦ ⟨_, rfl⟩, fun _ _ _ _ _ ↦ rfl⟩

section
variable {dev : Device machine} {s : Channel → Drives} (hdev : HasDrives dev s)
include hdev

/-- A drive that is asked says what it is, at any time. -/
theorem returns_ataIdentify (c : Channel) (isMaster : Bool) :
    Returns dev (· = some (identifyBuf ((s c).identity (!isMaster)) 256))
      (ataIdentify c.base isMaster) := by
  intro h
  have halone := congrArg Prod.fst <|
    (hdev.attached c).confined (h := h) (confined_ataIdentify isMaster) rfl
  refine halone.trans ((runs_ataIdentify isMaster h rfl).1.trans ?_)
  rw [identity_after]

theorem returns_ataMakeDisk (ch drive : ℕ) (words : ℕ → UInt16) :
    Returns dev (· = if IsDisk words then some (ataDisk ch drive words) else none)
      (ataMakeDisk ch drive words) := by
  refine .ite (fun hatapi ↦ returns_pure (if_neg fun hdisk ↦ hatapi hdisk.1).symm) fun hata ↦
    .ite (fun hzero ↦ returns_pure (if_neg fun hdisk ↦ hdisk.2 hzero).symm) fun hsectors ↦ ?_
  rw [if_pos ⟨not_not.mp hata, hsectors⟩]
  have hmalloc (size : UInt64) : Returns dev (fun o ↦ ∃ block, o = some block) (malloc size) :=
    hdev.malloc size
  refine (hmalloc _).bind fun disk hdisk ↦ ?_
  obtain ⟨disk, rfl⟩ := hdisk
  refine (hmalloc _).bind fun device hdevice ↦ ?_
  obtain ⟨device, rfl⟩ := hdevice
  exact returns_pure rfl

theorem returns_driveDisk (ch drive : ℕ) :
    Returns dev (· = driveDisk s ch drive) (ataProbe ch drive) := by
  refine returns_bind_eq (returns_ataIdentify hdev (channels ch) (decide (drive = 0))) ?_
  -- the words that make the disk are all among the 256 that have been read
  exact returns_ataMakeDisk hdev ch drive (identifyBuf (driveIdentity s ch drive) 256)

theorem returns_ataDetectDrive (ch drive : ℕ) (st : Registry × ℤ) :
    Returns dev (· = withDrive s st (ch, drive)) (ataDetectDrive ch drive st) := by
  refine returns_bind_eq (returns_driveDisk hdev ch drive) ?_
  rw [withDrive]
  cases driveDisk s ch drive with
  | none => exact returns_pure rfl
  | some d =>
    refine (returns_diskRegister st.1 d).bind fun r hr ↦ returns_pure ?_
    rw [hr]
    rfl

theorem returns_ataInit :
    Returns dev (fun r ↦ r.2 = (driveDisks s).foldl Registry.add .empty) (ataInit .empty) := by
  refine returns_then fun _ ↦ returns_then fun _ ↦ returns_then fun _ ↦ ?_
  have hchannel (ch : ℕ) (st : Registry × ℤ) :
      Returns dev (· = [(ch, 0), (ch, 1)].foldl (withDrive s) st)
        (forEach (fun drive st ↦ ataDetectDrive ch drive st) 2 0 st) :=
    returns_bind_eq (returns_ataDetectDrive hdev ch 0 st)
      (returns_bind_eq (returns_ataDetectDrive hdev ch 1 _) (returns_pure rfl))
  have hloop : Returns dev
      (· = [(0, 0), (0, 1), (1, 0), (1, 1)].foldl (withDrive s) (.empty, 0))
      (forEach (fun ch st ↦ forEach (fun drive st ↦ ataDetectDrive ch drive st) 2 0 st) 2 0
        (.empty, 0)) :=
    returns_bind_eq (hchannel 0 _) (returns_bind_eq (hchannel 1 _) (returns_pure rfl))
  refine returns_bind_eq hloop ?_
  have htable : ([(0, 0), (0, 1), (1, 0), (1, 1)].foldl (withDrive s) (.empty, 0)).1 = _ :=
    foldl_withDrive s _ _
  exact .ite (fun _ ↦ returns_then fun _ ↦ returns_then fun _ ↦ returns_then fun _ ↦
    returns_pure htable) fun _ ↦ returns_pure htable

theorem returns_ahciInit_none (st : AhciState) (g : Registry) (identify : UInt64) :
    Returns dev (fun r ↦ r.2 = (st, g)) (ahciInit st g identify) := by
  refine returns_then fun _ ↦ returns_then fun _ ↦ returns_then fun _ ↦ ?_
  refine (returns_forLoop (fun _ _ ↦ True) (fun _ ↦ False) (fun bus _ _ _ _ ↦ ?_)
    trivial).bind fun r hr ↦ ?_
  · refine returns_forLoop (fun _ _ ↦ True) _ (fun device _ _ _ _ ↦ ?_) trivial
    refine returns_forLoop (fun _ _ ↦ True) _ (fun func _ _ _ _ ↦ ?_) trivial
    refine returns_bind_eq (hdev.config _ _ _ _) ?_
    exact returns_pure trivial
  · cases r with
    | error r => exact hr.elim
    | ok _ =>
      exact returns_then fun _ ↦ returns_then fun _ ↦ returns_then fun _ ↦ returns_pure rfl

/-- **Detection registers the drives that are disks.** -/
theorem returns_findDisks (identify : UInt64) :
    Returns dev (fun k ↦ k.registry = (driveDisks s).foldl Registry.add .empty)
      (findDisks identify) := by
  have hempty : Returns dev (· = Registry.empty) diskInit :=
    returns_then fun _ ↦ returns_then fun _ ↦ returns_then fun _ ↦ returns_pure rfl
  refine returns_bind_eq hempty ((returns_ataInit hdev).bind fun ata hata ↦ ?_)
  refine (returns_ahciInit_none hdev _ _ identify).bind fun ahci hahci ↦ returns_pure ?_
  rw [hahci]
  exact hata

/-- **The slaves' disks in the table** are those of the slaves that are disks. -/
theorem registered_slave_iff (identify : UInt64) (boot : Trace machine) (d : Disk) :
    ((findDisks identify).value dev boot).registry.Registered d ∧ d.IsSlave ↔
      ∃ c, IsDisk (slaveIdentity s c) ∧ d = slaveDisk (slaveIdentity s) c := by
  have hlen : (driveDisks s).length ≤ 4 := List.length_filterMap_le ..
  have hroom : Registry.empty.count + (driveDisks s).length ≤ maxDisks :=
    (Nat.zero_add _).trans_le (hlen.trans (by decide))
  rw [returns_findDisks hdev identify boot, Registry.registered_foldl_add hroom,
    or_iff_right (not_registered_empty d), mem_driveDisks_slave]

end

end Aetherion.Storage
