import Aetherion.Hardware
import Aetherion.Shell.CString

/-!
# The table of disks

`kernel/disk.c`: the drivers register the disks they find, and everybody else gets at a disk by
its place in the table.

The C table is an array of pointers and a counter.  Here the counter comes with the fact that it
does not run past the array, so no registration can write outside the table.
-/

set_option autoImplicit false

namespace Aetherion.Storage

open Vga

/-- `disk_type_t`. -/
inductive DiskType where
  | unknown | ataPio | ataDma | sataAhci | nvme | usb | virtio
  deriving DecidableEq, Repr

/-- `ata_device_t`. -/
structure AtaDevice where
  /-- `base_port`. -/
  basePort : UInt16
  /-- `ctrl_port`. -/
  ctrlPort : UInt16
  /-- `is_master`. -/
  isMaster : Bool
  /-- `is_lba48`. -/
  isLba48 : Bool
  /-- `max_lba`. -/
  maxLba : UInt64
  deriving DecidableEq, Repr

/-- `read_sectors`, `write_sectors` and `private_data`, which a driver sets together. -/
inductive DiskOps where
  /-- `ata_disk_read`, `ata_disk_write`, and the `ata_device_t`. -/
  | ata (dev : AtaDevice)
  /-- `ahci_read_sectors`, `ahci_write_sectors`, and which of `g_hba.ports`. -/
  | ahci (port : Fin 32)
  deriving DecidableEq, Repr

/-- `disk_t`. -/
structure Disk where
  /-- `name`. -/
  name : String
  /-- `type`. -/
  type : DiskType
  /-- `sectors`. -/
  sectors : UInt64
  /-- `sector_size`. -/
  sectorSize : UInt32
  /-- `size_bytes`. -/
  sizeBytes : UInt64
  /-- How to reach it, if it has been set up. -/
  ops : Option DiskOps
  deriving DecidableEq, Repr

/-! ## What a drive says about itself

Both drivers read the size of a drive out of its IDENTIFY data in the same way. -/

/-- `lba48_supported`. -/
def lba48Supported (identify : ℕ → UInt16) : Bool := identify 83 &&& ((1 : UInt16) <<< 10) ≠ 0

/-- `total_sectors`: the 48-bit count if there is one, else the 28-bit one. -/
def totalSectors (identify : ℕ → UInt16) : UInt64 :=
  if lba48Supported identify then
    (identify 100).toUInt64 ||| (identify 101).toUInt64 <<< 16 |||
      (identify 102).toUInt64 <<< 32 ||| (identify 103).toUInt64 <<< 48
  else (identify 60).toUInt64 ||| (identify 61).toUInt64 <<< 16

/-- `sizeof(disk_t)`. -/
def sizeofDisk : UInt64 := 88

/-! ## The table -/

/-- `MAX_DISKS`. -/
abbrev maxDisks : ℕ := 8

/-- `g_disks` and `g_disk_count`. -/
structure Registry where
  /-- `g_disks`. -/
  disks : Vector (Option Disk) maxDisks
  /-- `g_disk_count`. -/
  count : ℕ
  /-- The counter stays inside the table. -/
  count_le : count ≤ maxDisks

/-- What `disk_init` leaves in the table. -/
def Registry.empty : Registry := ⟨Vector.replicate maxDisks none, 0, Nat.zero_le _⟩

def diskInit : Kernel Registry := do
  vgaSetColor .lightCyan .black
  vgaWrite "[DISK] Initialisation du sous-systeme disque...\n"
  vgaSetColor .white .black
  pure Registry.empty

/-- The table with the disk in its next place, and the counter moved on. -/
def Registry.push (g : Registry) (d : Disk) (hroom : ¬g.count ≥ maxDisks) : Registry :=
  ⟨g.disks.set g.count (some d) (Nat.lt_of_not_le hroom), g.count + 1, Nat.lt_of_not_le hroom⟩

def diskRegister (g : Registry) (disk : Option Disk) : Kernel (ℤ × Registry) :=
  match disk with
  | some d =>
    if hfull : g.count ≥ maxDisks then do
      vgaWrite "[DISK] Erreur: impossible d'enregistrer le disque\n"
      pure (-1, g)
    else do
      let g' := g.push d hfull
      vgaSetColor .lightGreen .black
      vgaWrite "[DISK] Disque enregistre: "
      vgaWrite d.name
      vgaWrite " ("
      vgaWrite (toString (d.sizeBytes.toNat / (1024 * 1024)))
      vgaWrite " MB)\n"
      vgaSetColor .white .black
      pure (g'.count - 1, g')
  | none => do
    vgaWrite "[DISK] Erreur: impossible d'enregistrer le disque\n"
    pure (-1, g)

/-- The disk at a place of the table. -/
def Registry.get? (g : Registry) (i : ℕ) : Option Disk :=
  if i < g.count then g.disks[i]?.join else none

def diskGet (g : Registry) (index : Int32) : Option Disk :=
  if index < 0 then none else g.get? index.toInt.toNat

def diskFindByName (g : Registry) (name : List UInt8) : Option Disk :=
  (List.range g.count).findSome? fun i ↦ do
    let d ← g.disks[i]?.join
    if CString.strcmp (CString.ofString d.name) name = 0 then some d else none

/-- `type_str`. -/
def DiskType.str : DiskType → String
  | .unknown => "Unknown"
  | .ataPio => "ATA PIO"
  | .ataDma => "ATA DMA"
  | .sataAhci => "SATA AHCI"
  | .nvme => "NVMe"
  | .usb => "USB"
  | .virtio => "VirtIO"

/-- What `disk_list` writes about a disk. -/
def Disk.describe (d : Disk) (i : ℕ) : String :=
  snprintf 128 <|
    "  [" ++ toString i ++ "] " ++ d.name ++ " | " ++ d.type.str ++ " | " ++
    toString d.sectors.toNat ++ " secteurs | " ++ toString d.sectorSize.toNat ++
    " octets/secteur | " ++ toString (d.sizeBytes.toNat / (1024 * 1024)) ++ " MB\n"

def diskList (g : Registry) : Kernel Unit := do
  vgaSetColor .yellow .black
  vgaWrite "\n=== Disques detectes ===\n"
  vgaSetColor .white .black
  if g.count = 0 then vgaWrite "  Aucun disque detecte\n"
  else do
    Driver.Prog.forEach (fun i (_ : Unit) ↦
      match g.disks[i]?.join with
      | none => pure ()
      | some d => vgaWrite (d.describe i)) g.count 0 ()
    vgaWrite "\n"

/-- The disk can be reached through the table. -/
def Registry.Registered (g : Registry) (d : Disk) : Prop := ∃ i, g.get? i = some d

/-! ## What registering does -/

/-- What `diskRegister` makes of the table. -/
def Registry.add (g : Registry) (d : Disk) : Registry :=
  if hfull : g.count ≥ maxDisks then g else g.push d hfull

@[simp] theorem diskRegister_value_snd (g : Registry) (d : Disk) (dev : Driver.Device machine)
    (h : Driver.Trace machine) : ((diskRegister g (some d)).value dev h).2 = g.add d := by
  rw [diskRegister, Registry.add]
  split <;> rfl

theorem not_registered_empty (d : Disk) : ¬Registry.empty.Registered d := by
  rintro ⟨i, hi⟩
  rw [Registry.get?, if_neg (show ¬i < Registry.empty.count from Nat.not_lt_zero i)] at hi
  cases hi

theorem Registry.count_add (g : Registry) (d : Disk) :
    (g.add d).count = min maxDisks (g.count + 1) := by
  have hle := g.count_le
  rw [Registry.add]
  split
  · rw [min_eq_left (by omega)]
    omega
  · rw [Registry.push, min_eq_right (by omega)]

theorem Registry.get?_lt {g : Registry} {i : ℕ} {d : Disk} (h : g.get? i = some d) :
    i < g.count := by
  rw [Registry.get?] at h
  split at h
  · assumption
  · cases h

/-- **What registering changes**: the first free place, if there is one. -/
theorem Registry.get?_add (g : Registry) (d : Disk) (i : ℕ) :
    (g.add d).get? i = if g.count < maxDisks ∧ i = g.count then some d else g.get? i := by
  rw [Registry.add]
  split
  · rw [if_neg (by omega)]
  · have hroom : g.count < maxDisks := by omega
    simp only [Registry.push, Registry.get?, Vector.getElem?_set, hroom, true_and]
    rcases Nat.lt_trichotomy i g.count with hlt | rfl | hgt
    · rw [if_pos (by omega), if_neg (by omega), if_neg (by omega), if_pos hlt]
    · rw [if_pos (by omega), if_pos rfl, if_pos rfl]
      rfl
    · rw [if_neg (by omega), if_neg (by omega), if_neg (by omega)]

/-- **A registered disk was there before, or is the one just added.** -/
theorem Registry.Registered.of_add {g : Registry} {d e : Disk} (he : (g.add d).Registered e) :
    g.Registered e ∨ e = d := by
  obtain ⟨i, hi⟩ := he
  rw [Registry.get?_add] at hi
  split at hi
  · exact Or.inr (Option.some.inj hi).symm
  · exact Or.inl ⟨i, hi⟩

end Aetherion.Storage
