import Aetherion.Storage.Registry

/-!
# The ATA driver

`kernel/ata.c`: programmed input and output to the drives on the two IDE channels.  A drive is
given its command through the task file, eight ports from the channel's base on, and hands over
or takes the data of one sector at a time through the first of them.

The loop bodies of the source have names of their own here: `ataReadSector` and `ataWriteSector`
are one pass through the loops of `ata_pio_read` and `ata_pio_write`, and `ataProbe` is one pass
through the loops of `ata_detect_disks`.
-/

set_option autoImplicit false

namespace Aetherion.Ata

open Driver.Prog Storage Vga

/-- The register that a port of the channel stands for. -/
theorem register_of_port (basePort reg : UInt16) : basePort + reg - basePort = reg := by
  rw [UInt16.add_comm, UInt16.add_sub_cancel]

/-! ## Waiting -/

/-- `ata_wait_ready`. -/
def ataWaitReady (basePort : UInt16) (timeoutMs : UInt32) : Kernel ℤ := do
  let r ← forLoop (fun _ (_ : Unit) ↦ do
    let status ← inb (basePort + 7)
    if status &&& 0x80 = 0 ∧ status &&& 0x40 ≠ 0 then
      pure (.error 0)
    else
      pure (.ok ())) (timeoutMs * 1000).toNat 0 ()
  match r with
  | .error r => pure r
  | .ok _ => pure (-1)

/-- `ata_wait_drq`. -/
def ataWaitDrq (basePort : UInt16) (timeoutMs : UInt32) : Kernel ℤ := do
  let r ← forLoop (fun _ (_ : Unit) ↦ do
    let status ← inb (basePort + 7)
    if status &&& 0x01 ≠ 0 then
      pure (.error (-1))
    else if status &&& 0x08 ≠ 0 then
      pure (.error 0)
    else
      pure (.ok ())) (timeoutMs * 1000).toNat 0 ()
  match r with
  | .error r => pure r
  | .ok _ => pure (-1)

/-! ## Commands -/

/-- `ATA_DEV_MASTER` or `ATA_DEV_SLAVE`, with `ATA_DEV_LBA`. -/
def deviceBits (isMaster : Bool) : UInt8 := (if isMaster then 0xA0 else 0xB0) ||| 0x40

/-- The first pass of a 48-bit address through the task file, its upper half. -/
def ataSelectUpper (basePort : UInt16) (lba : UInt64) : Kernel Unit := do
  outb (basePort + 1) 0
  outb (basePort + 2) 0
  outb (basePort + 5) ((lba >>> 24) &&& 0xFF).toUInt8
  outb (basePort + 4) ((lba >>> 32) &&& 0xFF).toUInt8
  outb (basePort + 3) ((lba >>> 40) &&& 0xFF).toUInt8

def ataSelectDrive (basePort : UInt16) (isMaster : Bool) (lba : UInt64) (lba48 : Bool) :
    Kernel Unit := do
  (if lba48 then ataSelectUpper basePort lba else pure ())
  outb (basePort + 6) (deviceBits isMaster ||| ((lba >>> 24) &&& 0x0F).toUInt8)

/-- The second half of `ata_identify`: the answer of the drive. -/
def ataIdentifyReply (basePort : UInt16) : Kernel (Option (ℕ → UInt16)) := do
  let status ← inb (basePort + 7)
  if status = 0 then pure none
  else do
    let ready ← ataWaitReady basePort 1000
    if ready < 0 then pure none
    else do
      let status ← inb (basePort + 7)
      if status &&& 0x01 ≠ 0 then pure none
      else do
        let buf ← forEach (fun i (buf : ℕ → UInt16) ↦ do
          let w ← inw basePort
          pure (Function.update buf i w)) 256 0 (fun _ ↦ 0)
        pure (some buf)

/-- The words of an IDENTIFY answer, or `none` where `ata_identify` returns `-1`. -/
def ataIdentify (basePort : UInt16) (isMaster : Bool) : Kernel (Option (ℕ → UInt16)) := do
  ataSelectDrive basePort isMaster 0 false
  outb (basePort + 7) 0xEC
  ataIdentifyReply basePort

/-- The command of one sector: the drive and the task file, and the command byte last. -/
def ataCommand (basePort : UInt16) (lba : UInt64) (lba48 : Bool) (ext short : UInt8) :
    Kernel Unit := do
  ataSelectDrive basePort false lba lba48
  (if lba48 then outb (basePort + 1) 0 else pure ())
  outb (basePort + 2) 1
  outb (basePort + 3) (lba &&& 0xFF).toUInt8
  outb (basePort + 4) ((lba >>> 8) &&& 0xFF).toUInt8
  outb (basePort + 5) ((lba >>> 16) &&& 0xFF).toUInt8
  outb (basePort + 7) (if lba48 then ext else short)

/-! ## Sectors -/

/-- One sector of `ata_pio_read`: READ SECTORS (EXT), then 256 words from the data port. -/
def ataReadSector (basePort : UInt16) (lba : UInt64) (lba48 : Bool) (sector : UInt32)
    (buf : UInt32 → UInt16) : Kernel (Except (UInt32 → UInt16) (UInt32 → UInt16)) := do
  ataCommand basePort (lba + sector.toUInt64) lba48 0x24 0x20
  let drq ← ataWaitDrq basePort 500
  if drq < 0 then pure (.error buf)
  else do
    let buf ← forEach (fun i (buf : UInt32 → UInt16) ↦ do
      let w ← inw basePort
      pure (Function.update buf (sector * 256 + UInt32.ofNat i) w)) 256 0 buf
    pure (.ok buf)

/-- The result, and the buffer afterwards. -/
def ataPioRead (basePort : UInt16) (lba : UInt64) (count : UInt32) (buffer : UInt32 → UInt16)
    (lba48 : Bool) : Kernel (ℤ × (UInt32 → UInt16)) := do
  let r ← forLoop (fun sector buf ↦ ataReadSector basePort lba lba48 (.ofNat sector) buf)
    count.toNat 0 buffer
  match r with
  | .error buf => pure (-1, buf)
  | .ok buf => pure (0, buf)

/-- One sector of `ata_pio_write`: WRITE SECTORS (EXT), 256 words to the data port, and a flush
of which nobody looks at the outcome. -/
def ataWriteSector (basePort : UInt16) (lba : UInt64) (lba48 : Bool) (buf : UInt32 → UInt16)
    (sector : UInt32) : Kernel (Except Unit Unit) := do
  ataCommand basePort (lba + sector.toUInt64) lba48 0x34 0x30
  let drq ← ataWaitDrq basePort 500
  if drq < 0 then pure (.error ())
  else do
    forEach (fun i (_ : Unit) ↦ outw basePort (buf (sector * 256 + UInt32.ofNat i))) 256 0 ()
    outb (basePort + 7) 0xE7
    let _ ← ataWaitReady basePort 1000
    pure (.ok ())

def ataPioWrite (basePort : UInt16) (lba : UInt64) (count : UInt32) (buffer : UInt32 → UInt16)
    (lba48 : Bool) : Kernel ℤ := do
  let r ← forLoop (fun sector (_ : Unit) ↦
    ataWriteSector basePort lba lba48 buffer (.ofNat sector)) count.toNat 0 ()
  match r with
  | .error _ => pure (-1)
  | .ok _ => pure 0

/-- The `AtaDevice` that `disk->private_data` points to decides everything but the drive. -/
def ataDiskRead (dev : AtaDevice) (lba : UInt64) (count : UInt32) (buffer : UInt32 → UInt16) :
    Kernel (ℤ × (UInt32 → UInt16)) :=
  ataPioRead dev.basePort lba count buffer dev.isLba48

def ataDiskWrite (dev : AtaDevice) (lba : UInt64) (count : UInt32) (buffer : UInt32 → UInt16) :
    Kernel ℤ :=
  ataPioWrite dev.basePort lba count buffer dev.isLba48

/-! ## Detection -/

/-- One of the two channels. -/
inductive Channel where
  | primary | secondary
  deriving DecidableEq, Repr

/-- `ATA_PRIMARY_BASE` or `ATA_SECONDARY_BASE`. -/
def Channel.base : Channel → UInt16
  | .primary => 0x1F0
  | .secondary => 0x170

/-- `ATA_PRIMARY_CTRL` or `ATA_SECONDARY_CTRL`. -/
def Channel.ctrl : Channel → UInt16
  | .primary => 0x3F6
  | .secondary => 0x376

/-- `channels[ch]`. -/
def channels (ch : ℕ) : Channel := if ch = 0 then .primary else .secondary

/-- `sizeof(ata_device_t)`. -/
def sizeofAtaDevice : UInt64 := 24

/-- The `ata_device_t` of a drive. -/
def ataDevice (c : Channel) (drive : ℕ) (identify : ℕ → UInt16) : AtaDevice where
  basePort := c.base
  ctrlPort := c.ctrl
  isMaster := drive = 0
  isLba48 := lba48Supported identify
  maxLba := totalSectors identify - 1

/-- The `disk_t` of a drive. -/
def ataDisk (ch drive : ℕ) (identify : ℕ → UInt16) : Disk where
  name := "ata" ++ toString ch ++ toString drive
  type := .ataPio
  sectors := totalSectors identify
  sectorSize := 512
  sizeBytes := totalSectors identify * 512
  ops := some (.ata (ataDevice (channels ch) drive identify))

/-- The disk to register for a drive that has answered, if there is one. -/
def ataMakeDisk (ch drive : ℕ) (identify : ℕ → UInt16) : Kernel (Option Disk) := do
  if identify 0 &&& 0x8000 ≠ 0 then pure none
  else if totalSectors identify = 0 then pure none
  else do
    match ← malloc sizeofDisk with
    | none => pure none
    | some disk =>
      match ← malloc sizeofAtaDevice with
      | none => do
        free disk.1.addr
        pure none
      | some _ => pure (some (ataDisk ch drive identify))

/-- The loops of `ata_detect_disks` for one drive: the disk to register, if there is one. -/
def ataProbe (ch drive : ℕ) : Kernel (Option Disk) := do
  let identify ← ataIdentify (channels ch).base (drive = 0)
  identify.elim (pure none) (ataMakeDisk ch drive)

/-- The table and the count of disks found after one drive has been tried. -/
def ataDetectDrive (ch drive : ℕ) (s : Registry × ℤ) : Kernel (Registry × ℤ) := do
  match ← ataProbe ch drive with
  | none => pure s
  | some disk => do
    let r ← diskRegister s.1 (some disk)
    pure (r.2, s.2 + 1)

def ataDetectDisks (g : Registry) : Kernel (ℤ × Registry) := do
  let s ← forEach (fun ch s ↦ forEach (fun drive s ↦ ataDetectDrive ch drive s) 2 0 s) 2 0 (g, 0)
  if s.2 = 0 then do
    vgaSetColor .lightRed .black
    vgaWrite "[ATA] Aucun disque ATA detecte\n"
    vgaSetColor .white .black
    pure (s.2, s.1)
  else pure (s.2, s.1)

def ataInit (g : Registry) : Kernel (ℤ × Registry) := do
  vgaSetColor .lightCyan .black
  vgaWrite "[ATA] Initialisation du driver ATA/IDE...\n"
  vgaSetColor .white .black
  ataDetectDisks g

end Aetherion.Ata
