import Aetherion.Base.Peripheral
import Aetherion.Pci.Config

/-!
# Registers that can be written

The functions of `kernel/pci.c` that write to configuration space, and the devices they write to.
What a register makes of a write is its own affair: one keeps every bit, another clears the bits
that are written as ones, and a base address register keeps the bits above the size of its region.
A `Bank` says so for every double word, and `Bank.ports` puts it behind the two ports, so that
`pci_read_config` and `pci_write_config` become its `read` and its `write`.
-/

set_option autoImplicit false

namespace Aetherion.Pci

open Driver Driver.Prog Driver.Peripheral

/-! ## Writing -/

/-- A double word with the `mask` bits at a register replaced. -/
def mergeAt (val mask value : UInt32) (reg : UInt8) : UInt32 :=
  (val &&& ~~~(mask <<< regShift reg)) ||| (value <<< regShift reg)

def pciWriteConfig16 (dev : PciDevice) (reg : UInt8) (value : UInt16) : Kernel Unit := do
  let val ← pciReadConfig dev (reg &&& ~~~3)
  pciWriteConfig dev (reg &&& ~~~3) (mergeAt val 0xFFFF value.toUInt32 reg)

def pciWriteConfig8 (dev : PciDevice) (reg : UInt8) (value : UInt8) : Kernel Unit := do
  let val ← pciReadConfig dev (reg &&& ~~~3)
  pciWriteConfig dev (reg &&& ~~~3) (mergeAt val 0xFF value.toUInt32 reg)

/-- Bits of the command register are set. -/
def pciSetCommand (dev : PciDevice) (bits : UInt16) : Kernel Unit := do
  let cmd ← pciReadConfig16 dev 0x04
  pciWriteConfig16 dev 0x04 (cmd ||| bits)

def pciEnableDevice (dev : PciDevice) : Kernel Unit :=
  pciSetCommand dev (((1 : UInt16) <<< 0) ||| ((1 : UInt16) <<< 1) ||| ((1 : UInt16) <<< 2))

def pciEnableBusMaster (dev : PciDevice) : Kernel Unit := pciSetCommand dev ((1 : UInt16) <<< 2)

/-- The size is computed as a `u32` and returned as an `int`. -/
def pciGetBarSize (dev : PciDevice) (barIndex : ℤ) : Kernel ℤ := do
  if barIndex < 0 ∨ 6 ≤ barIndex then pure 0
  else do
    let originalBar := dev.bar[barIndex.toNat]!
    if originalBar = 0 then pure 0
    else do
      pciWriteConfig dev (.ofNat (0x10 + barIndex.toNat * 4)) 0xFFFFFFFF
      let sizeMask ← pciReadConfig dev (.ofNat (0x10 + barIndex.toNat * 4))
      pciWriteConfig dev (.ofNat (0x10 + barIndex.toNat * 4)) originalBar
      let sizeMask := sizeMask &&& ~~~(if originalBar &&& 1 ≠ 0 then 0x3 else 0xF)
      if sizeMask = 0 then pure 0 else pure (~~~sizeMask + 1).toInt32.toInt

/-! ## The devices -/

/-- The function and the register that an address selects. -/
def selected (address : UInt32) : PciAddress × UInt8 :=
  (⟨.ofNat (address.toNat / 65536), ⟨address.toNat / 2048 % 32, Nat.mod_lt _ (by decide)⟩,
    ⟨address.toNat / 256 % 8, Nat.mod_lt _ (by decide)⟩⟩, .ofNat address.toNat)

/-- Registers with a state: what each double word reads as, and what a write to it does. -/
structure Bank (σ : Type) where
  /-- What a double word reads as. -/
  read : σ → PciAddress → UInt8 → UInt32
  /-- The state after a write to one. -/
  write : σ → PciAddress → UInt8 → UInt32 → σ

/-- Registers behind the two ports.  The state is that of the address register and of the bank. -/
def Bank.ports {σ : Type} (bank : Bank σ) : Peripheral machine (UInt32 × σ) where
  reply s i :=
    match i with
    | .inl port =>
      if port = 0xCFC then bank.read s.2 (selected s.1).1 (selected s.1).2 else (0 : UInt32)
    | .inb _ => (0 : UInt8)
    | .inw _ => (0 : UInt16)
    | .mmio _ => (0 : UInt32)
    | .load32 _ => (0 : UInt32)
    | .dma _ => fun _ ↦ (0 : UInt16)
    | .malloc _ => none
  step s
    | .out (.outl port val) =>
      if port = 0xCF8 then (val, s.2)
      else if port = 0xCFC then (s.1, bank.write s.2 (selected s.1).1 (selected s.1).2 val)
      else s
    | _ => s

/-! ## What the readers and writers do -/

/-- The address of the double word that a register is in. -/
def PciAddress.dwordAddress (a : PciAddress) (reg : UInt8) : UInt32 :=
  pciMakeAddress a.bus (.ofNat a.device) (.ofNat a.function) reg

/-- An address selects the function and the register whose fields it has. -/
theorem selected_eq {address : UInt32} {a : PciAddress} {r : UInt8}
    (h : address.toNat =
      2 ^ 31 + 65536 * a.bus.toNat + 2048 * a.device + 256 * a.function + r.toNat) :
    selected address = (a, r) := by
  have hbus := a.bus.toNat_lt
  have hreg := r.toNat_lt
  have hdevice := a.device.isLt
  have hfunction := a.function.isLt
  have hbus' : UInt8.ofNat (address.toNat / 65536) = a.bus := by
    rw [← UInt8.toNat_inj, UInt8.toNat_ofNat']
    omega
  have hreg' : UInt8.ofNat address.toNat = r := by
    rw [← UInt8.toNat_inj, UInt8.toNat_ofNat']
    omega
  have hdevice' : address.toNat / 2048 % 32 = a.device := by omega
  have hfunction' : address.toNat / 256 % 8 = a.function := by omega
  refine Prod.ext ?_ hreg'
  obtain ⟨bus, device, function⟩ := a
  change PciAddress.mk _ _ _ = _
  rw [PciAddress.mk.injEq]
  exact ⟨hbus', Fin.ext hdevice', Fin.ext hfunction'⟩

theorem selected_dwordAddress (a : PciAddress) (reg : UInt8) :
    selected (a.dwordAddress reg) = (a, reg &&& 0xFC) := selected_eq (toNat_pciMakeAddress a reg)

section
variable {σ : Type} {bank : Bank σ} {d : PciDevice} {a : PciAddress} {s₀ : UInt32 × σ} {x : UInt32}
  {s : σ}

theorem runs_pciReadConfig (hd : d.At a) (reg : UInt8) :
    bank.ports.Runs s₀ (pciReadConfig d reg) (x, s) (bank.read s a (reg &&& 0xFC))
      (a.dwordAddress reg, s) := by
  obtain ⟨hbus, hdevice, hfunction⟩ := hd
  rw [pciReadConfig, hbus, hdevice, hfunction]
  refine (runs_emit _).bind ((runs_ask _).of_eq ?_ rfl)
  change bank.read s (selected (a.dwordAddress reg)).1 (selected (a.dwordAddress reg)).2 = _
  rw [selected_dwordAddress]

theorem runs_pciWriteConfig (hd : d.At a) (reg : UInt8) (value : UInt32) :
    bank.ports.Runs s₀ (pciWriteConfig d reg value) (x, s) ()
      (a.dwordAddress reg, bank.write s a (reg &&& 0xFC) value) := by
  obtain ⟨hbus, hdevice, hfunction⟩ := hd
  rw [pciWriteConfig, hbus, hdevice, hfunction]
  refine (runs_emit _).bind ((runs_emit _).of_eq rfl ?_)
  change (a.dwordAddress reg, bank.write s (selected (a.dwordAddress reg)).1
    (selected (a.dwordAddress reg)).2 value) = _
  rw [selected_dwordAddress]

/-- The double word that a register is in. -/
def dwordOf (reg : UInt8) : UInt8 := reg &&& 0xFC

theorem and_not_3 (reg : UInt8) : reg &&& ~~~3 &&& 0xFC = dwordOf reg := by
  rw [UInt8.and_assoc]
  rfl

theorem runs_readDword (hd : d.At a) (reg : UInt8) :
    bank.ports.Runs s₀ (pciReadConfig d (reg &&& ~~~3)) (x, s) (bank.read s a (dwordOf reg))
      (a.dwordAddress (reg &&& ~~~3), s) := by
  have hread : bank.ports.Runs s₀ (pciReadConfig d (reg &&& ~~~3)) (x, s) _ _ :=
    runs_pciReadConfig hd _
  rwa [and_not_3] at hread

theorem runs_pciReadConfig16 (hd : d.At a) (reg : UInt8) :
    bank.ports.Runs s₀ (pciReadConfig16 d reg) (x, s)
      ((bank.read s a (dwordOf reg) >>> regShift reg) &&& 0xFFFF).toUInt16
      (a.dwordAddress (reg &&& ~~~3), s) := (runs_readDword hd reg).bind (runs_pure _)

theorem runs_pciReadConfig8 (hd : d.At a) (reg : UInt8) :
    bank.ports.Runs s₀ (pciReadConfig8 d reg) (x, s)
      ((bank.read s a (dwordOf reg) >>> regShift reg) &&& 0xFF).toUInt8
      (a.dwordAddress (reg &&& ~~~3), s) := (runs_readDword hd reg).bind (runs_pure _)

/-- A double word is read and written back, with some of its bits replaced. -/
theorem runs_merge (hd : d.At a) (reg : UInt8) (mask value : UInt32) :
    bank.ports.Runs s₀ (do
      let val ← pciReadConfig d (reg &&& ~~~3)
      pciWriteConfig d (reg &&& ~~~3) (mergeAt val mask value reg)) (x, s) ()
      (a.dwordAddress (reg &&& ~~~3), bank.write s a (dwordOf reg)
        (mergeAt (bank.read s a (dwordOf reg)) mask value reg)) := by
  refine (runs_readDword hd reg).bind ((runs_pciWriteConfig hd _ _).of_eq rfl ?_)
  rw [and_not_3]

theorem runs_pciWriteConfig16 (hd : d.At a) (reg : UInt8) (value : UInt16) :
    bank.ports.Runs s₀ (pciWriteConfig16 d reg value) (x, s) ()
      (a.dwordAddress (reg &&& ~~~3), bank.write s a (dwordOf reg)
        (mergeAt (bank.read s a (dwordOf reg)) 0xFFFF value.toUInt32 reg)) :=
  runs_merge hd reg 0xFFFF value.toUInt32

theorem runs_pciWriteConfig8 (hd : d.At a) (reg : UInt8) (value : UInt8) :
    bank.ports.Runs s₀ (pciWriteConfig8 d reg value) (x, s) ()
      (a.dwordAddress (reg &&& ~~~3), bank.write s a (dwordOf reg)
        (mergeAt (bank.read s a (dwordOf reg)) 0xFF value.toUInt32 reg)) :=
  runs_merge hd reg 0xFF value.toUInt32

end

end Aetherion.Pci
