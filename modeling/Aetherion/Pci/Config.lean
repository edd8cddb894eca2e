import Mathlib.Data.Fintype.Basic
import Aetherion.Base.Confined
import Aetherion.Base.Words
import Aetherion.Hardware

/-!
# PCI configuration space

The configuration registers of a function are reached through two ports: the driver writes an
address to one and reads the double word from the other.  A `ConfigSpace` says what every address
reads as, and `Serves dev cs h` that after the history `h` the machine's two ports give access to
it, until a register is written.  Next to a machine where they always do (`ServesAlways`), each of
the functions of `kernel/pci.c` that read returns what stands in the space at the function's own
registers, whatever was exchanged before.
-/

set_option autoImplicit false

namespace Aetherion.Pci

open Driver Driver.Prog

/-- `pci_device_t`. -/
structure PciDevice where
  /-- `vendor_id`. -/
  vendorId : UInt16
  /-- `device_id`. -/
  deviceId : UInt16
  /-- `command`. -/
  command : UInt16
  /-- `status`. -/
  status : UInt16
  /-- `revision_id`. -/
  revisionId : UInt8
  /-- `prog_if`. -/
  progIf : UInt8
  /-- `subclass`. -/
  subclass : UInt8
  /-- `class_code`. -/
  classCode : UInt8
  /-- `cache_line_size`. -/
  cacheLineSize : UInt8
  /-- `latency_timer`. -/
  latencyTimer : UInt8
  /-- `header_type`. -/
  headerType : UInt8
  /-- `bist`. -/
  bist : UInt8
  /-- `bar`. -/
  bar : Vector UInt32 6
  /-- `cardbus_cis`. -/
  cardbusCis : UInt32
  /-- `subsystem_vendor_id`. -/
  subsystemVendorId : UInt16
  /-- `subsystem_id`. -/
  subsystemId : UInt16
  /-- `expansion_rom`. -/
  expansionRom : UInt32
  /-- `capabilities_ptr`. -/
  capabilitiesPtr : UInt8
  /-- `interrupt_line`. -/
  interruptLine : UInt8
  /-- `interrupt_pin`. -/
  interruptPin : UInt8
  /-- `min_grant`. -/
  minGrant : UInt8
  /-- `max_latency`. -/
  maxLatency : UInt8
  /-- `bus`. -/
  bus : UInt8
  /-- `device`. -/
  device : UInt8
  /-- `function`. -/
  function : UInt8
  deriving DecidableEq

/-- What `memset` leaves. -/
def PciDevice.blank : PciDevice :=
  ⟨0, 0, 0, 0, 0, 0, 0, 0, 0, 0, 0, 0, .replicate 6 0, 0, 0, 0, 0, 0, 0, 0, 0, 0, 0, 0, 0⟩

/-! ## Reading -/

def pciMakeAddress (bus device function reg : UInt8) : UInt32 :=
  ((1 : UInt32) <<< 31) ||| (bus.toUInt32 <<< 16) ||| (device.toUInt32 <<< 11) |||
    (function.toUInt32 <<< 8) ||| (reg &&& 0xFC).toUInt32

def pciReadConfig (dev : PciDevice) (reg : UInt8) : Kernel UInt32 := do
  outl 0xCF8 (pciMakeAddress dev.bus dev.device dev.function reg)
  inl 0xCFC

def pciWriteConfig (dev : PciDevice) (reg : UInt8) (value : UInt32) : Kernel Unit := do
  outl 0xCF8 (pciMakeAddress dev.bus dev.device dev.function reg)
  outl 0xCFC value

/-- How far the byte `reg` lies from the bottom of its double word, in bits. -/
def regShift (reg : UInt8) : UInt32 := (reg &&& 3).toUInt32 * 8

def pciReadConfig16 (dev : PciDevice) (reg : UInt8) : Kernel UInt16 := do
  let val ← pciReadConfig dev (reg &&& ~~~3)
  pure ((val >>> regShift reg) &&& 0xFFFF).toUInt16

def pciReadConfig8 (dev : PciDevice) (reg : UInt8) : Kernel UInt8 := do
  let val ← pciReadConfig dev (reg &&& ~~~3)
  pure ((val >>> regShift reg) &&& 0xFF).toUInt8

def pciDeviceExists (bus device function : UInt8) : Kernel Bool := do
  outl 0xCF8 (pciMakeAddress bus device function 0)
  let vendorDevice ← inl 0xCFC
  pure (vendorDevice ≠ 0xFFFFFFFF ∧ vendorDevice ≠ 0)

/-- The loop of `pci_read_device_info` over the base address registers. -/
def pciReadBars (dev : PciDevice) : Kernel (Vector UInt32 6) :=
  forEach (fun i bar ↦ do
    let val ← pciReadConfig dev (.ofNat (0x10 + i * 4))
    pure (bar.setIfInBounds i val)) 6 0 dev.bar

/-- The device with the fields that are filled from its registers. -/
def pciReadDeviceInfo (dev : PciDevice) : Kernel PciDevice := do
  let vendorId ← pciReadConfig16 dev 0x00
  let deviceId ← pciReadConfig16 dev 0x02
  let command ← pciReadConfig16 dev 0x04
  let status ← pciReadConfig16 dev 0x06
  let revisionId ← pciReadConfig8 dev 0x08
  let progIf ← pciReadConfig8 dev 0x09
  let subclass ← pciReadConfig8 dev 0x0A
  let classCode ← pciReadConfig8 dev 0x0B
  let cacheLineSize ← pciReadConfig8 dev 0x0C
  let latencyTimer ← pciReadConfig8 dev 0x0D
  let headerType ← pciReadConfig8 dev 0x0E
  let bist ← pciReadConfig8 dev 0x0F
  let bar ← pciReadBars dev
  let cardbusCis ← pciReadConfig dev 0x28
  let subsystemVendorId ← pciReadConfig16 dev 0x2C
  let subsystemId ← pciReadConfig16 dev 0x2E
  let expansionRom ← pciReadConfig dev 0x30
  let capabilitiesPtr ← pciReadConfig8 dev 0x34
  let interruptLine ← pciReadConfig8 dev 0x3C
  let interruptPin ← pciReadConfig8 dev 0x3D
  let minGrant ← pciReadConfig8 dev 0x3E
  let maxLatency ← pciReadConfig8 dev 0x3F
  pure { dev with
    vendorId, deviceId, command, status, revisionId, progIf, subclass, classCode, cacheLineSize
    latencyTimer, headerType, bist, bar, cardbusCis, subsystemVendorId, subsystemId, expansionRom
    capabilitiesPtr, interruptLine, interruptPin, minGrant, maxLatency }

/-! ## The space behind the two ports -/

/-- What every configuration address reads as. -/
abbrev ConfigSpace := UInt32 → UInt32

/-- The address register. -/
def addressPort : Observer machine UInt32 Empty where
  step address e :=
    match e with
    | .out (.outl port val) => (if port = 0xCF8 then val else address, [])
    | _ => (address, [])

/-- The write is to a register of a function. -/
def IsConfigWrite : Out → Prop
  | .outb p _ | .outw p _ | .outl p _ => 0xCFC ≤ p ∧ p ≤ 0xCFF
  | _ => False

/-- All exchanges but the writes to registers of functions. -/
def configReads : Part machine := ⟨fun _ ↦ True, fun o ↦ ¬IsConfigWrite o⟩

/-- After the history `h`, and until a register of a function is written, the machine gives access
to the configuration space through the two ports. -/
def Serves (dev : Device machine) (cs : ConfigSpace) (h : Trace machine) : Prop :=
  ∀ t, (∀ e ∈ t, configReads.Has e) →
    dev (h ++ t) (.inl 0xCFC) = cs (addressPort.after 0 (h ++ t))

/-- The machine does so at all times.  There is nothing to be written on it. -/
def ServesAlways (dev : Device machine) (cs : ConfigSpace) : Prop :=
  ∀ h, dev h (.inl 0xCFC) = cs (addressPort.after 0 h)

theorem ServesAlways.serves {dev : Device machine} {cs : ConfigSpace} (hs : ServesAlways dev cs)
    (h : Trace machine) : Serves dev cs h := fun t _ ↦ hs (h ++ t)

/-- Nothing has been written since. -/
theorem Serves.append {dev : Device machine} {cs : ConfigSpace} {h t : Trace machine}
    (hs : Serves dev cs h) (ht : ∀ e ∈ t, configReads.Has e) : Serves dev cs (h ++ t) := by
  intro u hu
  rw [List.append_assoc]
  exact hs (t ++ u) fun e he ↦ (List.mem_append.mp he).elim (ht e) (hu e)

/-- A machine with this configuration space and nothing else. -/
def configMachine (cs : ConfigSpace) : Device machine := fun h i ↦
  match i with
  | .inb _ => (0 : UInt8)
  | .inw _ => (0 : UInt16)
  | .inl port => if port = 0xCFC then cs (addressPort.after 0 h) else (0 : UInt32)
  | .mmio _ => (0 : UInt32)
  | .load32 _ => (0 : UInt32)
  | .dma _ => fun _ ↦ (0 : UInt16)
  | .malloc _ => none

theorem servesAlways_configMachine (cs : ConfigSpace) : ServesAlways (configMachine cs) cs :=
  fun _ ↦ rfl

theorem serves_configMachine (cs : ConfigSpace) (h : Trace machine) :
    Serves (configMachine cs) cs h := (servesAlways_configMachine cs).serves h

/-- Where a function sits. -/
structure PciAddress where
  /-- The bus. -/
  bus : UInt8
  /-- The device on the bus. -/
  device : Fin 32
  /-- The function of the device. -/
  function : Fin 8
  deriving DecidableEq

/-- The fields of a configuration address do not overlap. -/
theorem toNat_pciMakeAddress (a : PciAddress) (reg : UInt8) :
    (pciMakeAddress a.bus (.ofNat a.device) (.ofNat a.function) reg).toNat =
      2 ^ 31 + 65536 * a.bus.toNat + 2048 * a.device + 256 * a.function +
        (reg &&& 0xFC).toNat := by
  have hbus := a.bus.toNat_lt
  have hreg := (reg &&& 0xFC).toNat_lt
  have hdevice : (UInt8.ofNat a.device).toNat = a.device := by
    rw [UInt8.toNat_ofNat', Nat.mod_eq_of_lt (by omega)]
  have hfunction : (UInt8.ofNat a.function).toNat = a.function := by
    rw [UInt8.toNat_ofNat', Nat.mod_eq_of_lt (by omega)]
  simp only [pciMakeAddress, UInt32.toNat_or, UInt32.toNat_shiftLeft, UInt8.toNat_toUInt32,
    hdevice, hfunction, UInt32.reduceToNat, Nat.shiftLeft_eq, Nat.reduceMod, Nat.reducePow,
    Nat.reduceMul]
  generalize a.bus.toNat = b at *
  generalize (reg &&& 0xFC).toNat = r at *
  rw [Nat.mod_eq_of_lt (show b * 65536 < 4294967296 by omega),
    Nat.mod_eq_of_lt (show a.device.val * 2048 < 4294967296 by omega),
    Nat.mod_eq_of_lt (show a.function.val * 256 < 4294967296 by omega),
    Words.or_eq_add (a := 2147483648) 24 (by omega) (by omega),
    Words.or_eq_add (b := a.device.val * 2048) 16 (by omega) (by omega),
    Words.or_eq_add (b := a.function.val * 256) 11 (by omega) (by omega),
    Words.or_eq_add (b := r) 8 (by omega) (by omega)]
  omega

namespace ConfigSpace

variable (cs : ConfigSpace) (a : PciAddress)

/-- A double word of a function's registers. -/
def dword (reg : UInt8) : UInt32 :=
  cs (pciMakeAddress a.bus (.ofNat a.device) (.ofNat a.function) reg)

/-- A word of a function's registers. -/
def word (reg : UInt8) : UInt16 :=
  ((cs.dword a (reg &&& ~~~3) >>> regShift reg) &&& 0xFFFF).toUInt16

/-- A byte of a function's registers. -/
def byte (reg : UInt8) : UInt8 :=
  ((cs.dword a (reg &&& ~~~3) >>> regShift reg) &&& 0xFF).toUInt8

/-- There is a function at the address. -/
def Exists : Prop := cs.dword a 0 ≠ 0xFFFFFFFF ∧ cs.dword a 0 ≠ 0

instance : Decidable (cs.Exists a) := inferInstanceAs (Decidable (_ ∧ _))

/-- The function is a PCI-PCI bridge. -/
def IsBridge : Prop := cs.byte a 0x0B = 0x06 ∧ cs.byte a 0x0A = 0x04

instance : Decidable (cs.IsBridge a) := inferInstanceAs (Decidable (_ ∧ _))

/-- The bus behind a bridge. -/
def secondaryBus : UInt8 := cs.byte a 0x19

/-- The entry with the function's own address and register contents. -/
def entry : PciDevice where
  vendorId := cs.word a 0x00
  deviceId := cs.word a 0x02
  command := cs.word a 0x04
  status := cs.word a 0x06
  revisionId := cs.byte a 0x08
  progIf := cs.byte a 0x09
  subclass := cs.byte a 0x0A
  classCode := cs.byte a 0x0B
  cacheLineSize := cs.byte a 0x0C
  latencyTimer := cs.byte a 0x0D
  headerType := cs.byte a 0x0E
  bist := cs.byte a 0x0F
  bar := .ofFn fun i ↦ cs.dword a (.ofNat (0x10 + i * 4))
  cardbusCis := cs.dword a 0x28
  subsystemVendorId := cs.word a 0x2C
  subsystemId := cs.word a 0x2E
  expansionRom := cs.dword a 0x30
  capabilitiesPtr := cs.byte a 0x34
  interruptLine := cs.byte a 0x3C
  interruptPin := cs.byte a 0x3D
  minGrant := cs.byte a 0x3E
  maxLatency := cs.byte a 0x3F
  bus := a.bus
  device := .ofNat a.device
  function := .ofNat a.function

end ConfigSpace

/-- The entry of the function at an address, before its registers are read. -/
def PciAddress.blankEntry (a : PciAddress) : PciDevice :=
  { PciDevice.blank with bus := a.bus, device := .ofNat a.device, function := .ofNat a.function }

/-! ## What the readers return -/

section
variable {dev : Device machine} {cs : ConfigSpace} {d : PciDevice} {a : PciAddress}

/-- The entry carries the address of the function. -/
def PciDevice.At (d : PciDevice) (a : PciAddress) : Prop :=
  d.bus = a.bus ∧ d.device = .ofNat a.device ∧ d.function = .ofNat a.function

theorem entry_at (cs : ConfigSpace) (a : PciAddress) : (cs.entry a).At a := ⟨rfl, rfl, rfl⟩

theorem blankEntry_at (a : PciAddress) : a.blankEntry.At a := ⟨rfl, rfl, rfl⟩

/-- An address written, and the data port read. -/
theorem value_inl_config (hs : ServesAlways dev cs) (address : UInt32) (h : Trace machine) :
    (inl 0xCFC).value dev (h ++ (outl 0xCF8 address).trace dev h) = cs address := by
  change dev _ (.inl 0xCFC) = cs address
  rw [hs, Observer.after_append]
  rfl

theorem value_pciReadConfig (hs : ServesAlways dev cs) (hd : d.At a) (reg : UInt8)
    (h : Trace machine) : (pciReadConfig d reg).value dev h = cs.dword a reg := by
  obtain ⟨hbus, hdevice, hfunction⟩ := hd
  rw [pciReadConfig, value_bind, value_inl_config hs, hbus, hdevice, hfunction]
  rfl

theorem value_pciReadConfig16 (hs : ServesAlways dev cs) (hd : d.At a) (reg : UInt8)
    (h : Trace machine) : (pciReadConfig16 d reg).value dev h = cs.word a reg := by
  rw [pciReadConfig16, value_bind, value_pure, value_pciReadConfig hs hd]
  rfl

theorem value_pciReadConfig8 (hs : ServesAlways dev cs) (hd : d.At a) (reg : UInt8)
    (h : Trace machine) : (pciReadConfig8 d reg).value dev h = cs.byte a reg := by
  rw [pciReadConfig8, value_bind, value_pure, value_pciReadConfig hs hd]
  rfl

theorem value_pciDeviceExists (hs : ServesAlways dev cs) (a : PciAddress) (h : Trace machine) :
    (pciDeviceExists a.bus (.ofNat a.device) (.ofNat a.function)).value dev h =
      decide (cs.Exists a) := by
  rw [pciDeviceExists, value_bind, value_bind, value_pure, value_inl_config hs]
  rfl

theorem value_pciReadBars (hs : ServesAlways dev cs) (hd : d.At a) (h : Trace machine) :
    (pciReadBars d).value dev h = .ofFn fun i ↦ cs.dword a (.ofNat (0x10 + i * 4)) := by
  refine Vector.ext fun i hi ↦ ?_
  simp only [pciReadBars, forEach, value_bind, value_pure, value_pciReadConfig hs hd,
    Vector.getElem_setIfInBounds, Vector.getElem_ofFn]
  split_ifs <;> first | (subst_vars; rfl) | omega

/-- **The fields are filled with the function's own registers.** -/
theorem returns_pciReadDeviceInfo (hs : ServesAlways dev cs) (a : PciAddress) :
    Returns dev (· = cs.entry a) (pciReadDeviceInfo a.blankEntry) := by
  have hd := blankEntry_at a
  have h8 := value_pciReadConfig8 hs hd
  have h16 := value_pciReadConfig16 hs hd
  have h32 := value_pciReadConfig hs hd
  refine returns_bind_eq (h16 0x00) <| returns_bind_eq (h16 0x02) <| returns_bind_eq (h16 0x04) <|
    returns_bind_eq (h16 0x06) <| returns_bind_eq (h8 0x08) <| returns_bind_eq (h8 0x09) <|
    returns_bind_eq (h8 0x0A) <| returns_bind_eq (h8 0x0B) <| returns_bind_eq (h8 0x0C) <|
    returns_bind_eq (h8 0x0D) <| returns_bind_eq (h8 0x0E) <| returns_bind_eq (h8 0x0F) <|
    returns_bind_eq (value_pciReadBars hs hd) <| returns_bind_eq (h32 0x28) <|
    returns_bind_eq (h16 0x2C) <| returns_bind_eq (h16 0x2E) <| returns_bind_eq (h32 0x30) <|
    returns_bind_eq (h8 0x34) <| returns_bind_eq (h8 0x3C) <| returns_bind_eq (h8 0x3D) <|
    returns_bind_eq (h8 0x3E) <| returns_bind_eq (h8 0x3F) <| returns_pure ?_
  rfl

end

end Aetherion.Pci
