import Aetherion.Ahci.Driver
import Aetherion.Pci.Config

/-!
# The two ways into configuration space

`pci_read_config` writes the configuration address as a double word.  `pci_read32`, which the AHCI
driver has for itself, writes the same address a byte at a time, and puts the highest byte into the
lowest lane.  So it latches the address with its bytes in reverse order, and reads the register it
means only where that makes no difference (`paths_agree_iff`).
-/

set_option autoImplicit false

namespace Aetherion.Pci

open Driver Driver.Prog Ahci

/-! ## The address register, lane by lane -/

/-- The address register: its byte lanes, the lowest one at port `0xCF8`. -/
structure AddressLanes where
  /-- The lane of port `0xCF8`. -/
  lane0 : UInt8
  /-- The lane of port `0xCF9`. -/
  lane1 : UInt8
  /-- The lane of port `0xCFA`. -/
  lane2 : UInt8
  /-- The lane of port `0xCFB`. -/
  lane3 : UInt8

namespace AddressLanes

/-- What a write of a double word leaves. -/
def ofWord (x : UInt32) : AddressLanes :=
  ⟨(x &&& 0xFF).toUInt8, ((x >>> 8) &&& 0xFF).toUInt8, ((x >>> 16) &&& 0xFF).toUInt8,
    ((x >>> 24) &&& 0xFF).toUInt8⟩

/-- The address that is latched. -/
def value (l : AddressLanes) : UInt32 := Words.ofBytes32 l.lane0 l.lane1 l.lane2 l.lane3

@[simp] theorem value_ofWord (x : UInt32) : (ofWord x).value = x := Words.ofBytes32_bytes32 x

end AddressLanes

/-- The two ports, with byte access to the address register.  Every write to the data port is
reported, with the address it goes to. -/
def configPorts : Observer machine AddressLanes (UInt32 × UInt32) where
  step l
    | .out (.outb port val) =>
      if port = 0xCF8 then ({ l with lane0 := val }, [])
      else if port = 0xCF9 then ({ l with lane1 := val }, [])
      else if port = 0xCFA then ({ l with lane2 := val }, [])
      else if port = 0xCFB then ({ l with lane3 := val }, [])
      else (l, [])
    | .out (.outl port val) =>
      if port = 0xCF8 then (.ofWord val, [])
      else if port = 0xCFC then (l, [(l.value, val)])
      else (l, [])
    | _ => (l, [])

/-- The machine gives access to the configuration space through these ports. -/
def ServesLanes (dev : Device machine) (cs : ConfigSpace) : Prop :=
  ∀ h, dev h (.inl 0xCFC) = cs (configPorts.after ⟨0, 0, 0, 0⟩ h).value

/-- **The two access paths agree** on a register of a function: both latch the same address, read
the same double word of every configuration space, and write to the same place. -/
structure PathsAgree (a : PciAddress) (reg : UInt8) : Prop where
  latched : ∀ d : PciDevice, d.At a → ∀ dev h l,
    (configPorts.after l
      ((pciRead32 a.bus (.ofNat a.device) (.ofNat a.function) reg).trace dev h)).value =
        (configPorts.after l ((pciReadConfig d reg).trace dev h)).value
  read : ∀ d : PciDevice, d.At a → ∀ dev cs, ServesLanes dev cs → ∀ h,
    (pciRead32 a.bus (.ofNat a.device) (.ofNat a.function) reg).value dev h =
      (pciReadConfig d reg).value dev h
  written : ∀ d : PciDevice, d.At a → ∀ val dev h l,
    configPorts.reports l
        ((pciWrite32 a.bus (.ofNat a.device) (.ofNat a.function) reg val).trace dev h) =
      configPorts.reports l ((pciWriteConfig d reg val).trace dev h)

/-! ## What each path latches -/

/-- The address with its bytes in reverse order. -/
def reversed (x : UInt32) : AddressLanes :=
  ⟨(x >>> 24).toUInt8, (x >>> 16).toUInt8, (x >>> 8).toUInt8, x.toUInt8⟩

section
variable {a : PciAddress} {d : PciDevice} {dev : Device machine} {h : Trace machine}

/-- The address of a register. -/
def PciAddress.register (a : PciAddress) (reg : UInt8) : UInt32 :=
  pciMakeAddress a.bus (.ofNat a.device) (.ofNat a.function) reg

theorem after_pciRead32 (reg : UInt8) (l : AddressLanes) :
    configPorts.after l ((pciRead32 a.bus (.ofNat a.device) (.ofNat a.function) reg).trace dev h) =
      reversed (a.register reg) := rfl

theorem reports_pciWrite32 (reg : UInt8) (val : UInt32) (l : AddressLanes) :
    configPorts.reports l
        ((pciWrite32 a.bus (.ofNat a.device) (.ofNat a.function) reg val).trace dev h) =
      [((reversed (a.register reg)).value, val)] := rfl

theorem after_pciReadConfig (hd : d.At a) (reg : UInt8) (l : AddressLanes) :
    configPorts.after l ((pciReadConfig d reg).trace dev h) = .ofWord (a.register reg) := by
  obtain ⟨hbus, hdevice, hfunction⟩ := hd
  rw [PciAddress.register, ← hbus, ← hdevice, ← hfunction]
  rfl

theorem reports_pciWriteConfig (hd : d.At a) (reg : UInt8) (val : UInt32) (l : AddressLanes) :
    configPorts.reports l ((pciWriteConfig d reg val).trace dev h) =
      [(a.register reg, val)] := by
  obtain ⟨hbus, hdevice, hfunction⟩ := hd
  have hrep : configPorts.reports l ((pciWriteConfig d reg val).trace dev h) =
      [((AddressLanes.ofWord (a.register reg)).value, val)] := by
    rw [PciAddress.register, ← hbus, ← hdevice, ← hfunction]
    rfl
  rw [hrep, AddressLanes.value_ofWord]

/-- What `pci_read32` returns. -/
theorem value_pciRead32 {cs : ConfigSpace} (hs : ServesLanes dev cs) (reg : UInt8) :
    (pciRead32 a.bus (.ofNat a.device) (.ofNat a.function) reg).value dev h =
      cs (reversed (a.register reg)).value := by
  have hread := hs (h ++ [.out (.outb 0xCF8 (a.register reg >>> 24).toUInt8)] ++
    [.out (.outb 0xCF9 (a.register reg >>> 16).toUInt8)] ++
    [.out (.outb 0xCFA (a.register reg >>> 8).toUInt8)] ++
    [.out (.outb 0xCFB (a.register reg).toUInt8)])
  simp only [Observer.after_append] at hread
  exact hread

/-- What `pci_read_config` returns. -/
theorem value_pciReadConfig_lanes {cs : ConfigSpace} (hs : ServesLanes dev cs) (hd : d.At a)
    (reg : UInt8) : (pciReadConfig d reg).value dev h = cs (a.register reg) := by
  obtain ⟨hbus, hdevice, hfunction⟩ := hd
  have hread := hs (h ++ [.out (.outl 0xCF8 (a.register reg))])
  rw [Observer.after_append] at hread
  rw [PciAddress.register, ← hbus, ← hdevice, ← hfunction] at hread ⊢
  exact hread.trans (congrArg cs (AddressLanes.value_ofWord _))

/-- **The bytes of an address read the same in both directions** for one register of one function
on each of the 256 buses. -/
theorem reversed_eq_iff (a : PciAddress) (reg : UInt8) :
    (reversed (a.register reg)).value = a.register reg ↔
      reg &&& 0xFC = 0x80 ∧ a.bus.toNat = 8 * a.device + a.function := by
  have hnat := toNat_pciMakeAddress a reg
  have hbus := a.bus.toNat_lt
  have hreg := (reg &&& 0xFC).toNat_lt
  have hbyte (k : UInt32) (hk : k.toNat < 32) :
      (a.register reg >>> k).toUInt8.toNat = (a.register reg).toNat / 2 ^ k.toNat % 256 := by
    rw [UInt32.toNat_toUInt8, UInt32.toNat_shiftRight, Nat.mod_eq_of_lt hk,
      Nat.shiftRight_eq_div_pow]
  -- the four bytes, from the highest
  have h24 : (a.register reg >>> 24).toUInt8.toNat = 128 := by
    rw [hbyte 24 (by decide), PciAddress.register, hnat, show UInt32.toNat 24 = 24 from rfl]
    omega
  have h16 : (a.register reg >>> 16).toUInt8.toNat = a.bus.toNat := by
    rw [hbyte 16 (by decide), PciAddress.register, hnat, show UInt32.toNat 16 = 16 from rfl]
    omega
  have h8 : (a.register reg >>> 8).toUInt8.toNat = 8 * a.device + a.function := by
    rw [hbyte 8 (by decide), PciAddress.register, hnat, show UInt32.toNat 8 = 8 from rfl]
    omega
  have h0 : (a.register reg).toUInt8.toNat = (reg &&& 0xFC).toNat := by
    rw [UInt32.toNat_toUInt8, PciAddress.register, hnat]
    omega
  rw [← UInt32.toNat_inj, ← UInt8.toNat_inj, AddressLanes.value, Words.toNat_ofBytes32, reversed,
    h24, h16, h8, h0, PciAddress.register, hnat, show UInt8.toNat 0x80 = 128 from rfl]
  omega

end

/-- **The two paths agree** on one register of one function of each bus: the one whose address
reads the same in both directions. -/
theorem paths_agree_iff (a : PciAddress) (reg : UInt8) :
    PathsAgree a reg ↔ reg &&& 0xFC = 0x80 ∧ a.bus.toNat = 8 * a.device + a.function := by
  rw [← reversed_eq_iff]
  constructor
  · intro hagree
    have hlatched := hagree.latched a.blankEntry (blankEntry_at a) (steadyMachine 0 0 0) []
      ⟨0, 0, 0, 0⟩
    rwa [after_pciRead32, after_pciReadConfig (blankEntry_at a), AddressLanes.value_ofWord]
      at hlatched
  · intro heq
    refine ⟨?_, ?_, ?_⟩
    · intro d hd dev h l
      rw [after_pciRead32, after_pciReadConfig hd, AddressLanes.value_ofWord, heq]
    · intro d hd dev cs hs h
      rw [value_pciRead32 hs, value_pciReadConfig_lanes hs hd, heq]
    · intro d hd val dev h l
      rw [reports_pciWrite32, reports_pciWriteConfig hd, heq]

/-- The class register of the first function of all is not read by the AHCI driver. -/
theorem class_register_missed : ¬PathsAgree ⟨0, 0, 0⟩ 0x08 := by
  intro hagree
  have hlatched := hagree.latched (PciAddress.blankEntry ⟨0, 0, 0⟩) (blankEntry_at _)
    (steadyMachine 0 0 0) [] ⟨0, 0, 0, 0⟩
  exact absurd hlatched (by decide)

end Aetherion.Pci
