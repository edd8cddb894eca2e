import Aetherion.Pci.Faithful

/-!
# Searching and listing the table

The loops over `pci_devices` run up to `pci_device_count`, and nothing but the scan holds that to
the size of the array.  So the model lets them run, and a read past the end of the array is the
answer `none`.
-/

set_option autoImplicit false

namespace Aetherion.Pci

open Driver Driver.Prog

/-- The common loop of the searches, with `n` entries to go: the place of the first entry that
matches. -/
def PciTable.searchFrom (t : PciTable) (p : PciDevice → Bool) : ℕ → ℕ → Option (Option ℕ)
  | 0, _ => some none
  | n + 1, i => do
    let d ← t.devices[i]?
    if p d then some (some i) else t.searchFrom p n (i + 1)

def PciTable.search (t : PciTable) (p : PciDevice → Bool) : Option (Option ℕ) :=
  t.searchFrom p t.count 0

def pciFindDevice (t : PciTable) (vendorId deviceId : UInt16) : Option (Option ℕ) :=
  t.search fun d ↦ d.vendorId = vendorId ∧ d.deviceId = deviceId

def pciFindClass (t : PciTable) (classCode subclass progIf : UInt8) : Option (Option ℕ) :=
  t.search fun d ↦ d.classCode = classCode ∧ d.subclass = subclass ∧
    (progIf = 0xFF ∨ d.progIf = progIf)

def pciGetDevice (t : PciTable) (bus device function : UInt8) : Option (Option ℕ) :=
  t.search fun d ↦ d.bus = bus ∧ d.device = device ∧ d.function = function

/-! ## Listing -/

def pciClassName (classCode subclass : UInt8) : String :=
  match classCode, subclass with
  | 0x00, _ => "Unclassified"
  | 0x01, 0x00 => "SCSI"
  | 0x01, 0x01 => "IDE"
  | 0x01, 0x02 => "Floppy"
  | 0x01, 0x04 => "RAID"
  | 0x01, 0x05 => "ATA"
  | 0x01, 0x06 => "SATA"
  | 0x01, 0x07 => "SAS"
  | 0x01, 0x08 => "NVMe"
  | 0x01, _ => "Mass Storage"
  | 0x02, _ => "Network"
  | 0x03, _ => "Display"
  | 0x04, _ => "Multimedia"
  | 0x05, _ => "Memory"
  | 0x06, 0x00 => "Host Bridge"
  | 0x06, 0x01 => "ISA Bridge"
  | 0x06, 0x02 => "EISA Bridge"
  | 0x06, 0x03 => "MCA Bridge"
  | 0x06, 0x04 => "PCI-PCI Bridge"
  | 0x06, 0x05 => "PCMCIA Bridge"
  | 0x06, 0x06 => "NuBus Bridge"
  | 0x06, 0x07 => "CardBus Bridge"
  | 0x06, _ => "Bridge"
  | 0x07, _ => "Communication"
  | 0x08, _ => "Base Peripheral"
  | 0x09, _ => "Input"
  | 0x0A, _ => "Docking"
  | 0x0B, _ => "Processor"
  | 0x0C, 0x00 => "FireWire"
  | 0x0C, 0x01 => "ACCESS.bus"
  | 0x0C, 0x02 => "SSA"
  | 0x0C, 0x03 => "USB"
  | 0x0C, 0x04 => "Fibre Channel"
  | 0x0C, 0x05 => "SMBus"
  | 0x0C, 0x06 => "InfiniBand"
  | 0x0C, 0x07 => "IPMI"
  | 0x0C, 0x08 => "SERCOS"
  | 0x0C, 0x09 => "CANbus"
  | 0x0C, _ => "Serial Bus"
  | 0x0D, _ => "Wireless"
  | 0x0E, _ => "Intelligent I/O"
  | 0x0F, _ => "Satellite"
  | 0x10, _ => "Encryption"
  | 0x11, _ => "Signal Processing"
  | _, _ => "Unknown"

/-- What `pci_list_devices` writes about an entry. -/
def PciDevice.describe (d : PciDevice) (i : ℕ) : String :=
  snprintf 256 <|
    "[" ++ toString i ++ "] " ++ hexPad 2 d.bus.toNat ++ ":" ++ hexPad 2 d.device.toNat ++ "." ++
    hex d.function.toNat ++ " " ++ hexPad 4 d.vendorId.toNat ++ ":" ++
    hexPad 4 d.deviceId.toNat ++ " " ++ pciClassName d.classCode d.subclass ++
    " (prog_if=" ++ hexPad 2 d.progIf.toNat ++ ")\n" ++
    "     CMD=" ++ hexPad 4 d.command.toNat ++ " STATUS=" ++ hexPad 4 d.status.toNat ++
    " REV=" ++ hexPad 2 d.revisionId.toNat ++ " HDR=" ++ hexPad 2 d.headerType.toNat ++ "\n" ++
    "     BAR0=" ++ hexPad 8 d.bar[0].toNat ++ " BAR1=" ++ hexPad 8 d.bar[1].toNat ++
    " BAR2=" ++ hexPad 8 d.bar[2].toNat ++ " BAR3=" ++ hexPad 8 d.bar[3].toNat ++
    " BAR4=" ++ hexPad 8 d.bar[4].toNat ++ " BAR5=" ++ hexPad 8 d.bar[5].toNat ++ "\n" ++
    "     INT=" ++ hexPad 2 d.interruptLine.toNat ++ "/" ++ hexPad 2 d.interruptPin.toNat ++
    " CAP=" ++ hexPad 2 d.capabilitiesPtr.toNat ++ "\n"

/-- The loop of `pci_list_devices`. -/
def pciListEntries (t : PciTable) : Kernel (Except Unit Unit) :=
  forLoop (fun i _ ↦
    match t.devices[i]? with
    | none => pure (.error ())
    | some d => do
      vgaWrite (d.describe i)
      pure (.ok ())) t.count 0 ()

def pciListDevices (t : PciTable) : Kernel (Option Unit) := do
  vgaSetColor .yellow .black
  vgaWrite "\n=== PCI Devices ===\n"
  vgaSetColor .white .black
  let r ← pciListEntries t
  match r with
  | .error _ => pure none
  | .ok _ => do
    vgaWrite "\n"
    pure (some ())

/-! ## What the searches find -/

/-- The first place of a list with the property, and nothing if there is none. -/
def FirstMatch {α : Type} (l : List α) (P : α → Prop) : Option ℕ → Prop
  | some i => ∃ h : i < l.length, P l[i] ∧ ∀ j (hj : j < i), ¬P l[j]
  | none => ∀ a ∈ l, ¬P a

theorem firstMatch_findIdx? {α : Type} (l : List α) (p : α → Bool) :
    FirstMatch l (p · = true) (l.findIdx? p) := by
  cases hfind : l.findIdx? p with
  | none => exact fun a ha ↦ Bool.eq_false_iff.mp (List.findIdx?_eq_none_iff.mp hfind a ha)
  | some i =>
    obtain ⟨hi, hp, hbefore⟩ := List.findIdx?_eq_some_iff_getElem.mp hfind
    exact ⟨hi, hp, fun j hj ↦ hbefore j hj⟩

/-- Something is found exactly if there is something with the property. -/
theorem FirstMatch.exists_iff {α : Type} {l : List α} {P : α → Prop} {r : Option ℕ}
    (h : FirstMatch l P r) : (∃ i, r = some i) ↔ ∃ a ∈ l, P a := by
  cases r with
  | none =>
    refine iff_of_false (by simp) ?_
    rintro ⟨a, ha, hp⟩
    exact h a ha hp
  | some i =>
    obtain ⟨hi, hp, -⟩ := h
    exact iff_of_true ⟨i, rfl⟩ ⟨l[i], List.getElem_mem hi, hp⟩

section
variable {t : PciTable}

theorem searchFrom_eq (p : PciDevice → Bool) {n i : ℕ} (h : i + n ≤ maxPciDevices) :
    t.searchFrom p n i =
      some ((((t.devices.toList.drop i).take n).findIdx? p).map (· + i)) := by
  induction n generalizing i with
  | zero => simp [PciTable.searchFrom]
  | succ n ih =>
    have hread : t.devices[i]? = some t.devices[i] := Vector.getElem?_eq_getElem (by omega)
    have hdrop : t.devices.toList.drop i = t.devices[i] :: t.devices.toList.drop (i + 1) := by
      rw [List.drop_eq_getElem_cons (by rw [Vector.length_toList]; omega), Vector.getElem_toList]
    rw [PciTable.searchFrom, hread, Option.bind_eq_bind, Option.bind_some, hdrop,
      List.take_succ_cons, List.findIdx?_cons]
    split
    · rw [Option.map_some, Nat.zero_add]
    · rw [ih (by omega), Option.map_map]
      congr 2
      funext j
      exact (Nat.add_right_comm j 1 i).symm

/-- **A search goes through the entries.** -/
theorem search_eq (p : PciDevice → Bool) (h : t.count ≤ maxPciDevices) :
    t.search p = some (t.entries.findIdx? p) := by
  rw [PciTable.search, searchFrom_eq p (by omega)]
  simp [PciTable.entries]

end

/-! ## Reads past the end -/

section
variable {t : PciTable}

/-- A search reads inside the array if the counter is not larger than it. -/
theorem search_ne_none (p : PciDevice → Bool) (h : t.count ≤ maxPciDevices) :
    t.search p ≠ none := search_eq p h ▸ Option.some_ne_none _

/-- The listing reads inside the array exactly if the counter is not larger than it. -/
theorem returns_pciListDevices (dev : Device machine) (t : PciTable) :
    Returns dev (fun r ↦ r ≠ none ↔ t.count ≤ maxPciDevices) (pciListDevices t) := by
  have hloop : Returns dev (Exits (fun _ ↦ maxPciDevices < t.count)
      fun _ ↦ t.count ≤ maxPciDevices) (pciListEntries t) := by
    refine Returns.mono (fun r hr ↦ ?_) (returns_forLoop (fun i _ ↦ i ≤ maxPciDevices)
      (fun _ ↦ maxPciDevices < t.count) (fun i _ _ hi hle ↦ ?_) (Nat.zero_le _))
    · rwa [Nat.zero_add] at hr
    · by_cases hlt : i < maxPciDevices
      · rw [Vector.getElem?_eq_getElem hlt]
        exact returns_then fun _ ↦ returns_pure hlt
      · rw [Vector.getElem?_eq_none (not_lt.mp hlt)]
        exact returns_pure (show maxPciDevices < t.count by omega)
  refine returns_then fun _ ↦ returns_then fun _ ↦ returns_then fun _ ↦ hloop.bind fun r hr ↦ ?_
  cases r with
  | error => exact returns_pure ⟨fun h ↦ absurd rfl h, fun h ↦ absurd h (not_le.mpr hr)⟩
  | ok => exact returns_then fun _ ↦ returns_pure ⟨fun _ ↦ hr, fun _ ↦ Option.some_ne_none _⟩

end

end Aetherion.Pci
