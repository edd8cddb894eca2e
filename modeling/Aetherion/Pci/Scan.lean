import Mathlib.Data.Set.Card
import Aetherion.Pci.Config

/-!
# Scanning the buses

`pci_scan_bus` walks over the functions of a bus and puts each at the end of one table that all
the buses share; at a bridge it scans the bus behind it before it goes on.  The recursion has no
bound of its own, so the model takes one, and a run is a run of the kernel when some bound lets it
return (`PciInitReturns`).

The counter is moved on only after the bus behind a bridge has been scanned.  That scan starts at
the bridge's own place in the table, and the first function it finds overwrites the bridge; so the
table is what it should be exactly when there is nothing to be found behind any bridge
(`pci_init_faithful_iff`).
-/

set_option autoImplicit false

namespace Aetherion.Pci

open Driver Driver.Prog

/-- `MAX_PCI_DEVICES`. -/
abbrev maxPciDevices : ℕ := 32

/-- `pci_devices` and `pci_device_count`. -/
structure PciTable where
  /-- `pci_devices`. -/
  devices : Vector PciDevice maxPciDevices
  /-- `pci_device_count`. -/
  count : ℕ

/-- The table with an entry written at a place. -/
def PciTable.put (t : PciTable) (slot : ℕ) (hslot : slot < maxPciDevices) (d : PciDevice) :
    PciTable := { t with devices := t.devices.set slot d }

/-- The table with the counter moved on. -/
def PciTable.advance (t : PciTable) : PciTable := { t with count := t.count + 1 }

/-- Ways out of the loops: `break`, `return found`, and a recursion deeper than the bound. -/
inductive Leave where
  | broke (s : ℤ × PciTable)
  | returned (s : ℤ × PciTable)
  | tooDeep

/-- The bus behind a bridge is scanned with the table as it stands. -/
def pciScanBridge (scan : UInt8 → PciTable → Kernel (Option (ℤ × PciTable))) (dev : PciDevice)
    (t : PciTable) : Kernel (Option PciTable) :=
  if dev.classCode = 0x06 ∧ dev.subclass = 0x04 then do
    vgaWrite " [PCI-PCI Bridge]"
    let secondaryBus ← pciReadConfig8 dev 0x19
    vgaWrite (" -> bus " ++ toString secondaryBus.toNat)
    let r ← scan secondaryBus t
    pure (r.map Prod.snd)
  else pure (some t)

/-- The body of the loop over the functions.  The header type is read from the table again, after
the bus behind the function has been scanned. -/
def pciScanFunction (scan : UInt8 → PciTable → Kernel (Option (ℤ × PciTable)))
    (bus device function : UInt8) (s : ℤ × PciTable) :
    Kernel (Except Leave (ℤ × PciTable)) := do
  let found ← pciDeviceExists bus device function
  if found = false then pure (.ok s)
  else if hslot : s.2.count < maxPciDevices then do
    let dev ← pciReadDeviceInfo { PciDevice.blank with bus, device, function }
    vgaWrite ("[PCI] " ++ hexPad 2 bus.toNat ++ ":" ++ hexPad 2 device.toNat ++ "." ++
      hex function.toNat ++ " " ++ hexPad 4 dev.vendorId.toNat ++ ":" ++
      hexPad 4 dev.deviceId.toNat ++ " class=" ++ hexPad 2 dev.classCode.toNat ++ "/" ++
      hexPad 2 dev.subclass.toNat ++ "/" ++ hexPad 2 dev.progIf.toNat)
    let r ← pciScanBridge scan dev (s.2.put s.2.count hslot dev)
    match r with
    | none => pure (.error .tooDeep)
    | some t => do
      vgaWrite "\n"
      if function = 0 ∧ t.devices[s.2.count].headerType &&& 0x80 = 0 then
        pure (.error (.broke (s.1 + 1, t.advance)))
      else pure (.ok (s.1 + 1, t.advance))
  else pure (.error (.returned s))

/-- The body of the loop over the devices. -/
def pciScanDevice (scan : UInt8 → PciTable → Kernel (Option (ℤ × PciTable))) (bus device : UInt8)
    (s : ℤ × PciTable) : Kernel (Except (Option (ℤ × PciTable)) (ℤ × PciTable)) := do
  let r ← forLoop (fun function s ↦ pciScanFunction scan bus device (.ofNat function) s) 8 0 s
  match r with
  | .ok s => pure (.ok s)
  | .error (.broke s) => pure (.ok s)
  | .error (.returned s) => pure (.error (some s))
  | .error .tooDeep => pure (.error none)

/-- The number of functions found and the table, unless the recursion goes deeper than `depth`. -/
def pciScanBus : ℕ → UInt8 → PciTable → Kernel (Option (ℤ × PciTable))
  | 0, _, _ => pure none
  | depth + 1, bus, t => do
    let r ← forLoop (fun device s ↦ pciScanDevice (pciScanBus depth) bus (.ofNat device) s)
      32 0 (0, t)
    match r with
    | .ok s => pure (some s)
    | .error r => pure r

/-- What `memset` leaves of the table. -/
def PciTable.empty : PciTable := ⟨.replicate maxPciDevices .blank, 0⟩

def pciInit (depth : ℕ) : Kernel (Option PciTable) := do
  vgaSetColor .lightCyan .black
  vgaWrite "[PCI] Initialisation du sous-systeme PCI...\n"
  vgaSetColor .white .black
  let r ← pciScanBus depth 0 PciTable.empty
  match r with
  | none => pure none
  | some s => do
    vgaWrite ("[PCI] " ++ toString s.2.count ++ " peripheriques detectes\n")
    pure (some s.2)

/-- After the history `h`, `pci_init` returns and leaves this table. -/
def PciInitReturns (dev : Device machine) (h : Trace machine) (t : PciTable) : Prop :=
  ∃ depth, (pciInit depth).value dev h = some t

/-! ## The walk over a bus

The two loops go through the 256 places of a bus in order, except that they skip the rest of a
device after a function 0 without the multi-function bit. -/

/-- The function at a place of the walk. -/
def placeOf (bus : UInt8) (k : ℕ) : PciAddress :=
  ⟨bus, ⟨k / 8 % 32, Nat.mod_lt _ (by decide)⟩, ⟨k % 8, Nat.mod_lt _ (by decide)⟩⟩

theorem placeOf_add (bus : UInt8) {device function : ℕ} (hd : device < 32) (hf : function < 8) :
    placeOf bus (8 * device + function) = ⟨bus, ⟨device, hd⟩, ⟨function, hf⟩⟩ := by
  rw [placeOf, PciAddress.mk.injEq, Fin.ext_iff, Fin.ext_iff]
  exact ⟨rfl, by simp only; omega, by simp only; omega⟩

/-- The place the walk comes to after it has recorded a function. -/
def nextPlace (k : ℕ) (headerType : UInt8) : ℕ :=
  if k % 8 = 0 ∧ headerType &&& 0x80 = 0 then k + 8 else k + 1

section
variable {dev : Device machine} {cs : ConfigSpace}
  {scan : UInt8 → PciTable → Kernel (Option (ℤ × PciTable))}

/-- What the scan does about a bridge. -/
theorem returns_pciScanBridge (hs : ServesAlways dev cs) {Q : Option PciTable → Prop}
    {a : PciAddress} {t : PciTable} (hplain : ¬cs.IsBridge a → Q (some t))
    (hbridge : cs.IsBridge a →
      Returns dev (fun r ↦ Q (r.map Prod.snd)) (scan (cs.secondaryBus a) t)) :
    Returns dev Q (pciScanBridge scan (cs.entry a) t) := by
  rw [pciScanBridge]
  refine .ite (fun h ↦ ?_) fun h ↦ returns_pure (hplain h)
  refine returns_then fun _ ↦
    returns_bind_eq (value_pciReadConfig8 hs (entry_at cs a) 0x19) <| returns_then fun _ ↦ ?_
  exact (hbridge h).bind fun r hr ↦ returns_pure hr

/-- The same, said of what it comes back with. -/
theorem returns_behind (hs : ServesAlways dev cs) {a : PciAddress} {t : PciTable}
    {X : PciTable → Prop} (hplain : ¬cs.IsBridge a → X t)
    (hscan : cs.IsBridge a →
      Returns dev (fun r ↦ ∀ s ∈ r, X s.2) (scan (cs.secondaryBus a) t)) :
    Returns dev (fun r ↦ ∀ u ∈ r, X u) (pciScanBridge scan (cs.entry a) t) := by
  refine returns_pciScanBridge hs ?_ fun hbridge ↦ (hscan hbridge).mono fun r hr u hu ↦ ?_
  · rintro h u ⟨⟩
    exact hplain h
  · obtain ⟨s, hs, rfl⟩ := Option.map_eq_some_iff.mp hu
    exact hr s hs

/-- **What the body of the inner loop does at a function.**  Nothing if there is none, an early
return if the table is full; else the entry is written, and the bus behind it scanned. -/
theorem returns_pciScanFunction (hs : ServesAlways dev cs)
    {P : Except Leave (ℤ × PciTable) → Prop} {a : PciAddress} {s : ℤ × PciTable}
    (habsent : ¬cs.Exists a → P (.ok s))
    (hfull : cs.Exists a → maxPciDevices ≤ s.2.count → P (.error (.returned s)))
    (hscan : cs.Exists a → ∀ hslot : s.2.count < maxPciDevices,
      Returns dev (fun r ↦ r.elim (P (.error .tooDeep)) fun t ↦
          P (if a.function.val = 0 ∧ t.devices[s.2.count].headerType &&& 0x80 = 0 then
            .error (.broke (s.1 + 1, t.advance)) else .ok (s.1 + 1, t.advance)))
        (pciScanBridge scan (cs.entry a) (s.2.put s.2.count hslot (cs.entry a)))) :
    Returns dev P (pciScanFunction scan a.bus (.ofNat a.device) (.ofNat a.function) s) := by
  have hzero : UInt8.ofNat a.function = 0 ↔ a.function.val = 0 := by
    generalize a.function = f
    revert f
    decide
  refine returns_bind_eq (value_pciDeviceExists hs a) ?_
  refine .ite (fun h ↦ returns_pure (habsent (by simpa using h))) fun h ↦ ?_
  have hexists : cs.Exists a := by simpa using h
  split
  · rename_i hslot
    refine returns_bind_eq (returns_pciReadDeviceInfo hs a) <| returns_then fun _ ↦
      (hscan hexists hslot).bind fun r hr ↦ ?_
    cases r with
    | none => exact returns_pure hr
    | some t =>
      refine returns_then fun _ ↦ .ite (fun h ↦ returns_pure ?_) fun h ↦ returns_pure ?_
      · rw [hzero] at h
        simpa only [Option.elim, if_pos h] using hr
      · rw [hzero] at h
        simpa only [Option.elim, if_neg h] using hr
  · rename_i hslot
    exact returns_pure (hfull hexists (by omega))

/-- **The invariant rule for the scan of a bus.**  `I k t` holds on reaching place `k` with the
table `t`, `R` of the table at an early return, and `D` if the recursion goes too deep. -/
theorem returns_pciScanBus (hs : ServesAlways dev cs) {depth : ℕ} {bus : UInt8}
    (I : ℕ → PciTable → Prop) (R : PciTable → Prop) (D : Prop)
    (habsent : ∀ k t, k < 256 → I k t → ¬cs.Exists (placeOf bus k) → I (k + 1) t)
    (hfull : ∀ k t, k < 256 → I k t → cs.Exists (placeOf bus k) → maxPciDevices ≤ t.count → R t)
    (hscan : ∀ k t, k < 256 → I k t → cs.Exists (placeOf bus k) →
      ∀ hslot : t.count < maxPciDevices,
        Returns dev (fun r ↦ r.elim D fun t' ↦
            I (nextPlace k t'.devices[t.count].headerType) t'.advance)
          (pciScanBridge (pciScanBus depth) (cs.entry (placeOf bus k))
            (t.put t.count hslot (cs.entry (placeOf bus k)))))
    {t : PciTable} (ht : I 0 t) :
    Returns dev (fun r ↦ r.elim D fun s ↦ R s.2 ∨ I 256 s.2) (pciScanBus (depth + 1) bus t) := by
  refine (returns_forLoop (fun device s ↦ I (8 * device) s.2)
    (fun r ↦ r.elim D fun s ↦ R s.2) (fun device s _ hd hI ↦ ?_) ht).bind fun r hr ↦ ?_
  · -- the inner loop
    refine (returns_forLoop (fun function s ↦ I (8 * device + function) s.2)
      (fun l ↦ match l with
        | .broke s => I (8 * device + 8) s.2
        | .returned s => R s.2
        | .tooDeep => D) (fun function s _ hf hI ↦ ?_) hI).bind fun r hr ↦ ?_
    · have hplace := placeOf_add bus (show device < 32 by omega) (show function < 8 by omega)
      have hk : 8 * device + function < 256 := by omega
      refine returns_pciScanFunction hs (a := ⟨bus, ⟨device, by omega⟩, ⟨function, by omega⟩⟩)
        (fun h ↦ habsent _ _ hk hI (hplace ▸ h)) (fun h ↦ hfull _ _ hk hI (hplace ▸ h))
        fun h hslot ↦ ?_
      refine (hplace ▸ hscan _ _ hk hI (hplace ▸ h) hslot).mono fun r hr ↦ ?_
      cases r with
      | none => exact hr
      | some t =>
        simp only [Option.elim, nextPlace] at hr ⊢
        split
        · rename_i h
          rw [if_pos ⟨by omega, h.2⟩, show function = 0 from h.1] at hr
          exact hr
        · rename_i h
          rw [if_neg (fun h' ↦ h ⟨by omega, h'.2⟩)] at hr
          exact hr
    · match r with
      | .ok s => exact returns_pure hr
      | .error (.broke s) => exact returns_pure hr
      | .error (.returned s) => exact returns_pure hr
      | .error .tooDeep => exact returns_pure hr
  · match r with
    | .ok s => exact returns_pure (Or.inr hr)
    | .error (some s) => exact returns_pure (Or.inl hr)
    | .error none => exact returns_pure hr

/-- **The rule for `pci_init`**: what it leaves is what the scan of bus 0 leaves. -/
theorem returns_pciInit_of_scan {Q : Option PciTable → Prop} {depth : ℕ}
    (hscan : Returns dev (fun r ↦ Q (r.map Prod.snd)) (pciScanBus depth 0 .empty)) :
    Returns dev Q (pciInit depth) := by
  refine returns_then fun _ ↦ returns_then fun _ ↦ returns_then fun _ ↦ hscan.bind fun r hr ↦ ?_
  cases r with
  | none => exact returns_pure hr
  | some s => exact returns_then fun _ ↦ returns_pure hr

end

/-! ## Registers are only read

What `pci_init` finds is what the machine shows before anything is written there. -/

theorem confined_print (text : String) : Confined configReads (vgaWrite text) := confined_emit id

theorem confined_color (fg bg : Vga.VgaColor) : Confined configReads (vgaSetColor fg bg) :=
  confined_emit id

theorem confined_address (address : UInt32) : Confined configReads (outl 0xCF8 address) :=
  confined_emit fun h ↦ absurd h.1 (by decide)

theorem confined_inl (port : UInt16) : Confined configReads (inl port) := confined_ask trivial

section
variable (d : PciDevice)

theorem confined_pciReadConfig (reg : UInt8) : Confined configReads (pciReadConfig d reg) :=
  (confined_address _).bind fun _ ↦ confined_inl _

theorem confined_pciReadConfig16 (reg : UInt8) : Confined configReads (pciReadConfig16 d reg) :=
  (confined_pciReadConfig d _).bind fun _ ↦ confined_pure _

theorem confined_pciReadConfig8 (reg : UInt8) : Confined configReads (pciReadConfig8 d reg) :=
  (confined_pciReadConfig d _).bind fun _ ↦ confined_pure _

theorem confined_pciReadBars : Confined configReads (pciReadBars d) :=
  confined_forEach (fun _ _ ↦ (confined_pciReadConfig d _).bind fun _ ↦ confined_pure _) _ _ _

theorem confined_pciReadDeviceInfo : Confined configReads (pciReadDeviceInfo d) := by
  have h8 := confined_pciReadConfig8 d
  have h16 := confined_pciReadConfig16 d
  have h32 := confined_pciReadConfig d
  exact (h16 _).bind fun _ ↦ (h16 _).bind fun _ ↦ (h16 _).bind fun _ ↦ (h16 _).bind fun _ ↦
    (h8 _).bind fun _ ↦ (h8 _).bind fun _ ↦ (h8 _).bind fun _ ↦ (h8 _).bind fun _ ↦
    (h8 _).bind fun _ ↦ (h8 _).bind fun _ ↦ (h8 _).bind fun _ ↦ (h8 _).bind fun _ ↦
    (confined_pciReadBars d).bind fun _ ↦ (h32 _).bind fun _ ↦ (h16 _).bind fun _ ↦
    (h16 _).bind fun _ ↦ (h32 _).bind fun _ ↦ (h8 _).bind fun _ ↦ (h8 _).bind fun _ ↦
    (h8 _).bind fun _ ↦ (h8 _).bind fun _ ↦ (h8 _).bind fun _ ↦ confined_pure _

end

section
variable {scan : UInt8 → PciTable → Kernel (Option (ℤ × PciTable))}
  (hscan : ∀ bus t, Confined configReads (scan bus t))
include hscan

theorem confined_pciScanBridge (d : PciDevice) (t : PciTable) :
    Confined configReads (pciScanBridge scan d t) :=
  .ite ((confined_print _).bind fun _ ↦ (confined_pciReadConfig8 d _).bind fun _ ↦
    (confined_print _).bind fun _ ↦ (hscan _ _).bind fun _ ↦ confined_pure _) (confined_pure _)

theorem confined_pciScanFunction (bus device function : UInt8) (s : ℤ × PciTable) :
    Confined configReads (pciScanFunction scan bus device function s) := by
  have hexists : Confined configReads (pciDeviceExists bus device function) :=
    (confined_address _).bind fun _ ↦ (confined_inl _).bind fun _ ↦ confined_pure _
  refine hexists.bind fun found ↦ .ite (confined_pure _) ?_
  split
  · refine (confined_pciReadDeviceInfo _).bind fun d ↦ (confined_print _).bind fun _ ↦
      (confined_pciScanBridge hscan d _).bind fun r ↦ ?_
    cases r with
    | none => exact confined_pure _
    | some t => exact (confined_print _).bind fun _ ↦ .ite (confined_pure _) (confined_pure _)
  · exact confined_pure _

theorem confined_pciScanDevice (bus device : UInt8) (s : ℤ × PciTable) :
    Confined configReads (pciScanDevice scan bus device s) := by
  refine (confined_forLoop (fun _ _ ↦ confined_pciScanFunction hscan _ _ _ _) _ _ _).bind
    fun r ↦ ?_
  match r with
  | .ok s => exact confined_pure _
  | .error (.broke s) => exact confined_pure _
  | .error (.returned s) => exact confined_pure _
  | .error .tooDeep => exact confined_pure _

end

theorem confined_pciScanBus (depth : ℕ) (bus : UInt8) (t : PciTable) :
    Confined configReads (pciScanBus depth bus t) := by
  induction depth generalizing bus t with
  | zero => exact confined_pure _
  | succ depth ih =>
    refine (confined_forLoop (fun _ _ ↦ confined_pciScanDevice ih _ _ _) _ _ _).bind fun r ↦ ?_
    cases r with
    | ok s => exact confined_pure _
    | error r => exact confined_pure _

/-- **The scan writes no register.** -/
theorem confined_pciInit (depth : ℕ) : Confined configReads (pciInit depth) := by
  refine (confined_color _ _).bind fun _ ↦ (confined_print _).bind fun _ ↦
    (confined_color _ _).bind fun _ ↦ (confined_pciScanBus depth 0 _).bind fun r ↦ ?_
  cases r with
  | none => exact confined_pure _
  | some s => exact (confined_print _).bind fun _ ↦ confined_pure _

/-- The machine with these registers, which no write changes. -/
def withRegisters (dev : Device machine) (cs : ConfigSpace) : Device machine := fun h i ↦
  match i with
  | .inl port => if port = 0xCFC then cs (addressPort.after 0 h) else dev h (.inl port)
  | i => dev h i

theorem servesAlways_withRegisters (dev : Device machine) (cs : ConfigSpace) :
    ServesAlways (withRegisters dev cs) cs := fun _ ↦ rfl

section
variable {dev : Device machine} {cs : ConfigSpace} {h : Trace machine}

/-- **`pci_init` cannot tell** whether what it reads could be written. -/
theorem Serves.value_pciInit (hs : Serves dev cs h) (depth : ℕ) :
    (pciInit depth).value dev h = (pciInit depth).value (withRegisters dev cs) h := by
  refine congrArg Prod.fst ((confined_pciInit depth).agrees _ _ h h fun t ht i _ ↦ ?_)
  cases i with
  | inl port =>
    by_cases hport : port = 0xCFC
    · subst hport
      exact hs t ht
    · exact (if_neg hport).symm
  | _ => rfl

theorem Serves.pciInitReturns_iff (hs : Serves dev cs h) (t : PciTable) :
    PciInitReturns dev h t ↔ PciInitReturns (withRegisters dev cs) h t :=
  exists_congr fun depth ↦ by rw [hs.value_pciInit depth]

end

end Aetherion.Pci
