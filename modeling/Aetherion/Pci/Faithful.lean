import Mathlib.Data.Set.Card
import Aetherion.Pci.Scan

/-!
# What the table should hold

The functions to be found are those reachable from bus 0 through bridges, less functions 1 to 7 of
a device whose function 0 does not have the multi-function bit (`ConfigSpace.Reachable`).  A table
is `Faithful` when its entries are theirs, each once, and nothing else.

A scan of any bus but bus 0 leaves the entries below the counter alone and writes only entries of
other buses (`Kept`), and if it finds anything, the place it started at is taken (`Touched`).
-/

set_option autoImplicit false

namespace Aetherion.Pci

open Driver Driver.Prog

namespace ConfigSpace

variable (cs : ConfigSpace) (a : PciAddress)

/-- Function 0 exists and does not have the multi-function bit. -/
def SingleFunction (bus : UInt8) (device : Fin 32) : Prop :=
  cs.Exists ⟨bus, device, 0⟩ ∧ cs.byte ⟨bus, device, 0⟩ 0x0E &&& 0x80 = 0

instance (bus : UInt8) (device : Fin 32) : Decidable (cs.SingleFunction bus device) :=
  inferInstanceAs (Decidable (_ ∧ _))

/-- The function exists, and is not left out for being one of functions 1 to 7 of a device that
has only function 0. -/
def Counts : Prop := cs.Exists a ∧ (a.function = 0 ∨ ¬cs.SingleFunction a.bus a.device)

instance : Decidable (cs.Counts a) := inferInstanceAs (Decidable (_ ∧ _))

/-- The buses that bridges lead to from bus 0. -/
inductive BusReached : UInt8 → Prop
  | root : BusReached 0
  | bridge {a : PciAddress} (ha : BusReached a.bus) (hc : cs.Counts a) (hb : cs.IsBridge a) :
      BusReached (cs.secondaryBus a)

/-- The function is one that the table should have. -/
def Reachable : Prop := cs.BusReached a.bus ∧ cs.Counts a

/-- There is a function on the bus. -/
def Occupied (bus : UInt8) : Prop := ∃ a : PciAddress, a.bus = bus ∧ cs.Exists a

/-- The function is a bridge with something behind it. -/
def Hides : Prop := cs.IsBridge a ∧ cs.Occupied (cs.secondaryBus a)

/-- No bridge leads back to bus 0, the root. -/
def Rooted : Prop := ∀ a, cs.Exists a → cs.IsBridge a → cs.secondaryBus a ≠ 0

end ConfigSpace

/-- `pci_devices[0 .. pci_device_count)`. -/
def PciTable.entries (t : PciTable) : List PciDevice := t.devices.toList.take t.count

/-- The entries are those of the functions to be found, each once. -/
structure Faithful (cs : ConfigSpace) (t : PciTable) : Prop where
  count_le : t.count ≤ maxPciDevices
  nodup : t.entries.Nodup
  mem_iff : ∀ d, d ∈ t.entries ↔ ∃ a, cs.Reachable a ∧ cs.entry a = d

/-! ## Entries -/

section
variable {cs : ConfigSpace} {a b : PciAddress}

theorem entry_injective (cs : ConfigSpace) : Function.Injective cs.entry := by
  intro a b h
  have hfin {n : ℕ} (hn : n ≤ 256) {x y : Fin n} (hxy : UInt8.ofNat x = .ofNat y) : x = y := by
    have h := congrArg UInt8.toNat hxy
    rw [UInt8.toNat_ofNat', UInt8.toNat_ofNat', Nat.mod_eq_of_lt (by omega),
      Nat.mod_eq_of_lt (by omega)] at h
    exact Fin.ext h
  obtain ⟨bus, device, function⟩ := a
  rw [PciAddress.mk.injEq]
  exact ⟨congrArg PciDevice.bus h, hfin (by omega) (congrArg PciDevice.device h),
    hfin (by omega) (congrArg PciDevice.function h)⟩

/-- The entry of a function that exists has a vendor or a device number. -/
theorem entry_ne_blank (ha : cs.Exists a) : cs.entry a ≠ .blank := by
  intro h
  have hvendor : cs.word a 0x00 = 0 := congrArg PciDevice.vendorId h
  have hdevice : cs.word a 0x02 = 0 := congrArg PciDevice.deviceId h
  have hword (s : UInt32) (hs : s.toNat < 32) :
      ((cs.dword a 0 >>> s) &&& 0xFFFF).toUInt16.toNat =
        (cs.dword a 0).toNat / 2 ^ s.toNat % 65536 := by
    rw [UInt32.toNat_toUInt16, UInt32.toNat_and, UInt32.toNat_shiftRight, Nat.mod_eq_of_lt hs,
      Nat.shiftRight_eq_div_pow, show UInt32.toNat 0xFFFF = 2 ^ 16 - 1 from rfl,
      Nat.and_two_pow_sub_one_eq_mod]
    omega
  have hlow := (hword 0 (by decide)).symm.trans (congrArg UInt16.toNat hvendor)
  have hhigh := (hword 16 (by decide)).symm.trans (congrArg UInt16.toNat hdevice)
  have hlt := (cs.dword a 0).toNat_lt
  refine ha.2 (UInt32.toNat_inj.mp ?_)
  simp only [UInt32.reduceToNat, UInt16.reduceToNat] at hlow hhigh ⊢
  omega

theorem entry_bus_ne (ha : a.bus = 0) {d : PciDevice} (hd : d.bus ≠ 0) : d ≠ cs.entry a :=
  fun h ↦ hd (h ▸ ha)

end

/-! ## The functions of a bus, in the order of the walk -/

section
variable {cs : ConfigSpace} {bus : UInt8} {k : ℕ}

theorem placeOf_inj {j : ℕ} (hj : j < 256) (hk : k < 256) (h : placeOf bus j = placeOf bus k) :
    j = k := by
  rw [placeOf, placeOf, PciAddress.mk.injEq, Fin.ext_iff, Fin.ext_iff] at h
  simp only at h
  omega

theorem exists_placeOf (a : PciAddress) : ∃ k < 256, placeOf a.bus k = a :=
  ⟨8 * a.device + a.function, by omega, placeOf_add a.bus a.device.isLt a.function.isLt⟩

/-- The functions to be found at the first `k` places of a bus. -/
def counted (cs : ConfigSpace) (bus : UInt8) (k : ℕ) : List PciAddress :=
  ((List.range k).map (placeOf bus)).filter (cs.Counts ·)

theorem mem_counted {a : PciAddress} :
    a ∈ counted cs bus k ↔ (∃ j < k, placeOf bus j = a) ∧ cs.Counts a := by
  simp [counted]

theorem counted_succ_of (h : cs.Counts (placeOf bus k)) :
    counted cs bus (k + 1) = counted cs bus k ++ [placeOf bus k] := by
  rw [counted, List.range_succ, List.map_append, List.filter_append]
  simp [counted, h]

theorem counted_succ_of_not (h : ¬cs.Counts (placeOf bus k)) :
    counted cs bus (k + 1) = counted cs bus k := by
  rw [counted, List.range_succ, List.map_append, List.filter_append]
  simp [counted, h]

theorem nodup_counted (hk : k ≤ 256) : (counted cs bus k).Nodup := by
  refine List.Nodup.filter _ (List.Nodup.map_on ?_ List.nodup_range)
  intro i hi j hj h
  rw [List.mem_range] at hi hj
  exact placeOf_inj (by omega) (by omega) h

theorem device_placeOf {j : ℕ} (hj : j < 8) (hk : k % 8 = 0) :
    (placeOf bus (k + j)).device = (placeOf bus k).device := by
  rw [placeOf, placeOf, Fin.ext_iff]
  simp only
  omega

theorem function_placeOf_eq_zero : (placeOf bus k).function = 0 ↔ k % 8 = 0 := by
  rw [placeOf, Fin.ext_iff]
  rfl

/-- Function 0 of the device at a place. -/
theorem placeOf_zero (hk : k % 8 = 0) : placeOf bus k = ⟨bus, (placeOf bus k).device, 0⟩ := by
  have hzero : (placeOf bus k).function = 0 := function_placeOf_eq_zero.mpr hk
  rw [← hzero]
  rfl

/-- The places that the walk skips have nothing to be found. -/
theorem counted_skip (hk : k % 8 = 0) (hsingle : cs.SingleFunction bus (placeOf bus k).device)
    {j : ℕ} (hj : j < 8) : counted cs bus (k + 1 + j) = counted cs bus (k + 1) := by
  induction j with
  | zero => rfl
  | succ j ih =>
    rw [← ih (by omega), ← add_assoc]
    refine counted_succ_of_not ?_
    rintro ⟨-, hzero | hmulti⟩
    · rw [function_placeOf_eq_zero] at hzero
      omega
    · rw [add_assoc, device_placeOf (by omega) hk] at hmulti
      exact hmulti hsingle

end

/-! ## Scans of the other buses -/

/-- What a scan of another bus keeps: the entries below the counter stay, and an entry that is
new is not of bus 0. -/
structure Kept (t t' : PciTable) : Prop where
  count_le : t.count ≤ t'.count
  below : ∀ i (hi : i < maxPciDevices), i < t.count → t'.devices[i] = t.devices[i]
  foreign : ∀ i (hi : i < maxPciDevices), t'.devices[i] = t.devices[i] ∨ t'.devices[i].bus ≠ 0

/-- The place the scan started at is taken by an entry of another bus. -/
def Touched (t t' : PciTable) : Prop :=
  t.count < t'.count ∧ ∀ h : t.count < maxPciDevices, t'.devices[t.count].bus ≠ 0

section
variable {t t' t'' : PciTable}

theorem Kept.refl (t : PciTable) : Kept t t := ⟨le_rfl, fun _ _ _ ↦ rfl, fun _ _ ↦ Or.inl rfl⟩

theorem Kept.trans (h : Kept t t') (h' : Kept t' t'') : Kept t t'' := by
  refine ⟨h.count_le.trans h'.count_le, ?_, ?_⟩
  · intro i hi hlt
    rw [h'.below i hi (hlt.trans_le h.count_le), h.below i hi hlt]
  · intro i hi
    rcases h'.foreign i hi with heq | hne
    · exact heq ▸ h.foreign i hi
    · exact Or.inr hne

theorem Kept.advance (h : Kept t t') : Kept t t'.advance :=
  ⟨h.count_le.trans (Nat.le_succ _), h.below, h.foreign⟩

/-- An entry of another bus, written at the counter. -/
theorem kept_put (hslot : t.count < maxPciDevices) {d : PciDevice} (hd : d.bus ≠ 0) :
    Kept t (t.put t.count hslot d) := by
  refine ⟨le_rfl, fun i hi hlt ↦ Vector.getElem_set_ne hslot hi (by omega), ?_⟩
  intro i hi
  simp only [PciTable.put, Vector.getElem_set]
  split
  · exact Or.inr hd
  · exact Or.inl rfl

theorem Touched.kept (h : Touched t t') (h' : Kept t' t'') : Touched t t'' := by
  refine ⟨h.1.trans_le h'.count_le, ?_⟩
  intro hlt
  rw [h'.below _ hlt h.1]
  exact h.2 hlt

/-- What is written at the counter stays of another bus. -/
theorem touched_advance (hslot : t.count < maxPciDevices) {d : PciDevice} (hd : d.bus ≠ 0)
    (h : Kept (t.put t.count hslot d) t') : Touched t t'.advance := by
  refine ⟨Nat.lt_succ_of_le h.count_le, ?_⟩
  intro hlt
  rcases h.foreign _ hlt with heq | hne
  · change t'.devices[t.count].bus ≠ 0
    rw [heq]
    simpa [PciTable.put] using hd
  · exact hne

end

section
variable {dev : Device machine} {cs : ConfigSpace}

/-- A bus with nothing on it leaves the table as it was. -/
theorem returns_scan_empty (hs : ServesAlways dev cs) (depth : ℕ) {bus : UInt8}
    (hempty : ¬cs.Occupied bus) (t : PciTable) :
    Returns dev (fun r ↦ ∃ n, r = some (n, t)) (pciScanBus (depth + 1) bus t) := by
  have habsent (k : ℕ) : ¬cs.Exists (placeOf bus k) := fun h ↦ hempty ⟨_, rfl, h⟩
  refine (returns_pciScanBus hs (fun _ t' ↦ t' = t) (fun t' ↦ t' = t) False
    (fun k t' _ ht' _ ↦ ht') (fun k t' _ ht' _ _ ↦ ht')
    (fun k t' _ _ h ↦ absurd h (habsent k)) rfl).mono fun r hr ↦ ?_
  cases r with
  | none => exact hr.elim
  | some s => exact ⟨s.1, by rw [← or_self_iff.mp hr]⟩

/-- **A scan of another bus keeps what was there**, and takes the place it started at if it finds
anything. -/
theorem returns_scan_kept (hs : ServesAlways dev cs) (hroot : cs.Rooted) (depth : ℕ) :
    ∀ {bus : UInt8}, bus ≠ 0 → ∀ t : PciTable,
      Returns dev (fun r ↦ ∀ s ∈ r, Kept t s.2 ∧
        (cs.Occupied bus → t.count < maxPciDevices → Touched t s.2)) (pciScanBus depth bus t) := by
  induction depth with
  | zero => exact fun _ t ↦ returns_pure (by simp)
  | succ depth ih =>
    intro bus hbus t
    refine (returns_pciScanBus hs
      (fun k t' ↦ Kept t t' ∧ (Touched t t' ∨ t' = t ∧ ∀ j < k, ¬cs.Exists (placeOf bus j)))
      (fun t' ↦ Kept t t' ∧ (t.count < maxPciDevices → Touched t t')) True
      ?_ ?_ ?_ ⟨.refl t, Or.inr ⟨rfl, by omega⟩⟩).mono fun r hr ↦ ?_
    · rintro k t' - ⟨hkept, htouched | ⟨heq, hnone⟩⟩ habsent
      · exact ⟨hkept, Or.inl htouched⟩
      · exact ⟨hkept, Or.inr ⟨heq, Nat.forall_lt_succ_right.mpr ⟨hnone, habsent⟩⟩⟩
    · rintro k t' - ⟨hkept, htouched | ⟨heq, -⟩⟩ - hfull
      · exact ⟨hkept, fun _ ↦ htouched⟩
      · exact ⟨hkept, fun hlt ↦ absurd hlt (by rw [← heq]; omega)⟩
    · rintro k t' - ⟨hkept, htouched⟩ hexists hslot
      have hd : (cs.entry (placeOf bus k)).bus ≠ 0 := hbus
      generalize hput : t'.put _ hslot _ = p
      refine (returns_behind hs (X := Kept p) (fun _ ↦ .refl p) fun hbridge ↦ ?_).mono
        fun r hr ↦ ?_
      · exact (ih (hroot _ hexists hbridge) p).mono fun r hr s hs ↦ (hr s hs).1
      · cases r with
        | none => trivial
        | some u =>
          subst hput
          have hstep := (kept_put hslot hd).trans (hr u rfl).advance
          refine ⟨hkept.trans hstep, Or.inl ?_⟩
          rcases htouched with htouched | ⟨heq, -⟩
          · exact htouched.kept hstep
          · subst heq
            exact touched_advance hslot hd (hr u rfl)
    · rintro s rfl
      rcases hr with ⟨hkept, htouched⟩ | ⟨hkept, htouched | ⟨-, hnone⟩⟩
      · exact ⟨hkept, fun _ ↦ htouched⟩
      · exact ⟨hkept, fun _ _ ↦ htouched⟩
      · refine ⟨hkept, ?_⟩
        intro hoccupied _
        obtain ⟨a, rfl, ha⟩ := hoccupied
        obtain ⟨k, hk, hplace⟩ := exists_placeOf a
        refine absurd ?_ (hnone k hk)
        rwa [hplace]

end

end Aetherion.Pci
