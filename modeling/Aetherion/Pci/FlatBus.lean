import Aetherion.Pci.Init
import Aetherion.Pci.Search

/-!
# A bus without bridges

With no bridge on bus 0 nothing takes the place of another function.  The table is a prefix of the
list of the functions that the walk meets: all of them, or the first 32 (`pci_init_flat`).  The
searches then are searches of that list.
-/

set_option autoImplicit false

namespace Aetherion.Pci

open Driver Driver.Prog

/-- The functions that are recorded: those that the walk over bus 0 meets, as far as the table has
room. -/
def recorded (cs : ConfigSpace) : List PciAddress := (counted cs 0 256).take maxPciDevices

/-- The table has the recorded functions, in order, and the searches find the first match among
them. -/
structure FlatTable (cs : ConfigSpace) (t : PciTable) : Prop where
  entries_eq : t.entries = (recorded cs).map cs.entry
  count_eq : t.count = min maxPciDevices (counted cs 0 256).length
  get (bus device function : UInt8) : ∃ r, pciGetDevice t bus device function = some r ∧
    FirstMatch (recorded cs)
      (fun a ↦ a.bus = bus ∧ .ofNat a.device = device ∧ .ofNat a.function = function) r
  /-- An entry is returned exactly if the function is recorded. -/
  get_iff (bus device function : UInt8) :
    (∃ i, pciGetDevice t bus device function = some (some i)) ↔
      ∃ a ∈ recorded cs, a.bus = bus ∧ .ofNat a.device = device ∧ .ofNat a.function = function
  find (vendorId deviceId : UInt16) : ∃ r, pciFindDevice t vendorId deviceId = some r ∧
    FirstMatch (recorded cs) (fun a ↦ cs.word a 0x00 = vendorId ∧ cs.word a 0x02 = deviceId) r
  findClass (classCode subclass progIf : UInt8) : ∃ r,
    pciFindClass t classCode subclass progIf = some r ∧
      FirstMatch (recorded cs) (fun a ↦ cs.byte a 0x0B = classCode ∧ cs.byte a 0x0A = subclass ∧
        (progIf = 0xFF ∨ cs.byte a 0x09 = progIf)) r

section
variable {dev : Device machine} {cs : ConfigSpace} {k : ℕ} {t : PciTable}

/-! ## The walk -/

/-- What is met at the first places is met first. -/
theorem counted_prefix {n : ℕ} (bus : UInt8) (hkn : k ≤ n) :
    counted cs bus k <+: counted cs bus n := by
  obtain ⟨d, rfl⟩ := Nat.exists_eq_add_of_le hkn
  rw [counted, counted, List.range_add, List.map_append, List.filter_append]
  exact List.prefix_append _ _

/-- The scan has come to the end of the bus, or of the table. -/
def Filled (cs : ConfigSpace) (t : PciTable) : Prop :=
  ∃ k ≤ 256, Clean cs k t ∧ t.count ≤ maxPciDevices ∧ (k = 256 ∨ maxPciDevices ≤ t.count)

/-- **The scan of a bus without bridges** returns, and there is nothing to recurse to. -/
theorem returns_scan_flat (hs : ServesAlways dev cs)
    (hflat : ∀ a : PciAddress, a.bus = 0 → cs.Exists a → ¬cs.IsBridge a) (depth : ℕ) :
    Returns dev (fun r ↦ ∃ s, r = some s ∧ Filled cs s.2) (pciScanBus (depth + 1) 0 .empty) := by
  refine (returns_pciScanBus hs
    (fun k t ↦ k ≤ 256 ∧ Clean cs k t ∧ t.count ≤ maxPciDevices) (Filled cs) False ?_ ?_ ?_
    ⟨by omega, clean_empty cs, Nat.zero_le _⟩).mono fun r hr ↦ ?_
  · rintro k t hk ⟨-, hclean, hle⟩ habsent
    exact ⟨hk, hclean.absent habsent, hle⟩
  · rintro k t hk ⟨-, hclean, hle⟩ hexists hfull
    exact ⟨k, hk.le, hclean, hle, Or.inr hfull⟩
  · rintro k t hk ⟨-, hclean, -⟩ hexists hslot
    have hplain := hflat (placeOf 0 k) rfl hexists
    refine returns_pciScanBridge hs (fun _ ↦ ?_) fun hbridge ↦ absurd hbridge hplain
    have hput := hclean.put hexists hslot fun hides ↦ hplain hides.1
    have hheader : (t.put t.count hslot (cs.entry (placeOf 0 k))).devices[t.count].headerType =
        cs.byte (placeOf 0 k) 0x0E := congrArg PciDevice.headerType (Vector.getElem_set_self hslot)
    refine ⟨nextPlace_le hk _, ?_, hslot⟩
    rw [hheader]
    exact hput
  · cases r with
    | none => exact hr.elim
    | some s =>
      refine ⟨s, rfl, hr.elim id ?_⟩
      rintro ⟨-, hclean, hle⟩
      exact ⟨256, le_rfl, hclean, hle, Or.inl rfl⟩

/-- What the scan leaves is what is recorded. -/
theorem Filled.recorded_eq (h : Filled cs t) : t.entries = (recorded cs).map cs.entry ∧
    t.count = min maxPciDevices (counted cs 0 256).length ∧ t.count ≤ maxPciDevices := by
  obtain ⟨k, hk, hclean, hle, hend⟩ := h
  have hprefix : counted cs 0 k <+: counted cs 0 256 := counted_prefix 0 hk
  have hlen := hprefix.length_le
  have hcount := hclean.count_eq
  have hrecorded : counted cs 0 k = recorded cs := by
    rcases hend with rfl | hfull
    · exact (List.take_of_length_le (by omega)).symm
    · have hprefix' := List.prefix_iff_eq_take.mp hprefix
      rwa [show (counted cs 0 k).length = maxPciDevices by omega] at hprefix'
  refine ⟨hrecorded ▸ hclean.entries_eq hle, ?_, hle⟩
  rw [hcount, hrecorded, recorded, List.length_take]

/-- **A search of the table** is one of the recorded functions. -/
theorem search_recorded (hentries : t.entries = (recorded cs).map cs.entry)
    (hcount : t.count ≤ maxPciDevices) (p : PciDevice → Bool) {P : PciAddress → Prop}
    (hP : ∀ a, p (cs.entry a) = true ↔ P a) :
    ∃ r, t.search p = some r ∧ FirstMatch (recorded cs) P r := by
  refine ⟨_, search_eq p hcount, ?_⟩
  rw [hentries, List.findIdx?_map]
  have hfirst := firstMatch_findIdx? (recorded cs) (p ∘ cs.entry)
  rwa [show (fun a ↦ (p ∘ cs.entry) a = true) = P from funext fun a ↦ propext (hP a)] at hfirst

theorem Filled.flatTable (h : Filled cs t) : FlatTable cs t := by
  obtain ⟨hentries, hcount, hle⟩ := h.recorded_eq
  have hget (bus device function : UInt8) := search_recorded hentries hle
    (fun d ↦ d.bus = bus ∧ d.device = device ∧ d.function = function) fun a ↦ decide_eq_true_iff
  refine ⟨hentries, hcount, hget, ?_, ?_, ?_⟩
  · intro bus device function
    obtain ⟨r, hr, hfirst⟩ := hget bus device function
    refine Iff.trans ?_ hfirst.exists_iff
    rw [show pciGetDevice t bus device function = some r from hr]
    exact exists_congr fun i ↦ Option.some_inj
  · exact fun vendorId deviceId ↦ search_recorded hentries hle _ fun a ↦ decide_eq_true_iff
  · exact fun classCode subclass progIf ↦ search_recorded hentries hle _ fun a ↦ decide_eq_true_iff

end

/-- **After `pci_init` the table is flat**, if no function on bus 0 is a bridge. -/
theorem pci_init_flat (dev : Device machine) (cs : ConfigSpace) (h : Trace machine)
    (hs : Serves dev cs h)
    (hflat : ∀ a : PciAddress, a.bus = 0 → cs.Exists a → ¬cs.IsBridge a) :
    (∃ t, PciInitReturns dev h t) ∧ ∀ t, PciInitReturns dev h t → FlatTable cs t := by
  simp only [hs.pciInitReturns_iff]
  have hs := servesAlways_withRegisters dev cs
  have hinit (depth : ℕ) : Returns (withRegisters dev cs) (fun r ↦ ∃ t, r = some t ∧ Filled cs t)
      (pciInit (depth + 1)) := by
    refine returns_pciInit_of_scan <| (returns_scan_flat hs hflat depth).mono fun r hr ↦ ?_
    obtain ⟨s, rfl, hfilled⟩ := hr
    exact ⟨s.2, rfl, hfilled⟩
  constructor
  · obtain ⟨t, ht, -⟩ := hinit 0 h
    exact ⟨t, 1, ht⟩
  · rintro t ⟨depth, ht⟩
    cases depth with
    | zero => exact absurd ht (Option.some_ne_none t).symm
    | succ depth =>
      obtain ⟨t', ht', hfilled⟩ := hinit depth h
      obtain rfl := Option.some.inj (ht'.symm.trans ht)
      exact hfilled.flatTable

/-- A configuration space in which every register reads as the same double word. -/
def crowdedBus : ConfigSpace := fun _ ↦ 0x12B78086

theorem crowdedBus_plain (a : PciAddress) : ¬crowdedBus.IsBridge a := by
  have hdword (reg : UInt8) : crowdedBus.dword a reg = 0x12B78086 := rfl
  rintro ⟨hclass, -⟩
  rw [ConfigSpace.byte, hdword] at hclass
  exact absurd hclass (by decide)

/-- With 256 functions on bus 0, there is room for the first 32. -/
theorem pci_init_flat_crowded :
    (∃ t, PciInitReturns (configMachine crowdedBus) [] t) ∧
      ∀ t, PciInitReturns (configMachine crowdedBus) [] t → FlatTable crowdedBus t :=
  pci_init_flat (configMachine crowdedBus) crowdedBus [] (serves_configMachine crowdedBus [])
    fun a _ _ ↦ crowdedBus_plain a

end Aetherion.Pci
