import Aetherion.Base.Descent
import Aetherion.Pci.Init
import Aetherion.Pci.Walk

/-!
# When `pci_init` comes to an end

A scan calls itself for the bus behind every bridge, and takes the number of that bus as the
hardware gives it.  The table bounds the number of functions a scan can be done with, but at a
bridge the call comes before the counter moves.  So the scan is lost on a bus from which the first
function always leads on, to a bus whose first function again is a bridge (`Bottomless`), and on no
other: a call that is made without a function recorded since the last one is for the bus behind the
first function of a bus.

Where the scan comes to no such bus, its calls are never more than 8192 deep.
-/

set_option autoImplicit false

namespace Aetherion.Pci

open Driver Driver.Prog Descent

namespace ConfigSpace

variable (cs : ConfigSpace)

/-- The first function of the bus is a bridge, and it leads to `c`. -/
def Descends (bus c : UInt8) : Prop :=
  ∃ a, cs.First bus a ∧ cs.IsBridge a ∧ cs.secondaryBus a = c

/-- Going from the bus always to the one behind the first function, one never comes to a bus from
which it is not possible to go on. -/
def Bottomless (bus : UInt8) : Prop :=
  ∀ c, Relation.ReflTransGen cs.Descends bus c → ∃ d, cs.Descends c d

/-- The walk enters the bus after `n` functions, before it has met as many as the table has room
for. -/
inductive Entered : UInt8 → ℕ → Prop
  | root : Entered 0 0
  | bridge {bus : UInt8} {k n n' : ℕ} (h : Entered bus n) (hwalk : cs.Walk bus 0 n k n')
      (hk : k < 256) (hn' : n' < maxPciDevices) (ha : cs.Exists (placeOf bus k))
      (hbridge : cs.IsBridge (placeOf bus k)) : Entered (cs.secondaryBus (placeOf bus k)) n'

/-- No bus that is entered is bottomless. -/
def Grounded : Prop := ∀ bus n, cs.Entered bus n → ¬cs.Bottomless bus

end ConfigSpace

/-- `pci_init` returns. -/
def PciInitTerminates (dev : Device machine) (h : Trace machine) : Prop :=
  ∃ t, PciInitReturns dev h t

/-- How deep the calls of `pci_scan_bus` can be: as many as there are buses for each place of the
table. -/
abbrev maxScanDepth : ℕ := maxPciDevices * 256

section
variable {dev : Device machine} {cs : ConfigSpace} {bus c : UInt8} {n : ℕ}

/-! ## Bottomless buses -/

theorem descends_unique (cs : ConfigSpace) : Relator.RightUnique cs.Descends := by
  rintro bus _ _ ⟨a, ha, -, rfl⟩ ⟨b, hb, -, rfl⟩
  rw [ha.unique hb]

theorem ConfigSpace.Bottomless.next (h : cs.Bottomless bus) (hstep : cs.Descends bus c) :
    cs.Bottomless c := fun d hchain ↦ h d (.head hstep hchain)

theorem ends_of_not_bottomless (h : ¬cs.Bottomless bus) : Ends cs.Descends bus := by
  rw [ConfigSpace.Bottomless] at h
  push Not at h
  exact h

instance finite_uint8 : Finite UInt8 := Finite.of_injective UInt8.toFin fun _ _ ↦ UInt8.toFin_inj.mp

theorem card_uint8 : Nat.card UInt8 ≤ 256 := by
  have hcard := Nat.card_le_card_of_injective UInt8.toFin fun _ _ ↦ UInt8.toFin_inj.mp
  rwa [Nat.card_fin] at hcard

/-- The scan of a bus does not return if that behind a bridge it comes to does not. -/
theorem returns_none_past (hs : ServesAlways dev cs) {depth : ℕ} {t : PciTable} {k : ℕ}
    (hwalk : cs.Walk bus 0 t.count k n) (hk : k < 256) (hn : n < maxPciDevices)
    (ha : cs.Exists (placeOf bus k)) (hbridge : cs.IsBridge (placeOf bus k))
    (hnone : ∀ p : PciTable, p.count = n →
      Returns dev (· = none) (pciScanBus depth (cs.secondaryBus (placeOf bus k)) p)) :
    Returns dev (· = none) (pciScanBus (depth + 1) bus t) := by
  refine (returns_scan_past hs hwalk hk hn ha hbridge (X := fun _ ↦ False)
    (fun _ ↦ False.elim) ?_).mono ?_
  · intro p hp h s hreturn
    rw [hnone p hp h] at hreturn
    cases hreturn
  · intro r hr
    refine Option.eq_none_iff_forall_not_mem.mpr fun s hreturn ↦ ?_
    obtain ⟨_, hfalse, -⟩ := hr s hreturn
    exact hfalse

/-- **The scan of a bottomless bus does not return.** -/
theorem returns_bottomless (hs : ServesAlways dev cs) (depth : ℕ) :
    ∀ bus, cs.Bottomless bus → ∀ t : PciTable, t.count < maxPciDevices →
      Returns dev (· = none) (pciScanBus depth bus t) := by
  induction depth with
  | zero => exact fun _ _ _ _ ↦ returns_pure rfl
  | succ depth ih =>
    intro bus hbus t ht
    obtain ⟨c, hstep⟩ := hbus bus .refl
    have hc := hbus.next hstep
    obtain ⟨_, ⟨k, hk, rfl, ha, hbefore⟩, hbridge, rfl⟩ := hstep
    have hwalk : cs.Walk bus 0 t.count k t.count :=
      walk_of_absent k.zero_le hk.le fun j _ hj ↦ hbefore j hj
    exact returns_none_past hs hwalk hk ht ha hbridge fun p hp ↦
      ih _ hc p (hp ▸ ht)

/-- Nor does the scan of a bus from which it enters one that it does not return from. -/
theorem ConfigSpace.Entered.returns_none (hs : ServesAlways dev cs) (hentered : cs.Entered bus n)
    (hnone : ∀ depth (t : PciTable), t.count = n →
      Returns dev (· = none) (pciScanBus depth bus t)) :
    ∀ depth (t : PciTable), t.count = 0 → Returns dev (· = none) (pciScanBus depth 0 t) := by
  induction hentered with
  | root => exact hnone
  | bridge _ hwalk hk hn' ha hbridge ih =>
    refine ih fun depth t ht ↦ ?_
    cases depth with
    | zero => exact returns_pure rfl
    | succ depth => exact returns_none_past hs (ht ▸ hwalk) hk hn' ha hbridge (hnone depth)

theorem ConfigSpace.Entered.lt (h : cs.Entered bus n) : n < maxPciDevices := by
  cases h with
  | root => decide
  | bridge _ _ _ hn' => exact hn'

theorem grounded_of_terminates {h : Trace machine} (hs : Serves dev cs h)
    (hterminates : PciInitTerminates dev h) : cs.Grounded := by
  intro bus n hentered hbottomless
  obtain ⟨t, ht⟩ := hterminates
  rw [hs.pciInitReturns_iff] at ht
  obtain ⟨depth, ht⟩ := ht
  have hs := servesAlways_withRegisters dev cs
  have hnone := hentered.returns_none hs
    (fun depth t ht ↦ returns_bottomless hs depth bus hbottomless t (ht ▸ hentered.lt))
    depth .empty rfl
  have hinit : Returns (withRegisters dev cs) (· = none) (pciInit depth) :=
    returns_pciInit_of_scan (hnone.mono fun r hr ↦ by rw [hr, Option.map_none])
  rw [hinit h] at ht
  cases ht

/-! ## How deep the calls are -/

/-- A bound on the depth of the calls that the scan of a bus leads to, with `n` entries in the
table. -/
noncomputable def depthBound (cs : ConfigSpace) (bus : UInt8) (n : ℕ) : ℕ :=
  (maxPciDevices - 1 - n) * 256 + chainLength cs.Descends bus

/-- **A call for the bus behind a bridge needs less.** -/
theorem depthBound_lt {t t' : PciTable} {k : ℕ} (hground : cs.Grounded)
    (hentered : cs.Entered bus t.count) (hscan : Scanned cs bus t k t') (hk : k < 256)
    (hslot : t'.count < maxPciDevices) (ha : cs.Exists (placeOf bus k))
    (hbridge : cs.IsBridge (placeOf bus k)) :
    depthBound cs (cs.secondaryBus (placeOf bus k)) t'.count < depthBound cs bus t.count := by
  have hentered' := hentered.bridge (hscan.walk hslot) hk hslot ha hbridge
  have hends := ends_of_not_bottomless (hground _ _ hentered)
  have hends' := ends_of_not_bottomless (hground _ _ hentered')
  have hlt := chainLength_lt_card (descends_unique cs) hends'
  have hcard := card_uint8
  rw [depthBound, depthBound]
  rcases hscan.first with ⟨rfl, hnone⟩ | ⟨hmore, -⟩
  · -- nothing has been recorded, so this is the first function of the bus
    have hstep := chainLength_lt (descends_unique cs) hends
      ⟨_, ⟨k, hk, rfl, ha, hnone⟩, hbridge, rfl⟩
    omega
  · have hle : (maxPciDevices - 1 - t'.count) + 1 ≤ maxPciDevices - 1 - t.count := by omega
    calc (maxPciDevices - 1 - t'.count) * 256 + chainLength cs.Descends _
        < (maxPciDevices - 1 - t'.count) * 256 + 256 := by omega
      _ = (maxPciDevices - 1 - t'.count + 1) * 256 := by rw [Nat.add_mul, Nat.one_mul]
      _ ≤ (maxPciDevices - 1 - t.count) * 256 := Nat.mul_le_mul_right 256 hle
      _ ≤ _ := Nat.le_add_right _ _

/-- **A scan that is allowed so many calls returns.** -/
theorem returns_isSome (hs : ServesAlways dev cs) (hground : cs.Grounded) (depth : ℕ) :
    ∀ (bus : UInt8) (t : PciTable), cs.Entered bus t.count → depthBound cs bus t.count < depth →
      Returns dev (fun r ↦ r.isSome = true) (pciScanBus depth bus t) := by
  induction depth with
  | zero => exact fun _ _ _ hlt ↦ absurd hlt (Nat.not_lt_zero _)
  | succ depth ih =>
    intro bus t hentered hdepth
    have ht := hentered.lt
    refine (returns_pciScanBus hs (Scanned cs bus t) (fun _ ↦ True) False
      (fun k t' hk h ha ↦ h.absent hk ha) (fun _ _ _ _ _ _ ↦ trivial) ?_
      (scanned_start cs bus ht)).mono fun r hr ↦ ?_
    · intro k t' hk hscan ha hslot h
      have hsome : Returns dev (fun r ↦ r.isSome = true)
          (pciScanBridge (pciScanBus depth) (cs.entry (placeOf bus k))
            (t'.put _ hslot (cs.entry (placeOf bus k)))) := by
        refine returns_pciScanBridge hs (fun _ ↦ rfl) fun hbridge ↦ ?_
        have hless := depthBound_lt hground hentered hscan hk hslot ha hbridge
        refine (ih _ (t'.put _ hslot _)
          (hentered.bridge (hscan.walk hslot) hk hslot ha hbridge) ?_).mono fun r hr ↦ ?_
        · exact hless.trans_le (Nat.le_of_lt_succ hdepth)
        · rwa [Option.isSome_map]
      obtain ⟨u, hu⟩ := Option.isSome_iff_exists.mp (hsome h)
      have hbehind := returns_scannedBehind hs depth _ (t'.put _ hslot _) hslot h u hu
      rw [hu]
      exact hscan.found ht hk ha hslot hbehind
    · cases r with
      | none => exact hr.elim
      | some s => rfl

theorem terminates_of_grounded {h : Trace machine} (hs : Serves dev cs h)
    (hground : cs.Grounded) : ∃ t, (pciInit maxScanDepth).value dev h = some t := by
  rw [hs.value_pciInit]
  have hs := servesAlways_withRegisters dev cs
  have hlt := chainLength_lt_card (descends_unique cs)
    (ends_of_not_bottomless (hground 0 0 .root))
  have hcard := card_uint8
  have hscan := returns_isSome hs hground maxScanDepth 0 .empty .root (by
    change (32 - 1 - 0) * 256 + _ < 32 * 256
    omega)
  have hinit : Returns (withRegisters dev cs) (fun r ↦ r.isSome = true) (pciInit maxScanDepth) :=
    returns_pciInit_of_scan (hscan.mono fun r hr ↦ by rwa [Option.isSome_map])
  exact Option.isSome_iff_exists.mp (hinit h)

/-- **`pci_init` terminates exactly when the walk enters no bottomless bus**, and then its calls
are never more than 8192 deep. -/
theorem pci_init_terminates_iff {h : Trace machine} (hs : Serves dev cs h) :
    (PciInitTerminates dev h ↔ cs.Grounded) ∧
      (cs.Grounded → ∃ t, (pciInit maxScanDepth).value dev h = some t) := by
  refine ⟨⟨grounded_of_terminates hs, fun hground ↦ ?_⟩, terminates_of_grounded hs⟩
  obtain ⟨t, ht⟩ := terminates_of_grounded hs hground
  exact ⟨t, maxScanDepth, ht⟩

end

/-- There is nothing to be lost in behind the only bridge. -/
theorem grounded_oneBridge (behind : Bool) : (oneBridge behind).Grounded := by
  have hstep {bus c : UInt8} (h : (oneBridge behind).Descends bus c) : bus = 0 ∧ c = 1 := by
    obtain ⟨a, hfirst, hbridge, rfl⟩ := h
    obtain rfl := eq_of_isBridge_oneBridge hfirst.exists hbridge
    exact ⟨hfirst.bus_eq.symm, by cases behind <;> decide⟩
  intro bus n _ hbottomless
  obtain ⟨c, hc⟩ := hbottomless bus .refl
  obtain ⟨d, hd⟩ := hbottomless c (.single hc)
  have hone := (hstep hc).2
  rw [(hstep hd).1] at hone
  exact absurd hone (by decide)

/-- With an empty bus behind it. -/
theorem pci_init_terminates_lone :
    PciInitTerminates (configMachine (oneBridge false)) [] ∧
      ∃ t, (pciInit maxScanDepth).value (configMachine (oneBridge false)) [] = some t := by
  have hground := grounded_oneBridge false
  have hboth := pci_init_terminates_iff (serves_configMachine (oneBridge false) [])
  exact ⟨hboth.1.mpr hground, hboth.2 hground⟩

/-! ## A bridge to its own bus -/

/-- A bridge at 0:0.0 whose secondary bus number is 0. -/
def ownBus : ConfigSpace := fun address ↦
  if address = 0x80000000 then 0x29448086
  else if address = 0x80000008 then 0x06040000
  else if address = 0x8000000C then 0x00010000
  else 0

/-- A bridge that leads to its own bus is scanned for ever. -/
theorem own_bus_scanned_for_ever : ¬PciInitTerminates (configMachine ownBus) [] := by
  intro hterminates
  refine grounded_of_terminates (serves_configMachine ownBus []) hterminates 0 0 .root ?_
  have hfirst : ownBus.First 0 ⟨0, 0, 0⟩ :=
    ⟨0, by decide, by decide, by decide, fun j hj ↦ absurd hj (Nat.not_lt_zero j)⟩
  have hstep : ownBus.Descends 0 0 := ⟨_, hfirst, by decide, by decide⟩
  intro c hchain
  have hzero : c = 0 := by
    induction hchain with
    | refl => rfl
    | tail _ hnext ih =>
      subst ih
      exact descends_unique _ hnext hstep
  exact ⟨0, hzero ▸ hstep⟩

end Aetherion.Pci
