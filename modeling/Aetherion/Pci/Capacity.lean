import Mathlib.Logic.Relation
import Aetherion.Pci.Init
import Aetherion.Pci.Search
import Aetherion.Pci.Walk

/-!
# The counter of the table

`pci_scan_bus` looks whether there is room in the table when it comes to a function, and moves the
counter on when it is done with it.  For a bridge the scan of the bus behind it lies between the
two, and that may fill the table.

What the counter is at any point of a scan is told by a machine: its states are the calls of
`pci_scan_bus` that are open and the table (`ScanState`), and `scanStep` is one pass of a loop.  A
scan that returns is a run of this machine (`returns_reaches`).
-/

set_option autoImplicit false

namespace Aetherion.Pci

open Driver Driver.Prog

/-! ## The scan, step by step -/

/-- A call of `pci_scan_bus` that has not returned. -/
structure ScanCall where
  /-- The bus. -/
  bus : UInt8
  /-- Where its two loops are. -/
  place : ℕ
  /-- What `dev` points to; anything, before there is a function. -/
  dev : Fin maxPciDevices

/-- The open calls, the innermost one first, and the table. -/
structure ScanState where
  calls : List ScanCall
  table : PciTable

/-- The end of a pass of the loop over the functions, once what is behind the function has been
scanned; at the end of the outermost call there is no such loop. -/
def passEnd (calls : List ScanCall) (t : PciTable) : ScanState :=
  match calls with
  | [] => ⟨[], t⟩
  | c :: calls =>
    ⟨{ c with place := nextPlace c.place t.devices[c.dev].headerType } :: calls, t.advance⟩

/-- One pass of the loop over the functions in the innermost call, up to the call for the bus
behind a bridge; or the return from the call. -/
def scanPass (cs : ConfigSpace) (c : ScanCall) (calls : List ScanCall) (t : PciTable) :
    ScanState :=
  if c.place ≥ 256 then passEnd calls t
  else if ¬cs.Exists (placeOf c.bus c.place) then ⟨{ c with place := c.place + 1 } :: calls, t⟩
  else if hslot : t.count < maxPciDevices then
    if cs.IsBridge (placeOf c.bus c.place) then
      ⟨⟨cs.secondaryBus (placeOf c.bus c.place), 0, c.dev⟩ ::
        { c with dev := ⟨t.count, hslot⟩ } :: calls,
        t.put t.count hslot (cs.entry (placeOf c.bus c.place))⟩
    else
      passEnd ({ c with dev := ⟨t.count, hslot⟩ } :: calls)
        (t.put t.count hslot (cs.entry (placeOf c.bus c.place)))
  else passEnd calls t

def scanStep (cs : ConfigSpace) (s : ScanState) : Option ScanState :=
  match s.calls with
  | [] => none
  | c :: calls => some (scanPass cs c calls s.table)

/-- The scan comes from one state to another. -/
def Reaches (cs : ConfigSpace) : ScanState → ScanState → Prop :=
  Relation.ReflTransGen fun s s' ↦ scanStep cs s = some s'

/-- Where `pci_init` starts it. -/
def scanStart : ScanState := ⟨[⟨0, 0, Fin.last 31⟩], .empty⟩

section
variable {dev : Device machine} {cs : ConfigSpace} {s s' : ScanState} {t : PciTable}

theorem Reaches.pass {c : ScanCall} {calls : List ScanCall} (h : Reaches cs s ⟨c :: calls, t⟩)
    (hpass : scanPass cs c calls t = s') : Reaches cs s s' := hpass ▸ h.tail rfl

/-- **A scan that returns is a run of the machine**, up to the end of the pass in which it was
called. -/
theorem returns_reaches (hs : ServesAlways dev cs) (depth : ℕ) :
    ∀ (bus : UInt8) (slot : Fin maxPciDevices) (calls : List ScanCall) (t : PciTable),
      Returns dev (fun r ↦ ∀ s ∈ r, Reaches cs ⟨⟨bus, 0, slot⟩ :: calls, t⟩ (passEnd calls s.2))
        (pciScanBus depth bus t) := by
  induction depth with
  | zero => exact fun _ _ _ _ ↦ returns_pure (by simp)
  | succ depth ih =>
    intro bus slot calls t
    refine (returns_pciScanBus hs
      (fun k t' ↦ ∃ slot', Reaches cs ⟨⟨bus, 0, slot⟩ :: calls, t⟩ ⟨⟨bus, k, slot'⟩ :: calls, t'⟩)
      (fun t' ↦ Reaches cs ⟨⟨bus, 0, slot⟩ :: calls, t⟩ (passEnd calls t')) True
      ?_ ?_ ?_ ⟨slot, .refl⟩).mono fun r hr ↦ ?_
    · rintro k t' hk ⟨slot', hway⟩ habsent
      refine ⟨slot', hway.pass ?_⟩
      rw [scanPass, if_neg (not_le.mpr hk), if_pos habsent]
    · rintro k t' hk ⟨slot', hway⟩ hexists hfull
      refine hway.pass ?_
      rw [scanPass, if_neg (not_le.mpr hk), if_neg (not_not_intro hexists),
        dif_neg (not_lt.mpr hfull)]
    · rintro k t' hk ⟨slot', hway⟩ hexists hslot
      refine (returns_behind hs (X := fun u ↦ Reaches cs ⟨⟨bus, 0, slot⟩ :: calls, t⟩
        (passEnd (⟨bus, k, ⟨t'.count, hslot⟩⟩ :: calls) u)) (fun hplain ↦ hway.pass ?_)
        fun hbridge h s hreturn ↦ ?_).mono fun r hr ↦ ?_
      · rw [scanPass, if_neg (not_le.mpr hk), if_neg (not_not_intro hexists), dif_pos hslot,
          if_neg hplain]
      · refine .trans (hway.pass ?_) (ih _ slot' _ (t'.put _ hslot _) h s hreturn)
        rw [scanPass, if_neg (not_le.mpr hk), if_neg (not_not_intro hexists), dif_pos hslot,
          if_pos hbridge]
      · cases r with
        | none => trivial
        | some u => exact ⟨⟨t'.count, hslot⟩, hr u rfl⟩
    · rintro s rfl
      refine hr.elim id ?_
      rintro ⟨slot', hway⟩
      refine hway.pass ?_
      rw [scanPass, if_pos (show 256 ≥ 256 from le_rfl)]

theorem count_le_passEnd (calls : List ScanCall) (t : PciTable) :
    t.count ≤ (passEnd calls t).table.count := by
  cases calls with
  | nil => exact le_rfl
  | cons c calls => exact Nat.le_succ _

/-- **The counter only goes up.** -/
theorem count_le_of_step (h : scanStep cs s = some s') : s.table.count ≤ s'.table.count := by
  obtain ⟨_ | ⟨c, calls⟩, t⟩ := s
  · cases h
  obtain rfl := Option.some.inj h
  rw [scanPass]
  split_ifs with hend hexists hslot hbridge
  · exact count_le_passEnd calls t
  · exact Nat.le_refl t.count
  · exact count_le_passEnd _ (t.put t.count hslot _)
  · exact count_le_passEnd calls t
  · exact Nat.le_refl t.count

theorem Reaches.count_le (h : Reaches cs s s') : s.table.count ≤ s'.table.count := by
  induction h with
  | refl => exact le_rfl
  | tail _ hstep ih => exact ih.trans (count_le_of_step hstep)

/-- Every state that is reached is on the way to the end. -/
theorem Reaches.to_end (h : Reaches cs s s') (hend : Reaches cs s ⟨[], t⟩) :
    Reaches cs s' ⟨[], t⟩ := by
  have hunique : Relator.RightUnique fun s s' ↦ scanStep cs s = some s' :=
    fun _ _ _ h h' ↦ Option.some.inj (h.symm.trans h')
  rcases Relation.ReflTransGen.total_of_right_unique hunique h hend with hway | hback
  · exact hway
  · rcases Relation.ReflTransGen.cases_head hback with heq | ⟨_, hstep, -⟩
    · exact heq ▸ .refl
    · cases hstep

/-- What every scan of bus 0 makes true of its table is true of the table that `pci_init` leaves. -/
theorem PciInitReturns.of_scan {P : PciTable → Prop} {h : Trace machine}
    (ht : PciInitReturns dev h t)
    (hscan : ∀ depth, Returns dev (fun r ↦ ∀ s ∈ r, P s.2) (pciScanBus depth 0 .empty)) :
    P t := by
  obtain ⟨depth, ht⟩ := ht
  have hinit : Returns dev (fun r ↦ ∀ t ∈ r, P t) (pciInit depth) := by
    refine returns_pciInit_of_scan ((hscan depth).mono fun r hr t ht ↦ ?_)
    obtain ⟨s, hs, rfl⟩ := Option.map_eq_some_iff.mp ht
    exact hr s hs
  exact hinit h t ht

theorem reaches_of_returns {h : Trace machine} (hs : Serves dev cs h)
    (ht : PciInitReturns dev h t) : Reaches cs scanStart ⟨[], t⟩ := by
  rw [hs.pciInitReturns_iff] at ht
  exact ht.of_scan (P := fun t ↦ Reaches cs scanStart ⟨[], t⟩) fun depth ↦
    returns_reaches (servesAlways_withRegisters dev cs) depth 0 (Fin.last 31) [] .empty

end

/-! ## The bound on the counter -/

/-- Every loop over the table reads inside `pci_devices`. -/
structure LoopsInside (dev : Device machine) (t : PciTable) : Prop where
  findDevice : ∀ vendorId deviceId, pciFindDevice t vendorId deviceId ≠ none
  findClass : ∀ classCode subclass progIf, pciFindClass t classCode subclass progIf ≠ none
  getDevice : ∀ bus device function, pciGetDevice t bus device function ≠ none
  listDevices : Returns dev (· ≠ none) (pciListDevices t)

/-- The counter never exceeds the size of the table, and so the loops stay inside it. -/
def CounterBounded (dev : Device machine) (cs : ConfigSpace) (h : Trace machine) : Prop :=
  (∀ s, Reaches cs scanStart s → s.table.count ≤ maxPciDevices) ∧
    ∀ t, PciInitReturns dev h t → LoopsInside dev t

/-- Behind a bridge of bus 0 that the walk comes to after fewer functions than the table has room
for, it ends with still fewer than that. -/
def ConfigSpace.RoomBehindBridges (cs : ConfigSpace) : Prop :=
  ∀ k n, cs.Walk 0 0 0 k n → k < 256 → n < maxPciDevices → cs.Exists (placeOf 0 k) →
    cs.IsBridge (placeOf 0 k) →
      ∃ n' < maxPciDevices, cs.Walk (cs.secondaryBus (placeOf 0 k)) 0 n 256 n'

section
variable {dev : Device machine} {cs : ConfigSpace} {h : Trace machine} {t : PciTable}

theorem loopsInside_iff (dev : Device machine) (t : PciTable) :
    LoopsInside dev t ↔ t.count ≤ maxPciDevices := by
  constructor
  · intro hinside
    exact (returns_pciListDevices dev t []).mp (hinside.listDevices [])
  · intro hle
    exact ⟨fun _ _ ↦ search_ne_none _ hle, fun _ _ _ ↦ search_ne_none _ hle,
      fun _ _ _ ↦ search_ne_none _ hle, fun h ↦ (returns_pciListDevices dev t h).mpr hle⟩

/-- It is enough to look at the end. -/
theorem counterBounded_iff (hs : Serves dev cs h) (ht : PciInitReturns dev h t) :
    CounterBounded dev cs h ↔ t.count ≤ maxPciDevices := by
  have hend := reaches_of_returns hs ht
  constructor
  · intro hbounded
    exact hbounded.1 _ hend
  · intro hle
    have hall (s : ScanState) (hreach : Reaches cs scanStart s) : s.table.count ≤ maxPciDevices :=
      (hreach.to_end hend).count_le.trans hle
    exact ⟨hall, fun t' ht' ↦ (loopsInside_iff dev t').mpr (hall _ (reaches_of_returns hs ht'))⟩

/-- **With room behind the bridges** the table does not overflow. -/
theorem count_le_of_room (hs : Serves dev cs h) (hroom : cs.RoomBehindBridges)
    (ht : PciInitReturns dev h t) : t.count ≤ maxPciDevices := by
  rw [hs.pciInitReturns_iff] at ht
  have hs := servesAlways_withRegisters dev cs
  refine ht.of_scan (P := fun t ↦ t.count ≤ maxPciDevices) fun depth ↦ ?_
  cases depth with
  | zero => exact returns_pure (by simp)
  | succ depth =>
    refine (returns_pciScanBus hs
      (fun k t' ↦ Scanned cs 0 .empty k t' ∧ t'.count ≤ maxPciDevices)
      (fun t' ↦ t'.count ≤ maxPciDevices) True ?_ (fun _ _ _ h _ _ ↦ h.2) ?_
      ⟨scanned_start cs 0 (by decide), by decide⟩).mono fun r hr ↦ ?_
    · rintro k t' hk ⟨hscan, hle⟩ habsent
      exact ⟨hscan.absent hk habsent, hle⟩
    · rintro k t' hk ⟨hscan, -⟩ hexists hslot
      refine (returns_scannedBehind hs depth _ (t'.put _ hslot _) hslot).mono fun r hr ↦ ?_
      cases r with
      | none => trivial
      | some u =>
        have hbehind := hr u rfl
        refine ⟨hscan.found (by decide) hk hexists hslot hbehind, ?_⟩
        rcases hbehind with ⟨-, rfl⟩ | ⟨hbridge, hsub⟩
        · exact hslot
        · -- the walk behind the bridge ends in time, and the scan with it
          obtain ⟨n', hn', hwalk⟩ := hroom k _ (hscan.walk hslot) hk hslot hexists hbridge
          by_contra hover
          have hfull : maxPciDevices ≤ u.count := Nat.le_of_lt_succ (not_le.mp hover)
          exact absurd (hsub.full hfull n' hwalk) (not_le.mpr hn')
    · rintro s rfl
      exact hr.elim id And.right

/-- **With too much behind a bridge** it does. -/
theorem room_of_count_le (hs : Serves dev cs h) (ht : PciInitReturns dev h t)
    (hle : t.count ≤ maxPciDevices) : cs.RoomBehindBridges := by
  rw [hs.pciInitReturns_iff] at ht
  have hs := servesAlways_withRegisters dev cs
  intro k n hwalk hk hn hexists hbridge
  by_contra! hmany
  refine absurd hle (not_le.mpr ?_)
  refine ht.of_scan (P := fun t ↦ maxPciDevices < t.count) fun depth ↦ ?_
  cases depth with
  | zero => exact returns_pure (by simp)
  | succ depth =>
    refine (returns_scan_past hs (t := .empty) hwalk hk hn hexists hbridge
      (X := fun u ↦ maxPciDevices ≤ u.count) (fun _ ↦ id) ?_).mono ?_
    · intro p hp h s hreturn
      subst hp
      have hscan := returns_scan hs depth _ p hn h s hreturn
      by_contra hroom
      exact hmany s.2.count (not_le.mp hroom) (hscan.walk (not_le.mp hroom))
    · intro r hr s hreturn
      obtain ⟨u, hfull, hlt⟩ := hr s hreturn
      exact hfull.trans_lt hlt

/-- **The counter stays within the table exactly when the bus behind each bridge of bus 0 has been
scanned before the table is full.**  This is said of the walk, which knows nothing of the table; the
bridges that matter are those it comes to before it has met as many functions as the table has
room for. -/
theorem counter_bounded_iff (hs : Serves dev cs h) (hreturns : ∃ t, PciInitReturns dev h t) :
    CounterBounded dev cs h ↔ cs.RoomBehindBridges := by
  obtain ⟨t, ht⟩ := hreturns
  rw [counterBounded_iff hs ht]
  exact ⟨room_of_count_le hs ht, fun hroom ↦ count_le_of_room hs hroom ht⟩

end

/-- A bridge with at most one function behind it is no danger. -/
theorem room_oneBridge (behind : Bool) : (oneBridge behind).RoomBehindBridges := by
  intro k n hwalk hk hn hexists hbridge
  obtain rfl : k = 0 := placeOf_inj hk (by decide) (eq_of_isBridge_oneBridge hexists hbridge)
  obtain rfl : n = 0 := hwalk.eq_of_place
  rw [show (oneBridge behind).secondaryBus (placeOf 0 0) = 1 by cases behind <;> decide]
  have habsent (j : ℕ) (hj : j < 256) (hne : behind = false ∨ j ≠ 0) :
      ¬(oneBridge behind).Exists (placeOf 1 j) := by
    intro hthere
    rcases exists_oneBridge hthere with hplace | ⟨rfl, hplace⟩
    · exact absurd (congrArg PciAddress.bus hplace) (show (1 : UInt8) ≠ 0 by decide)
    · obtain hfalse | hne := hne
      · exact Bool.noConfusion hfalse
      · exact hne (placeOf_inj hj (by decide) hplace)
  cases behind with
  | false => exact ⟨0, by decide, walk_of_absent (by decide) le_rfl fun j _ hj ↦
      habsent j hj (Or.inl rfl)⟩
  | true =>
    -- the function is the only one of its device
    refine ⟨1, by decide, .plain (by decide) (by decide) (by decide) ?_⟩
    exact walk_of_absent (by decide) le_rfl fun j hle hj ↦
      habsent j hj (Or.inr fun hzero ↦ absurd (hzero ▸ hle) (by decide))

/-- A bridge with nothing behind it takes one place. -/
theorem counter_bounded_lone :
    CounterBounded (configMachine (oneBridge false)) (oneBridge false) [] :=
  (counter_bounded_iff (serves_configMachine (oneBridge false) [])
    (exists_returns_oneBridge false)).mpr (room_oneBridge false)

/-! ## A full bus -/

/-- A bridge at 0:0.0 that leads to bus 1, where every device has a function. -/
def fullBus : ConfigSpace := fun address ↦
  if address = 0x80000000 then 0x29448086
  else if address = 0x80000008 then 0x06040000
  else if address = 0x8000000C then 0x00010000
  else if address = 0x80000018 then 0x00010100
  else if address.toNat / 65536 = 0x8001 ∧ address.toNat % 2048 = 0 then 0x100E8086
  else 0

theorem eq_of_isBridge_fullBus {a : PciAddress} (ha : fullBus.IsBridge a) : a = ⟨0, 0, 0⟩ := by
  have haddress := toNat_pciMakeAddress a 0x08
  rw [show ((0x08 : UInt8) &&& 0xFC).toNat = 8 from rfl] at haddress
  have hclass := ha.1
  rw [ConfigSpace.byte, show (0x0B : UInt8) &&& ~~~3 = 0x08 from rfl, ConfigSpace.dword] at hclass
  generalize pciMakeAddress a.bus (.ofNat a.device) (.ofNat a.function) 0x08 = address at *
  obtain ⟨bus, device, function⟩ := a
  simp only at haddress
  rw [fullBus] at hclass
  split_ifs at hclass with h h h h h
  · simp only [h, UInt32.reduceToNat] at haddress
    omega
  · simp only [h, UInt32.reduceToNat] at haddress
    rw [PciAddress.mk.injEq, Fin.ext_iff, Fin.ext_iff, ← UInt8.toNat_inj]
    refine ⟨?_, ?_, ?_⟩
    · change bus.toNat = 0
      omega
    · change device.val = 0
      omega
    · change function.val = 0
      omega
  · simp only [h, UInt32.reduceToNat] at haddress
    omega
  · simp only [h, UInt32.reduceToNat] at haddress
    omega
  · omega
  · exact absurd hclass (by decide)

theorem walk_fullBus {n : ℕ} (hn : n ≤ 32) : fullBus.Walk 1 0 0 (8 * n) n := by
  have hplace : ∀ n : Fin 32, fullBus.Exists (placeOf 1 (8 * n)) ∧
      ¬fullBus.IsBridge (placeOf 1 (8 * n)) ∧
      fullBus.byte (placeOf 1 (8 * n)) 0x0E &&& 0x80 = 0 := by decide +kernel
  induction n with
  | zero => exact .refl
  | succ n ih =>
    obtain ⟨hexists, hplain, hsingle⟩ := hplace ⟨n, hn⟩
    refine (ih (by omega)).trans (.plain (by omega) hexists hplain ?_)
    rw [nextPlace, if_pos ⟨by omega, hsingle⟩]
    exact .refl

/-- With a full bus behind it, the bridge is counted past the end of the table. -/
theorem bridge_past_the_end :
    (∃ t, PciInitReturns (configMachine fullBus) [] t) ∧
      ¬CounterBounded (configMachine fullBus) fullBus [] := by
  have hs := serves_configMachine fullBus []
  obtain ⟨t, ht⟩ : ∃ t, PciInitReturns (configMachine fullBus) [] t := by
    refine exists_pciInitReturns hs (fun bus ↦ if bus = 0 then 1 else 0) fun a _ hbridge ↦ ?_
    rw [eq_of_isBridge_fullBus hbridge]
    decide
  refine ⟨⟨t, ht⟩, fun hbounded ↦ ?_⟩
  have hroom := room_of_count_le hs ht ((counterBounded_iff hs ht).mp hbounded)
  obtain ⟨n', hn', hwalk⟩ := hroom 0 0 .refl (by decide) (by decide) (by decide) (by decide)
  have hcount : n' = 32 := hwalk.count_unique (walk_fullBus le_rfl)
  exact absurd (hcount ▸ hn') (lt_irrefl 32)

end Aetherion.Pci
