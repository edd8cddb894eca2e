import Aetherion.Pci.Faithful

/-!
# The walk that a scan makes

`ConfigSpace.Walk` is the depth-first walk over the functions of a bus and of the buses behind its
bridges, counting them as it goes, on the configuration space alone: it has no table, and so no end
to one.  A bridge is counted after what is behind it.  After that the scan reads the header type of
the bridge again, from a place in the table which by then another function may have taken
(`ConfigSpace.Leads`).

As long as the table has room, a scan follows the walk (`returns_scan`).
-/

set_option autoImplicit false

namespace Aetherion.Pci

open Driver Driver.Prog

namespace ConfigSpace

variable (cs : ConfigSpace)

/-- The first function on the bus. -/
def First (bus : UInt8) (a : PciAddress) : Prop :=
  ∃ k < 256, placeOf bus k = a ∧ cs.Exists a ∧ ∀ j < k, ¬cs.Exists (placeOf bus j)

/-- `d` ends up at the place in the table where the scan of `a` began: the first function behind
a bridge takes the place of the bridge. -/
inductive Leads : PciAddress → PciAddress → Prop
  | last {a : PciAddress} (h : ¬cs.Hides a) : Leads a a
  | next {a b d : PciAddress} (hbridge : cs.IsBridge a) (hfirst : cs.First (cs.secondaryBus a) b)
      (h : Leads b d) : Leads a d

/-- The walk over a bus comes from place `k` after `n` functions to place `k'` after `n'`. -/
inductive Walk : UInt8 → ℕ → ℕ → ℕ → ℕ → Prop
  | refl {bus : UInt8} {k n : ℕ} : Walk bus k n k n
  | absent {bus : UInt8} {k n k' n' : ℕ} (hk : k < 256) (ha : ¬cs.Exists (placeOf bus k))
      (h : Walk bus (k + 1) n k' n') : Walk bus k n k' n'
  | plain {bus : UInt8} {k n k' n' : ℕ} (hk : k < 256) (ha : cs.Exists (placeOf bus k))
      (hplain : ¬cs.IsBridge (placeOf bus k))
      (h : Walk bus (nextPlace k (cs.byte (placeOf bus k) 0x0E)) (n + 1) k' n') : Walk bus k n k' n'
  | bridge {bus : UInt8} {k n n₁ k' n' : ℕ} {d : PciAddress} (hk : k < 256)
      (ha : cs.Exists (placeOf bus k)) (hbridge : cs.IsBridge (placeOf bus k))
      (hbehind : Walk (cs.secondaryBus (placeOf bus k)) 0 n 256 n₁)
      (hd : Leads cs (placeOf bus k) d)
      (h : Walk bus (nextPlace k (cs.byte d 0x0E)) (n₁ + 1) k' n') : Walk bus k n k' n'

end ConfigSpace

section
variable {cs : ConfigSpace} {bus : UInt8} {a b d d' : PciAddress} {k n k' n' k₁ n₁ k₂ n₂ : ℕ}

/-! ## First functions -/

theorem ConfigSpace.First.exists (h : cs.First bus a) : cs.Exists a := by
  obtain ⟨k, -, -, ha, -⟩ := h
  exact ha

theorem ConfigSpace.First.bus_eq (h : cs.First bus a) : a.bus = bus := by
  obtain ⟨k, -, rfl, -⟩ := h
  rfl

theorem ConfigSpace.First.unique (ha : cs.First bus a) (hb : cs.First bus b) : a = b := by
  obtain ⟨i, -, rfl, hi, hbefore⟩ := ha
  obtain ⟨j, -, rfl, hj, hbefore'⟩ := hb
  rcases lt_trichotomy i j with hlt | rfl | hlt
  · exact absurd hi (hbefore' i hlt)
  · rfl
  · exact absurd hj (hbefore j hlt)

theorem ConfigSpace.Leads.unique (h : cs.Leads a d) (h' : cs.Leads a d') : d = d' := by
  induction h with
  | last hides =>
    cases h' with
    | last => rfl
    | next hbridge hfirst => exact absurd ⟨hbridge, _, hfirst.bus_eq, hfirst.exists⟩ hides
  | next hbridge hfirst _ ih =>
    cases h' with
    | last hides => exact absurd ⟨hbridge, _, hfirst.bus_eq, hfirst.exists⟩ hides
    | next _ hfirst' h' =>
      obtain rfl := hfirst.unique hfirst'
      exact ih h'

/-! ## Walks -/

theorem ConfigSpace.Walk.trans (h : cs.Walk bus k n k₁ n₁) (h' : cs.Walk bus k₁ n₁ k' n') :
    cs.Walk bus k n k' n' := by
  induction h with
  | refl => exact h'
  | absent hk ha _ ih => exact .absent hk ha (ih h')
  | plain hk ha hplain _ ih => exact .plain hk ha hplain (ih h')
  | bridge hk ha hbridge hbehind hd _ _ ih => exact .bridge hk ha hbridge hbehind hd (ih h')

theorem ConfigSpace.Walk.le (h : cs.Walk bus k n k' n') : n ≤ n' := by
  induction h with
  | refl => exact le_rfl
  | absent _ _ _ ih => exact ih
  | plain _ _ _ _ ih => omega
  | bridge _ _ _ _ _ _ ih₁ ih => omega

/-- There is nowhere to go from the end of a bus. -/
theorem ConfigSpace.Walk.eq_of_end (h : cs.Walk bus 256 n k' n') : n' = n := by
  cases h with
  | refl => rfl
  | absent hlt | plain hlt | bridge hlt => omega

/-- **There is one walk**: a walk to the end of the bus passes through every place that a walk
comes to. -/
theorem ConfigSpace.Walk.rest (h : cs.Walk bus k n k₁ n₁) (h' : cs.Walk bus k n 256 n₂) :
    cs.Walk bus k₁ n₁ 256 n₂ := by
  generalize hend : 256 = last at h'
  induction h generalizing n₂ with
  | refl => exact hend ▸ h'
  | absent hk ha _ ih =>
    cases h' with
    | refl => omega
    | absent _ _ h' => exact ih h'
    | plain _ hexists | bridge _ hexists => exact absurd hexists ha
  | plain hk ha hplain _ ih =>
    cases h' with
    | refl => omega
    | absent _ habsent => exact absurd ha habsent
    | plain _ _ _ h' => exact ih h'
    | bridge _ _ hbridge => exact absurd hbridge hplain
  | bridge hk ha hbridge _ hd _ ih₁ ih =>
    cases h' with
    | refl => omega
    | absent _ habsent => exact absurd ha habsent
    | plain _ _ hplain => exact absurd hbridge hplain
    | bridge _ _ _ hbehind' hd' h' =>
      obtain rfl := (ih₁ (hend ▸ hbehind')).eq_of_end
      obtain rfl := hd.unique hd'
      exact ih h'

theorem lt_nextPlace (k : ℕ) (headerType : UInt8) : k < nextPlace k headerType := by
  rw [nextPlace]
  split <;> omega

theorem ConfigSpace.Walk.place_le (h : cs.Walk bus k n k' n') : k ≤ k' := by
  induction h with
  | refl => exact le_rfl
  | absent _ _ _ ih => omega
  | plain _ _ _ _ ih | bridge _ _ _ _ _ _ _ ih => exact (lt_nextPlace _ _).le.trans ih

/-- A walk that has not left its place has met nothing. -/
theorem ConfigSpace.Walk.eq_of_place (h : cs.Walk bus k n k n') : n' = n := by
  cases h with
  | refl => rfl
  | absent _ _ h => exact absurd h.place_le (by omega)
  | plain _ _ _ h | bridge _ _ _ _ _ h => exact absurd h.place_le (not_le.mpr (lt_nextPlace _ _))

/-- Nothing is met where there is nothing. -/
theorem walk_of_absent (hle : k ≤ k') (hk' : k' ≤ 256)
    (habsent : ∀ j, k ≤ j → j < k' → ¬cs.Exists (placeOf bus j)) : cs.Walk bus k n k' n := by
  induction k', hle using Nat.le_induction with
  | base => exact .refl
  | succ k' hle ih =>
    exact (ih (by omega) fun j hj hlt ↦ habsent j hj (by omega)).trans
      (.absent (by omega) (habsent k' hle (by omega)) .refl)

/-- The number of functions at the end of a bus. -/
theorem ConfigSpace.Walk.count_unique (h : cs.Walk bus k n 256 n₁) (h' : cs.Walk bus k n 256 n₂) :
    n₁ = n₂ := (h.rest h').eq_of_end.symm

end

/-! ## Scans -/

/-- What a scan of a bus that began with the table `t` has come to at place `k`: while there is
room it is where the walk is, and once there is none, the walk to the end of the bus meets more
functions than there are places in the table. -/
structure Scanned (cs : ConfigSpace) (bus : UInt8) (t : PciTable) (k : ℕ) (t' : PciTable) :
    Prop where
  count_le : t.count ≤ t'.count
  below : ∀ i (hi : i < maxPciDevices), i < t.count → t'.devices[i] = t.devices[i]
  walk : t'.count < maxPciDevices → cs.Walk bus 0 t.count k t'.count
  full : maxPciDevices ≤ t'.count → ∀ n, cs.Walk bus 0 t.count 256 n → maxPciDevices ≤ n
  first : (t' = t ∧ ∀ j < k, ¬cs.Exists (placeOf bus j)) ∨ t.count < t'.count ∧
    ∃ b d, cs.First bus b ∧ cs.Leads b d ∧ ∀ hslot : t.count < maxPciDevices,
      t'.devices[t.count] = cs.entry d

/-- What is done behind a function: nothing, unless it is a bridge. -/
def ScannedBehind (cs : ConfigSpace) (a : PciAddress) (t t' : PciTable) : Prop :=
  (¬cs.IsBridge a ∧ t' = t) ∨ (cs.IsBridge a ∧ Scanned cs (cs.secondaryBus a) t 256 t')

section
variable {cs : ConfigSpace} {bus : UInt8} {a : PciAddress} {k n : ℕ} {t t' u : PciTable}

theorem scanned_start (cs : ConfigSpace) (bus : UInt8) (ht : t.count < maxPciDevices) :
    Scanned cs bus t 0 t :=
  ⟨le_rfl, fun _ _ _ ↦ rfl, fun _ ↦ .refl, by omega, Or.inl ⟨rfl, by omega⟩⟩

theorem Scanned.absent (h : Scanned cs bus t k t') (hk : k < 256)
    (ha : ¬cs.Exists (placeOf bus k)) : Scanned cs bus t (k + 1) t' :=
  { h with
    walk := fun hroom ↦ (h.walk hroom).trans (.absent hk ha .refl)
    first := h.first.imp_left fun ⟨heq, hnone⟩ ↦
      ⟨heq, Nat.forall_lt_succ_right.mpr ⟨hnone, ha⟩⟩ }

/-- Once the table is full it does not matter at which place the scan gives up. -/
theorem Scanned.of_full (h : Scanned cs bus t k t') (ht : t.count < maxPciDevices)
    (hfull : maxPciDevices ≤ t'.count) : Scanned cs bus t 256 t' :=
  { h with
    walk := by omega
    first := Or.inr (h.first.resolve_left fun ⟨heq, _⟩ ↦ by subst heq; omega) }

/-- The scan leaves its place in the table to what the function leads to. -/
theorem ScannedBehind.leads (h : ScannedBehind cs a t u) (hslot : t.count < maxPciDevices)
    (ha : t.devices[t.count] = cs.entry a) :
    ∃ d, cs.Leads a d ∧ u.devices[t.count] = cs.entry d := by
  rcases h with ⟨hplain, rfl⟩ | ⟨hbridge, h⟩
  · exact ⟨a, .last fun hides ↦ hplain hides.1, ha⟩
  rcases h.first with ⟨rfl, hnone⟩ | ⟨-, b, d, hfirst, hd, hentry⟩
  · refine ⟨a, .last ?_, ha⟩
    rintro ⟨-, b, hbus, hb⟩
    obtain ⟨k, hk, hplace⟩ := exists_placeOf b
    rw [hbus] at hplace
    exact hnone k hk (hplace ▸ hb)
  · exact ⟨d, .next hbridge hfirst hd, hentry hslot⟩

theorem ScannedBehind.count_le (h : ScannedBehind cs a t u) : t.count ≤ u.count := by
  rcases h with ⟨-, rfl⟩ | ⟨-, h⟩
  · exact le_rfl
  · exact h.count_le

theorem ScannedBehind.below (h : ScannedBehind cs a t u) {i : ℕ} (hi : i < maxPciDevices)
    (hlt : i < t.count) : u.devices[i] = t.devices[i] := by
  rcases h with ⟨-, rfl⟩ | ⟨-, h⟩
  · rfl
  · exact h.below i hi hlt

/-- With room left after what is behind the function, the walk goes on after it. -/
theorem ScannedBehind.walk (h : ScannedBehind cs (placeOf bus k) t u) (hk : k < 256)
    (ha : cs.Exists (placeOf bus k)) {d : PciAddress} (hd : cs.Leads (placeOf bus k) d)
    (hroom : u.count < maxPciDevices) :
    cs.Walk bus k t.count (nextPlace k (cs.byte d 0x0E)) (u.count + 1) := by
  rcases h with ⟨hplain, rfl⟩ | ⟨hbridge, h⟩
  · obtain rfl := hd.unique (.last fun hides ↦ hplain hides.1)
    exact .plain hk ha hplain .refl
  · exact .bridge hk ha hbridge (h.walk hroom) hd .refl

/-- With no room left, the walk comes past the function with too many. -/
theorem ScannedBehind.full (h : ScannedBehind cs (placeOf bus k) t u) (hk : k < 256)
    (ha : cs.Exists (placeOf bus k)) (hslot : t.count < maxPciDevices)
    (hfull : maxPciDevices ≤ u.count) (hn : cs.Walk bus k t.count 256 n) : maxPciDevices ≤ n := by
  rcases h with ⟨-, rfl⟩ | ⟨hbridge, h⟩
  · omega
  cases hn with
  | refl => omega
  | absent _ habsent => exact absurd ha habsent
  | plain _ _ hplain => exact absurd hbridge hplain
  | bridge _ _ _ hbehind _ hrest =>
    have hbehind := h.full hfull _ hbehind
    have hle := hrest.le
    omega

/-- A walk that comes to a place before the table is full goes on after the function, unless it
ends at it. -/
theorem ScannedBehind.rest (h : ScannedBehind cs (placeOf bus k) t u)
    (ha : cs.Exists (placeOf bus k)) (hslot : t.count < maxPciDevices)
    (hentry : t.devices[t.count] = cs.entry (placeOf bus k)) {k' : ℕ}
    (hway : cs.Walk bus k t.count k' n) (hn : n < maxPciDevices) :
    (k' = k ∧ n = t.count) ∨
      cs.Walk bus (nextPlace k u.devices[t.count].headerType) u.advance.count k' n := by
  obtain ⟨d, hd, hled⟩ := h.leads hslot hentry
  have hheader : u.devices[t.count].headerType = cs.byte d 0x0E :=
    congrArg PciDevice.headerType hled
  rw [hheader]
  cases hway with
  | refl => exact Or.inl ⟨rfl, rfl⟩
  | absent _ habsent => exact absurd ha habsent
  | plain _ _ hplain hway =>
    obtain ⟨-, rfl⟩ := h.resolve_right fun hbehind ↦ hplain hbehind.1
    obtain rfl := hd.unique (.last fun hides ↦ hplain hides.1)
    exact Or.inr hway
  | bridge _ _ hbridge hsub hd' hway =>
    obtain ⟨-, hscan⟩ := h.resolve_left fun hbehind ↦ hbehind.1 hbridge
    have hroom : u.count < maxPciDevices := by
      by_contra hfull
      have hmany := hscan.full (not_lt.mp hfull) _ hsub
      have hle := hway.le
      omega
    obtain rfl := (hscan.walk hroom).count_unique hsub
    obtain rfl := hd.unique hd'
    exact Or.inr hway

/-- **A function recorded.** -/
theorem Scanned.found (h : Scanned cs bus t k t') (ht : t.count < maxPciDevices) (hk : k < 256)
    (ha : cs.Exists (placeOf bus k)) (hslot : t'.count < maxPciDevices)
    (hu : ScannedBehind cs (placeOf bus k)
      (t'.put t'.count hslot (cs.entry (placeOf bus k))) u) :
    Scanned cs bus t (nextPlace k u.devices[t'.count].headerType) u.advance := by
  obtain ⟨d, hd, hentry⟩ := hu.leads hslot (Vector.getElem_set_self hslot)
  have hle : t'.count ≤ u.count := hu.count_le
  have hput (i : ℕ) (hi : i < maxPciDevices) (hlt : i < t'.count) :
      u.devices[i] = t'.devices[i] :=
    (hu.below hi hlt).trans (Vector.getElem_set_ne hslot hi (by omega))
  have hheader : u.devices[t'.count].headerType = cs.byte d 0x0E :=
    congrArg PciDevice.headerType hentry
  rw [hheader]
  refine ⟨h.count_le.trans (by change _ ≤ u.count + 1; omega), ?_, ?_, ?_, Or.inr ?_⟩
  · intro i hi hlt
    exact (hput i hi (by have := h.count_le; omega)).trans (h.below i hi hlt)
  · intro hroom
    exact (h.walk hslot).trans (hu.walk hk ha hd (Nat.lt_of_succ_lt hroom))
  · intro hfull n hn
    have hrest := (h.walk hslot).rest hn
    by_cases hroom : u.count < maxPciDevices
    · exact hfull.trans ((hu.walk hk ha hd hroom).rest hrest).le
    · exact hu.full hk ha hslot (not_lt.mp hroom) hrest
  · refine ⟨Nat.lt_succ_of_le (h.count_le.trans hle), ?_⟩
    rcases h.first with ⟨rfl, hnone⟩ | ⟨hlt, b, d, hfirst, hb, hbd⟩
    · exact ⟨placeOf bus k, d, ⟨k, hk, rfl, ha, hnone⟩, hd, fun _ ↦ hentry⟩
    · exact ⟨b, d, hfirst, hb, fun hi ↦ (hput _ hi hlt).trans (hbd hi)⟩

end

section
variable {dev : Device machine} {cs : ConfigSpace}

/-- **A scan follows the walk.** -/
theorem returns_scan (hs : ServesAlways dev cs) (depth : ℕ) : ∀ (bus : UInt8) (t : PciTable),
    t.count < maxPciDevices →
      Returns dev (fun r ↦ ∀ s ∈ r, Scanned cs bus t 256 s.2) (pciScanBus depth bus t) := by
  induction depth with
  | zero => exact fun _ _ _ ↦ returns_pure (by simp)
  | succ depth ih =>
    intro bus t ht
    refine (returns_pciScanBus hs (Scanned cs bus t) (Scanned cs bus t 256) True
      (fun k t' hk h ha ↦ h.absent hk ha) (fun k t' hk h ha hfull ↦ h.of_full ht hfull) ?_
      (scanned_start cs bus ht)).mono fun r hr ↦ ?_
    · intro k t' hk h ha hslot
      refine (returns_behind hs (X := ScannedBehind cs (placeOf bus k) (t'.put _ hslot _))
        (fun hplain ↦ Or.inl ⟨hplain, rfl⟩) fun hbridge ↦ ?_).mono fun r hr ↦ ?_
      · exact fun h s hreturn ↦ Or.inr ⟨hbridge, ih _ (t'.put _ hslot _) hslot h s hreturn⟩
      · cases r with
        | none => trivial
        | some u => exact h.found ht hk ha hslot (hr u rfl)
    · rintro s rfl
      exact hr.elim id id

theorem returns_scannedBehind (hs : ServesAlways dev cs) (depth : ℕ) (a : PciAddress) (t : PciTable)
    (ht : t.count < maxPciDevices) :
    Returns dev (fun r ↦ ∀ u ∈ r, ScannedBehind cs a t u)
      (pciScanBridge (pciScanBus depth) (cs.entry a) t) :=
  returns_behind hs (fun hplain ↦ Or.inl ⟨hplain, rfl⟩) fun hbridge h s hreturn ↦
    Or.inr ⟨hbridge, returns_scan hs depth _ t ht h s hreturn⟩

/-- What is done behind a function on the way to a bridge: it is on the way too, or it is the scan
of the bus behind that bridge. -/
theorem returns_on_way (hs : ServesAlways dev cs) {depth : ℕ} {bus : UInt8} {p : PciTable}
    {k k' n : ℕ} {X : PciTable → Prop} (hexists : cs.Exists (placeOf bus k'))
    (hslot : p.count < maxPciDevices) (hentry : p.devices[p.count] = cs.entry (placeOf bus k'))
    (hway : cs.Walk bus k' p.count k n) (hn : n < maxPciDevices)
    (hbridge : cs.IsBridge (placeOf bus k))
    (hbehind : ∀ p : PciTable, p.count = n → Returns dev (fun r ↦ ∀ s ∈ r, X s.2)
      (pciScanBus depth (cs.secondaryBus (placeOf bus k)) p)) :
    Returns dev (fun r ↦ ∀ u ∈ r,
        cs.Walk bus (nextPlace k' u.devices[p.count].headerType) u.advance.count k n ∨ X u)
      (pciScanBridge (pciScanBus depth) (cs.entry (placeOf bus k')) p) := by
  refine (returns_behind hs
    (X := fun u ↦ ScannedBehind cs (placeOf bus k') p u ∧ (k = k' ∧ n = p.count → X u))
    (fun hplain ↦ ⟨Or.inl ⟨hplain, rfl⟩, ?_⟩) fun hbridge' h s hreturn ↦ ?_).mono
      fun r hr u hu ↦ ?_
  · rintro ⟨rfl, -⟩
    exact absurd hbridge hplain
  · refine ⟨Or.inr ⟨hbridge', returns_scan hs depth _ p hslot h s hreturn⟩, ?_⟩
    rintro ⟨rfl, hcount⟩
    exact hbehind p hcount.symm h s hreturn
  · obtain ⟨hscanned, hthere⟩ := hr u hu
    rcases hscanned.rest hexists hslot hentry hway hn with heq | hway
    · exact Or.inr (hthere heq)
    · exact Or.inl hway

/-- **A scan passes what the walk passes.**  If the walk comes to a bridge before the table is full,
then so does the scan, and it ends no better than the scan of the bus behind the bridge: `X` says
how that one ends, which is with a full table if at all. -/
theorem returns_scan_past (hs : ServesAlways dev cs) {depth : ℕ} {bus : UInt8} {t : PciTable}
    {k n : ℕ} (hwalk : cs.Walk bus 0 t.count k n) (hk : k < 256) (hn : n < maxPciDevices)
    (ha : cs.Exists (placeOf bus k)) (hbridge : cs.IsBridge (placeOf bus k))
    {X : PciTable → Prop} (hX : ∀ u, X u → maxPciDevices ≤ u.count)
    (hbehind : ∀ p : PciTable, p.count = n → Returns dev (fun r ↦ ∀ s ∈ r, X s.2)
      (pciScanBus depth (cs.secondaryBus (placeOf bus k)) p)) :
    Returns dev (fun r ↦ ∀ s ∈ r, ∃ u, X u ∧ u.count < s.2.count)
      (pciScanBus (depth + 1) bus t) := by
  -- the scan is on its way to the bridge, or past it
  refine (returns_pciScanBus hs
    (fun k' t' ↦ cs.Walk bus k' t'.count k n ∨ ∃ u, X u ∧ u.count < t'.count)
    (fun t' ↦ ∃ u, X u ∧ u.count < t'.count) True ?_ ?_ ?_ (Or.inl hwalk)).mono fun r hr ↦ ?_
  · rintro k' t' hk' (hway | hpast) habsent
    · cases hway with
      | refl => exact absurd ha habsent
      | absent _ _ hway => exact Or.inl hway
      | plain _ hexists | bridge _ hexists => exact absurd hexists habsent
    · exact Or.inr hpast
  · rintro k' t' hk' (hway | hpast) - hfull
    · have hle := hway.le
      omega
    · exact hpast
  · rintro k' t' hk' (hway | ⟨u, hu, hlt⟩) hexists hslot
    · refine (returns_on_way hs (p := t'.put _ hslot _) hexists hslot
        (Vector.getElem_set_self hslot) hway hn hbridge hbehind).mono fun r hr ↦ ?_
      cases r with
      | none => trivial
      | some u =>
        rcases hr u rfl with hway | hu
        · exact Or.inl hway
        · exact Or.inr ⟨u, hu, Nat.lt_succ_self _⟩
    · have := hX u hu
      omega
  · rintro s rfl
    rcases hr with hpast | hway | hpast
    · exact hpast
    · cases hway with
      | refl | absent hlt | plain hlt | bridge hlt => omega
    · exact hpast

end

end Aetherion.Pci
