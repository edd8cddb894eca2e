import Aetherion.Pci.Faithful

/-!
# What `pci_init` leaves in the table

The walk over bus 0 is `Clean` up to the first bridge with something behind it: the table holds
the entries of the functions found so far, in order, and blanks after them.  At such a bridge the
scan of the bus behind it starts at the bridge's own place and takes it, and the walk is `Lost` from
there on: the bridge's entry stands nowhere in the table and is never written again.
-/

set_option autoImplicit false

namespace Aetherion.Pci

open Driver Driver.Prog

/-- The table holds what was to be found at the first `k` places of bus 0, and nothing else. -/
structure Clean (cs : ConfigSpace) (k : ℕ) (t : PciTable) : Prop where
  count_eq : t.count = (counted cs 0 k).length
  devices_eq : ∀ i (hi : i < maxPciDevices),
    t.devices[i] = ((counted cs 0 k).map cs.entry)[i]?.getD .blank
  hides_none : ∀ a ∈ counted cs 0 k, ¬cs.Hides a
  multi : k % 8 ≠ 0 → ¬cs.SingleFunction 0 (placeOf 0 k).device

/-- One of the bridges at the first `k` places of bus 0 is not in the table. -/
def Lost (cs : ConfigSpace) (k : ℕ) (t : PciTable) : Prop :=
  ∃ a ∈ counted cs 0 k, cs.Hides a ∧ ∀ i (hi : i < maxPciDevices), t.devices[i] ≠ cs.entry a

section
variable {dev : Device machine} {cs : ConfigSpace} {k : ℕ} {t t' : PciTable}

/-! ## The clean part of the walk -/

theorem clean_empty (cs : ConfigSpace) : Clean cs 0 .empty :=
  ⟨rfl, fun i hi ↦ by simp [PciTable.empty, counted], by simp [counted], by simp⟩

theorem Clean.counts (h : Clean cs k t) (ha : cs.Exists (placeOf 0 k)) :
    cs.Counts (placeOf 0 k) := by
  refine ⟨ha, ?_⟩
  by_cases hk : k % 8 = 0
  · exact Or.inl (function_placeOf_eq_zero.mpr hk)
  · exact Or.inr (h.multi hk)

/-- The next place of the same device. -/
theorem device_placeOf_succ (hk : (k + 1) % 8 ≠ 0) :
    (placeOf 0 (k + 1)).device = (placeOf 0 k).device := by
  rw [placeOf, placeOf, Fin.ext_iff]
  simp only
  omega

theorem Clean.absent (h : Clean cs k t) (ha : ¬cs.Exists (placeOf 0 k)) : Clean cs (k + 1) t := by
  have hsucc : counted cs 0 (k + 1) = counted cs 0 k := counted_succ_of_not fun hc ↦ ha hc.1
  refine ⟨hsucc ▸ h.count_eq, hsucc ▸ h.devices_eq, hsucc ▸ h.hides_none, ?_⟩
  intro hk
  rw [device_placeOf_succ hk]
  by_cases hzero : k % 8 = 0
  · exact fun hsingle ↦ ha (placeOf_zero hzero ▸ hsingle.1)
  · exact h.multi hzero

/-- What is recorded does not depend on how far the walk skips. -/
theorem Clean.put_of_counted (h : Clean cs k t) (hcounts : cs.Counts (placeOf 0 k))
    (hslot : t.count < maxPciDevices) (hides : ¬cs.Hides (placeOf 0 k)) {n : ℕ}
    (hn : counted cs 0 n = counted cs 0 (k + 1))
    (hmulti : n % 8 ≠ 0 → ¬cs.SingleFunction 0 (placeOf 0 n).device) :
    Clean cs n (t.put t.count hslot (cs.entry (placeOf 0 k))).advance := by
  have hsucc : counted cs 0 n = counted cs 0 k ++ [placeOf 0 k] :=
    hn.trans (counted_succ_of hcounts)
  refine ⟨?_, ?_, ?_, hmulti⟩
  · rw [hsucc, List.length_append, List.length_singleton, ← h.count_eq]
    rfl
  · intro i hi
    rw [hsucc, List.map_append, List.getElem?_append, List.length_map, ← h.count_eq]
    simp only [PciTable.advance, PciTable.put, Vector.getElem_set]
    split_ifs with heq hlt hlt
    · omega
    · rw [← heq, Nat.sub_self]
      rfl
    · exact h.devices_eq i hi
    · rw [h.devices_eq i hi, List.getElem?_eq_none (by rw [List.length_map, ← h.count_eq]; omega),
        List.getElem?_eq_none (by simp; omega)]
  · rw [hsucc]
    intro a hmem
    rcases List.mem_append.mp hmem with hmem | hmem
    · exact h.hides_none a hmem
    · rw [List.mem_singleton.mp hmem]
      exact hides

/-- **An entry recorded.**  With nothing behind the function, the walk stays clean, and it skips
what it should skip. -/
theorem Clean.put (h : Clean cs k t) (ha : cs.Exists (placeOf 0 k))
    (hslot : t.count < maxPciDevices) (hides : ¬cs.Hides (placeOf 0 k)) :
    Clean cs (nextPlace k (cs.byte (placeOf 0 k) 0x0E))
      (t.put t.count hslot (cs.entry (placeOf 0 k))).advance := by
  have hcounts := h.counts ha
  rw [nextPlace]
  split
  · rename_i hskip
    refine h.put_of_counted hcounts hslot hides
      (counted_skip hskip.1 ⟨placeOf_zero hskip.1 ▸ ha, ?_⟩ (show 7 < 8 by omega)) (by omega)
    rw [← placeOf_zero hskip.1]
    exact hskip.2
  · rename_i hskip
    refine h.put_of_counted hcounts hslot hides rfl ?_
    intro hk
    rw [device_placeOf_succ hk]
    by_cases hzero : k % 8 = 0
    · rintro ⟨-, hsingle⟩
      rw [← placeOf_zero hzero] at hsingle
      exact hskip ⟨hzero, hsingle⟩
    · exact h.multi hzero

/-! ## Where it goes wrong -/

theorem placeOf_notMem_counted (hk : k < 256) : placeOf 0 k ∉ counted cs 0 k := by
  rw [mem_counted]
  rintro ⟨⟨j, hj, heq⟩, -⟩
  have := placeOf_inj (by omega) hk heq
  omega

theorem Lost.mono {n : ℕ} (h : Lost cs k t) (hkn : k ≤ n) : Lost cs n t := by
  obtain ⟨a, hmem, hrest⟩ := h
  rw [mem_counted] at hmem
  obtain ⟨⟨j, hj, hplace⟩, hcounts⟩ := hmem
  exact ⟨a, mem_counted.mpr ⟨⟨j, by omega, hplace⟩, hcounts⟩, hrest⟩

theorem le_nextPlace (k : ℕ) (headerType : UInt8) : k + 1 ≤ nextPlace k headerType := by
  rw [nextPlace]
  split <;> omega

theorem nextPlace_le (hk : k < 256) (headerType : UInt8) : nextPlace k headerType ≤ 256 := by
  rw [nextPlace]
  split <;> omega

/-- A lost bridge does not come back: what is written later are the entries of other functions of
bus 0, and entries of other buses. -/
theorem Lost.put (h : Lost cs k t) (hk : k < 256) (hslot : t.count < maxPciDevices)
    (hkept : Kept (t.put t.count hslot (cs.entry (placeOf 0 k))) t') : Lost cs k t'.advance := by
  obtain ⟨a, hmem, hides, hmissing⟩ := h
  refine ⟨a, hmem, hides, ?_⟩
  intro i hi
  have ha : a.bus = 0 := by
    obtain ⟨⟨j, -, rfl⟩, -⟩ := mem_counted.mp hmem
    rfl
  rcases hkept.foreign i hi with heq | hne
  · change t'.devices[i] ≠ cs.entry a
    rw [heq]
    simp only [PciTable.put, Vector.getElem_set]
    split
    · exact fun he ↦ placeOf_notMem_counted hk (entry_injective cs he ▸ hmem)
    · exact hmissing i hi
  · exact entry_bus_ne ha hne

/-- **The bridge is lost.**  The scan of the bus behind it has taken its place. -/
theorem Clean.lost (h : Clean cs k t) (hk : k < 256) (ha : cs.Exists (placeOf 0 k))
    (hides : cs.Hides (placeOf 0 k)) (hslot : t.count < maxPciDevices)
    (hkept : Kept (t.put t.count hslot (cs.entry (placeOf 0 k))) t')
    (htouched : Touched (t.put t.count hslot (cs.entry (placeOf 0 k))) t') :
    Lost cs (k + 1) t'.advance := by
  have hcounts := h.counts ha
  refine ⟨placeOf 0 k, mem_counted.mpr ⟨⟨k, by omega, rfl⟩, hcounts⟩, hides, ?_⟩
  intro i hi
  by_cases hplace : i = t.count
  · subst hplace
    exact entry_bus_ne rfl (htouched.2 hi)
  rcases hkept.foreign i hi with heq | hne
  · change t'.devices[i] ≠ _
    rw [heq]
    simp only [PciTable.put, Vector.getElem_set_ne hslot hi (Ne.symm hplace), h.devices_eq i hi]
    cases hentry : ((counted cs 0 k).map cs.entry)[i]? with
    | none => exact (entry_ne_blank ha).symm
    | some d =>
      obtain ⟨b, hmem, rfl⟩ := List.mem_map.mp (List.mem_of_getElem? hentry)
      exact fun he ↦ placeOf_notMem_counted hk (entry_injective cs he ▸ hmem)
  · exact entry_bus_ne rfl hne

/-! ## The walk over bus 0 -/

/-- What happens to the table behind a function: nothing, unless it hides something. -/
theorem returns_bridge (hs : ServesAlways dev cs) (hroot : cs.Rooted) (depth : ℕ) {a : PciAddress}
    (ha : cs.Exists a) (t : PciTable) :
    Returns dev (fun r ↦ r.elim (cs.Hides a ∨ depth = 0) fun t' ↦ Kept t t' ∧
        (¬cs.Hides a → t' = t) ∧ (cs.Hides a → t.count < maxPciDevices → Touched t t'))
      (pciScanBridge (pciScanBus depth) (cs.entry a) t) := by
  refine returns_pciScanBridge hs
    (fun h ↦ ⟨.refl t, fun _ ↦ rfl, fun hides ↦ absurd hides.1 h⟩) fun hbridge ↦ ?_
  by_cases hoccupied : cs.Occupied (cs.secondaryBus a)
  · refine (returns_scan_kept hs hroot depth (hroot a ha hbridge) t).mono fun r hr ↦ ?_
    cases r with
    | none => exact Or.inl ⟨hbridge, hoccupied⟩
    | some s =>
      obtain ⟨hkept, htouched⟩ := hr s rfl
      exact ⟨hkept, fun h ↦ absurd ⟨hbridge, hoccupied⟩ h, fun _ ↦ htouched hoccupied⟩
  · cases depth with
    | zero => exact returns_pure (Or.inr rfl)
    | succ depth =>
      refine (returns_scan_empty hs depth hoccupied t).mono fun r hr ↦ ?_
      obtain ⟨n, rfl⟩ := hr
      exact ⟨.refl t, fun _ ↦ rfl, fun hides ↦ absurd hides.2 hoccupied⟩

/-- A list of distinct functions that exist is no longer than the table. -/
theorem length_le_of_few (hfew : Set.encard {a | cs.Exists a} ≤ maxPciDevices)
    {l : List PciAddress} (hl : l.Nodup) (hexists : ∀ a ∈ l, cs.Exists a) :
    l.length ≤ maxPciDevices := by
  have hsub : (↑l.toFinset : Set PciAddress) ⊆ {a | cs.Exists a} :=
    fun a ha ↦ hexists a (by simpa using ha)
  have hcard := (Set.encard_le_encard hsub).trans hfew
  rw [Set.encard_coe_eq_coe_finsetCard, List.toFinset_card_of_nodup hl] at hcard
  exact_mod_cast hcard

/-- The table has room for the function. -/
theorem Clean.count_lt (h : Clean cs k t) (hfew : Set.encard {a | cs.Exists a} ≤ maxPciDevices)
    (hk : k < 256) (ha : cs.Exists (placeOf 0 k)) : t.count < maxPciDevices := by
  have hnodup : (counted cs 0 (k + 1)).Nodup := nodup_counted (by omega)
  have hlen := length_le_of_few hfew hnodup fun a ha ↦ (mem_counted.mp ha).2.1
  rw [counted_succ_of (h.counts ha), List.length_append, List.length_singleton,
    ← h.count_eq] at hlen
  exact hlen

/-- What the walk keeps when it comes to a function: it stays clean if the function hides nothing,
and is lost, or stays so, otherwise. -/
theorem returns_step (hs : ServesAlways dev cs) (hroot : cs.Rooted) (depth : ℕ) (hk : k < 256)
    (hinv : Clean cs k t ∨ Lost cs k t) (ha : cs.Exists (placeOf 0 k))
    (hslot : t.count < maxPciDevices) :
    Returns dev (fun r ↦ r.elim ((∃ a ∈ counted cs 0 256, cs.Hides a) ∨ depth = 0) fun t' ↦
        let n := nextPlace k t'.devices[t.count].headerType
        Clean cs n t'.advance ∨ Lost cs n t'.advance)
      (pciScanBridge (pciScanBus depth) (cs.entry (placeOf 0 k))
        (t.put t.count hslot (cs.entry (placeOf 0 k)))) := by
  refine (returns_bridge hs hroot depth ha _).mono fun r hr ↦ ?_
  cases r with
  | none =>
    refine hr.imp ?_ id
    intro hides
    rcases hinv with hclean | ⟨a, hmem, hides, -⟩
    · exact ⟨_, mem_counted.mpr ⟨⟨k, hk, rfl⟩, hclean.counts ha⟩, hides⟩
    · obtain ⟨⟨j, hj, hplace⟩, hcounts⟩ := mem_counted.mp hmem
      exact ⟨a, mem_counted.mpr ⟨⟨j, by omega, hplace⟩, hcounts⟩, hides⟩
  | some t' =>
    obtain ⟨hkept, hsame, htouched⟩ := hr
    have hle := le_nextPlace k t'.devices[t.count].headerType
    rcases hinv with hclean | hlost
    · by_cases hides : cs.Hides (placeOf 0 k)
      · exact Or.inr ((hclean.lost hk ha hides hslot hkept (htouched hides hslot)).mono hle)
      · have hentry : (t.put t.count hslot (cs.entry (placeOf 0 k))).devices[t.count] =
            cs.entry (placeOf 0 k) := Vector.getElem_set_self hslot
        simp only [Option.elim, hsame hides, hentry]
        exact Or.inl (hclean.put ha hslot hides)
    · exact Or.inr ((hlost.put hk hslot hkept).mono (by omega))

/-- **What `pci_init` leaves**: a clean table, or one in which a bridge is lost. -/
theorem returns_pciInit (hs : ServesAlways dev cs) (hroot : cs.Rooted)
    (hfew : Set.encard {a | cs.Exists a} ≤ maxPciDevices) (depth : ℕ) :
    Returns dev (fun r ↦ r.elim ((∃ a ∈ counted cs 0 256, cs.Hides a) ∨ depth < 2)
      fun t ↦ Clean cs 256 t ∨ Lost cs 256 t) (pciInit depth) := by
  refine returns_pciInit_of_scan ?_
  cases depth with
  | zero => exact returns_pure (Or.inr (by omega))
  | succ depth =>
    refine (returns_pciScanBus hs (fun k t ↦ k ≤ 256 ∧ (Clean cs k t ∨ Lost cs k t)) (Lost cs 256)
      ((∃ a ∈ counted cs 0 256, cs.Hides a) ∨ depth = 0) ?_ ?_ ?_
      ⟨by omega, Or.inl (clean_empty cs)⟩).mono fun r hr ↦ ?_
    · rintro k t hk ⟨-, hclean | hlost⟩ habsent
      · exact ⟨by omega, Or.inl (hclean.absent habsent)⟩
      · exact ⟨by omega, Or.inr (hlost.mono (by omega))⟩
    · rintro k t hk ⟨-, hclean | hlost⟩ hexists hfull
      · have := hclean.count_lt hfew hk hexists
        omega
      · exact hlost.mono (by omega)
    · rintro k t hk ⟨-, hinv⟩ hexists hslot
      refine (returns_step hs hroot depth hk hinv hexists hslot).mono fun r hr ↦ ?_
      cases r with
      | none => exact hr
      | some t' => exact ⟨nextPlace_le hk _, hr⟩
    · cases r with
      | none => exact hr.imp id fun hdepth ↦ by omega
      | some s => exact hr.elim Or.inr And.right

/-! ## The table -/

/-- Where no bridge of bus 0 hides anything, no other bus with anything on it is reached. -/
theorem bus_eq_zero_of_reached (hides : ∀ a ∈ counted cs 0 256, ¬cs.Hides a) {bus : UInt8}
    (hbus : cs.BusReached bus) (hoccupied : cs.Occupied bus) : bus = 0 := by
  induction hbus with
  | root => rfl
  | @bridge a ha hc hb ih =>
    have hzero := ih ⟨a, rfl, hc.1⟩
    obtain ⟨k, hk, hplace⟩ := exists_placeOf a
    rw [hzero] at hplace
    exact absurd ⟨hb, hoccupied⟩ (hides a (mem_counted.mpr ⟨⟨k, hk, hplace⟩, hc⟩))

theorem Clean.entries_eq (h : Clean cs k t) (hcount : t.count ≤ maxPciDevices) :
    t.entries = (counted cs 0 k).map cs.entry := by
  have hlen : t.entries.length = t.count := by
    rw [PciTable.entries, List.length_take, Vector.length_toList]
    omega
  refine List.ext_getElem (by rw [hlen, List.length_map, h.count_eq]) fun i hi hi' ↦ ?_
  have hi32 : i < maxPciDevices := by omega
  have hentry := h.devices_eq i hi32
  rw [List.getElem?_eq_getElem hi', Option.getD_some] at hentry
  rw [← hentry]
  simp [PciTable.entries]

theorem Clean.faithful (h : Clean cs 256 t)
    (hfew : Set.encard {a | cs.Exists a} ≤ maxPciDevices) : Faithful cs t := by
  have hnodup : (counted cs 0 256).Nodup := nodup_counted le_rfl
  have hcount : t.count ≤ maxPciDevices :=
    h.count_eq ▸ length_le_of_few hfew hnodup fun a ha ↦ (mem_counted.mp ha).2.1
  have hentries := h.entries_eq hcount
  refine ⟨hcount, ?_, ?_⟩
  · rw [hentries]
    exact hnodup.map (entry_injective cs)
  · intro d
    rw [hentries, List.mem_map]
    refine exists_congr fun a ↦ and_congr_left fun _ ↦ ?_
    rw [mem_counted]
    constructor
    · rintro ⟨⟨k, -, rfl⟩, hcounts⟩
      exact ⟨.root, hcounts⟩
    · rintro ⟨hbus, hcounts⟩
      have hzero := bus_eq_zero_of_reached h.hides_none hbus ⟨a, rfl, hcounts.1⟩
      obtain ⟨k, hk, hplace⟩ := exists_placeOf a
      exact ⟨⟨k, hk, hzero ▸ hplace⟩, hcounts⟩

theorem Lost.not_faithful (h : Lost cs 256 t) : ¬Faithful cs t := by
  obtain ⟨a, hmem, -, hmissing⟩ := h
  obtain ⟨⟨k, -, rfl⟩, hcounts⟩ := mem_counted.mp hmem
  intro hfaithful
  have hentry := (hfaithful.mem_iff _).mpr ⟨placeOf 0 k, ⟨.root, hcounts⟩, rfl⟩
  obtain ⟨i, hi, heq⟩ := List.mem_iff_getElem.mp (List.mem_of_mem_take hentry)
  rw [Vector.length_toList] at hi
  exact hmissing i hi (by simpa using heq)

/-- A bridge of bus 0 with something behind it spoils the table. -/
theorem not_faithful_of_hides {h : Trace machine} (hs : Serves dev cs h) (hroot : cs.Rooted)
    (hfew : Set.encard {a | cs.Exists a} ≤ maxPciDevices) {a : PciAddress} (ha : a.bus = 0)
    (hcounts : cs.Counts a) (hides : cs.Hides a) (ht : PciInitReturns dev h t) :
    ¬Faithful cs t := by
  rw [hs.pciInitReturns_iff] at ht
  obtain ⟨depth, ht⟩ := ht
  have hinit := returns_pciInit (servesAlways_withRegisters dev cs) hroot hfew depth h
  rw [ht] at hinit
  rcases hinit with hclean | hlost
  · obtain ⟨k, hk, hplace⟩ := exists_placeOf a
    exact absurd hides
      (hclean.hides_none a (mem_counted.mpr ⟨⟨k, hk, ha ▸ hplace⟩, hcounts⟩))
  · exact hlost.not_faithful

/-- **Where bridges lead down, `pci_init` returns.** -/
theorem exists_pciInitReturns {h : Trace machine} (hs : Serves dev cs h) (rank : UInt8 → ℕ)
    (hrank : ∀ a, cs.Exists a → cs.IsBridge a → rank (cs.secondaryBus a) < rank a.bus) :
    ∃ t, PciInitReturns dev h t := by
  simp only [hs.pciInitReturns_iff]
  have hs := servesAlways_withRegisters dev cs
  have hscan (depth : ℕ) : ∀ (bus : UInt8) (t : PciTable), rank bus < depth →
      Returns (withRegisters dev cs) (fun r ↦ r.isSome = true) (pciScanBus depth bus t) := by
    induction depth with
    | zero => exact fun bus t hlt ↦ absurd hlt (by omega)
    | succ depth ih =>
      intro bus t hlt
      refine (returns_pciScanBus hs (fun _ _ ↦ True) (fun _ ↦ True) False (fun _ _ _ _ _ ↦ trivial)
        (fun _ _ _ _ _ _ ↦ trivial) (fun k t hk _ hexists hslot ↦ ?_) trivial).mono fun r hr ↦ ?_
      · refine returns_pciScanBridge hs (fun _ ↦ trivial) fun hbridge ↦ ?_
        have hdown : rank (cs.secondaryBus (placeOf bus k)) < rank bus := hrank _ hexists hbridge
        refine (ih _ _ (by omega)).mono fun r hr ↦ ?_
        obtain ⟨s, rfl⟩ := Option.isSome_iff_exists.mp hr
        trivial
      · cases r with
        | none => exact hr.elim
        | some s => rfl
  have hinit : Returns (withRegisters dev cs) (fun r ↦ r.isSome = true) (pciInit (rank 0 + 1)) :=
    returns_pciInit_of_scan <| (hscan _ 0 _ (Nat.lt_succ_self _)).mono fun r hr ↦ by
      rwa [Option.isSome_map]
  obtain ⟨t, ht⟩ := Option.isSome_iff_exists.mp (hinit h)
  exact ⟨t, _, ht⟩

/-- `pci_init` returns, and the table it leaves is as it should be. -/
def PciInitFaithful (dev : Device machine) (cs : ConfigSpace) (h : Trace machine) : Prop :=
  (∃ t, PciInitReturns dev h t) ∧ ∀ t, PciInitReturns dev h t → Faithful cs t

/-- **After `pci_init` the table holds the functions reachable from bus 0, each once, exactly when
no bridge on bus 0 has a function behind it.**  Of the shape of the tree only this is needed, that
no bridge leads back to the root. -/
theorem pci_init_faithful_iff {h : Trace machine} (hs : Serves dev cs h) (hroot : cs.Rooted)
    (hfew : Set.encard {a | cs.Exists a} ≤ maxPciDevices) :
    PciInitFaithful dev cs h ↔ ∀ a, a.bus = 0 → cs.Counts a → ¬cs.Hides a := by
  constructor
  · rintro ⟨⟨t, ht⟩, hall⟩ a ha hcounts hides
    exact not_faithful_of_hides hs hroot hfew ha hcounts hides ht (hall t ht)
  · intro hnone
    have hnone' : ¬∃ a ∈ counted cs 0 256, cs.Hides a := by
      rintro ⟨a, hmem, hides⟩
      obtain ⟨⟨k, -, rfl⟩, hcounts⟩ := mem_counted.mp hmem
      exact hnone _ rfl hcounts hides
    simp only [PciInitFaithful, hs.pciInitReturns_iff]
    have hs := servesAlways_withRegisters dev cs
    constructor
    · have hinit := returns_pciInit hs hroot hfew 2 h
      cases hvalue : (pciInit 2).value (withRegisters dev cs) h with
      | none =>
        rw [hvalue] at hinit
        exact absurd hinit (by simp [hnone'])
      | some t => exact ⟨t, 2, hvalue⟩
    · rintro t ⟨depth, ht⟩
      have hinit := returns_pciInit hs hroot hfew depth h
      rw [ht] at hinit
      rcases hinit with hclean | ⟨a, hmem, hides, -⟩
      · exact hclean.faithful hfew
      · exact absurd ⟨a, hmem, hides⟩ hnone'

end

/-! ## One bridge -/

/-- A bridge at 0:0.0 that leads to bus 1, where there is a function at 1:0.0 or nothing. -/
def oneBridge (behind : Bool) : ConfigSpace := fun address ↦
  if address = 0x80000000 then 0x29448086
  else if address = 0x80000008 then 0x06040000
  else if address = 0x8000000C then 0x00010000
  else if address = 0x80000018 then 0x00010100
  else if address = 0x80010000 ∧ behind then 0x100E8086
  else 0

theorem exists_oneBridge {behind : Bool} {a : PciAddress} (ha : (oneBridge behind).Exists a) :
    a = ⟨0, 0, 0⟩ ∨ behind = true ∧ a = ⟨1, 0, 0⟩ := by
  obtain ⟨-, hne⟩ := ha
  have haddress := toNat_pciMakeAddress a 0
  rw [show ((0 : UInt8) &&& 0xFC).toNat = 0 from rfl] at haddress
  rw [ConfigSpace.dword, oneBridge] at hne
  obtain ⟨bus, device, function⟩ := a
  have hat (b : UInt8) (h : 65536 * bus.toNat + 2048 * device + 256 * function = 65536 * b.toNat) :
      (⟨bus, device, function⟩ : PciAddress) = ⟨b, 0, 0⟩ := by
    have := bus.toNat_lt
    rw [PciAddress.mk.injEq, Fin.ext_iff, Fin.ext_iff, ← UInt8.toNat_inj]
    refine ⟨by omega, ?_, ?_⟩
    · change device.val = 0
      omega
    · change function.val = 0
      omega
  simp only at hne haddress
  split_ifs at hne with h h h h h
  · simp only [h, UInt32.reduceToNat] at haddress
    exact Or.inl (hat 0 (by rw [show UInt8.toNat 0 = 0 from rfl]; omega))
  · simp only [h, UInt32.reduceToNat] at haddress
    omega
  · simp only [h, UInt32.reduceToNat] at haddress
    omega
  · simp only [h, UInt32.reduceToNat] at haddress
    omega
  · simp only [h.1, UInt32.reduceToNat] at haddress
    exact Or.inr ⟨h.2, hat 1 (by rw [show UInt8.toNat 1 = 1 from rfl]; omega)⟩
  · exact absurd rfl hne

theorem eq_of_isBridge_oneBridge {behind : Bool} {a : PciAddress}
    (ha : (oneBridge behind).Exists a) (hbridge : (oneBridge behind).IsBridge a) :
    a = ⟨0, 0, 0⟩ := by
  rcases exists_oneBridge ha with rfl | ⟨-, rfl⟩
  · rfl
  · exact absurd hbridge.1 (by cases behind <;> decide)

theorem rooted_oneBridge (behind : Bool) : (oneBridge behind).Rooted := by
  intro a ha hbridge
  obtain rfl := eq_of_isBridge_oneBridge ha hbridge
  cases behind <;> decide

theorem few_oneBridge (behind : Bool) :
    Set.encard {a | (oneBridge behind).Exists a} ≤ maxPciDevices := by
  have hsub : {a | (oneBridge behind).Exists a} ⊆ {⟨0, 0, 0⟩, ⟨1, 0, 0⟩} := by
    intro a ha
    exact (exists_oneBridge ha).imp id And.right
  refine (Set.encard_le_encard hsub).trans ?_
  rw [Set.encard_pair (by decide)]
  decide

theorem exists_returns_oneBridge (behind : Bool) :
    ∃ t, PciInitReturns (configMachine (oneBridge behind)) [] t := by
  refine exists_pciInitReturns (serves_configMachine (oneBridge behind) [])
    (fun bus ↦ if bus = 0 then 1 else 0) fun a ha hbridge ↦ ?_
  obtain rfl := eq_of_isBridge_oneBridge ha hbridge
  cases behind <;> decide

/-- With nothing on bus 1, the bridge is the only entry. -/
theorem pci_init_faithful_lone :
    PciInitFaithful (configMachine (oneBridge false)) (oneBridge false) [] := by
  refine (pci_init_faithful_iff (serves_configMachine _ []) (rooted_oneBridge false)
    (few_oneBridge false)).mpr ?_
  rintro a - hcounts ⟨hbridge, b, hbus, hb⟩
  rcases exists_oneBridge hb with rfl | ⟨h, -⟩
  · rcases exists_oneBridge hcounts.1 with rfl | ⟨h, -⟩
    · exact absurd hbus (by decide)
    · exact Bool.noConfusion h
  · exact Bool.noConfusion h

/-- With a function at 1:0.0, the entry of the bridge is overwritten. -/
theorem bridge_overwritten :
    (oneBridge true).Rooted ∧
      Set.encard {a | (oneBridge true).Exists a} ≤ maxPciDevices ∧
      ∃ t, PciInitReturns (configMachine (oneBridge true)) [] t ∧
        ¬Faithful (oneBridge true) t := by
  have hs := serves_configMachine (oneBridge true) []
  refine ⟨rooted_oneBridge _, few_oneBridge _, ?_⟩
  obtain ⟨t, ht⟩ := exists_returns_oneBridge true
  refine ⟨t, ht, not_faithful_of_hides hs (rooted_oneBridge _) (few_oneBridge _)
    (a := ⟨0, 0, 0⟩) rfl (by decide) ⟨by decide, ⟨1, 0, 0⟩, by decide, by decide⟩ ht⟩

end Aetherion.Pci
