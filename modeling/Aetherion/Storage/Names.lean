import Aetherion.Storage.Detection

/-!
# The names of the disks

The drives and then the ports are tried in a fixed order, each with a name of its own
(`diskName`), so what is registered never has the name of anything before it.  The table therefore
holds different names, and the search for a name finds the disk that bears it
(`disk_table_sound`).
-/

set_option autoImplicit false

namespace Aetherion.Storage

open Driver Driver.Prog Ata Ahci CString

/-! ## The names in the order they are given -/

/-- The name for drive `k` of the four, and then for the ports. -/
def diskName (k : ℕ) : String :=
  if k < 4 then "ata" ++ toString (k / 2) ++ toString (k % 2) else "ahci" ++ toString (k - 4)

theorem diskName_injective :
    ∀ i j : Fin 36, ofString (diskName i) = ofString (diskName j) → i = j := by
  decide +kernel

theorem diskName_no_terminator : ∀ i : Fin 36, 0 ∉ ofString (diskName i) := by
  decide +kernel

theorem name_ataDisk {ch drive : ℕ} (hch : ch < 2) (hdrive : drive < 2)
    (identify : ℕ → UInt16) : (ataDisk ch drive identify).name = diskName (2 * ch + drive) := by
  rw [diskName, if_pos (by omega), show (2 * ch + drive) / 2 = ch by omega,
    show (2 * ch + drive) % 2 = drive by omega]
  rfl

theorem name_ahciDisk (i : Fin 32) (identify : ℕ → UInt16) :
    (ahciDisk i identify).name = diskName (4 + i) := by
  rw [diskName, if_neg (by omega), show 4 + i.val - 4 = i.val by omega]
  rfl

/-! ## The table -/

/-- The disks of the table have different names, out of the first `k`. -/
structure Registry.Named (g : Registry) (k : ℕ) : Prop where
  filled : ∀ i < g.count, ∃ d, g.get? i = some d
  named : ∀ i d, g.get? i = some d → ∃ j < k, d.name = diskName j
  distinct : ∀ i j d e, g.get? i = some d → g.get? j = some e → d.name = e.name → i = j

variable {g : Registry} {k : ℕ}

theorem Registry.named_empty : Registry.empty.Named 0 where
  filled _ hi := absurd hi (Nat.not_lt_zero _)
  named _ _ hd := absurd ⟨_, hd⟩ (not_registered_empty _)
  distinct _ _ _ _ hd := absurd ⟨_, hd⟩ (not_registered_empty _)

theorem Registry.Named.mono (h : g.Named k) {k' : ℕ} (hk : k ≤ k') : g.Named k' where
  filled := h.filled
  named i d hd := by
    obtain ⟨j, hj, hname⟩ := h.named i d hd
    exact ⟨j, by omega, hname⟩
  distinct := h.distinct

/-- Two names of the 36 are the same for the same `k` only. -/
theorem diskName_ne {i j : ℕ} (hi : i < j) (hj : j < 36) : diskName i ≠ diskName j := by
  intro heq
  have hfin := diskName_injective ⟨i, by omega⟩ ⟨j, hj⟩ (congrArg ofString heq)
  rw [Fin.mk.injEq] at hfin
  omega

/-- **A disk with the next name** can come into the table. -/
theorem Registry.Named.add (h : g.Named k) (hk : k < 36) {d : Disk} (hd : d.name = diskName k) :
    (g.add d).Named (k + 1) := by
  have hnew (i : ℕ) (e : Disk) (he : g.get? i = some e) : e.name ≠ d.name := by
    obtain ⟨j, hj, hname⟩ := h.named i e he
    rw [hname, hd]
    exact diskName_ne hj hk
  refine ⟨?_, ?_, ?_⟩
  · intro i hi
    rw [Registry.get?_add]
    split
    · exact ⟨d, rfl⟩
    · rw [Registry.count_add] at hi
      exact h.filled i (by omega)
  · intro i e he
    rw [Registry.get?_add] at he
    split at he
    · exact ⟨k, by omega, by rw [← Option.some.inj he, hd]⟩
    · exact (h.mono (Nat.le_succ k)).named i e he
  · intro i j e f he hf heq
    rw [Registry.get?_add] at he hf
    split at he
    · obtain rfl := Option.some.inj he
      split at hf
      · omega
      · exact absurd heq.symm (hnew j f hf)
    · split at hf
      · obtain rfl := Option.some.inj hf
        exact absurd heq (hnew i e he)
      · exact h.distinct i j e f he hf heq

/-! ## Detection -/

variable {dev : Device machine}

/-- After detection. -/
theorem named_findDisks (identify : UInt64) (h : Trace machine) :
    ((findDisks identify).value dev h).registry.Named 36 := by
  have hprobe {p : Kernel (Option Disk)} {g : Registry} {k : ℕ} {n : ℤ} (hk : k < 36)
      (hp : Returns dev (fun o ↦ ∀ d, o = some d → d.name = diskName k) p) :
      Triple dev (fun _ ↦ g.Named k) p (AfterProbe (fun g _ _ ↦ g.Named (k + 1)) g n) := by
    intro h hg
    have hname := hp h
    cases hv : p.value dev h with
    | none => exact hg.mono (Nat.le_succ k)
    | some d => exact hg.add hk (hname d hv)
  refine triple_findDisks (A := fun k g _ _ ↦ g.Named k) (B := fun _ _ i g _ _ ↦ g.Named (4 + i))
    (fun _ _ _ _ _ _ hg ↦ hg) (fun _ _ _ _ _ _ _ _ hg ↦ hg) ?_ (fun _ _ _ hg _ ↦ hg)
    (fun _ _ _ _ _ _ hg ↦ hg.mono (Nat.le_succ _)) (fun _ _ _ _ _ hg ↦ hg) ?_ h
    Registry.named_empty
  · intro ch drive g n hch hdrive
    refine hprobe (by omega) ((returns_ataProbe ch drive).mono fun o ho d hd ↦ ?_)
    obtain ⟨words, rfl⟩ := ho d hd
    exact name_ataDisk hch hdrive words
  · intro m hba i g n _
    refine hprobe (by omega) ((returns_ahciProbe hba i identify).mono fun o ho d hd ↦ ?_)
    obtain ⟨words, rfl⟩ := ho d hd
    exact name_ahciDisk i words

/-! ## What can be got out of the table -/

/-- The table as its users see it: `disk_get` answers exactly for the indices below the counter,
no two disks have the same name, and `disk_find_by_name` finds each of them by its name. -/
structure Registry.Sound (g : Registry) : Prop where
  count_le : g.count ≤ maxDisks
  get : ∀ i : Int32, (diskGet g i).isSome ↔ 0 ≤ i.toInt ∧ i.toInt < g.count
  distinct : ∀ i j d e, diskGet g i = some d → diskGet g j = some e → i ≠ j → d.name ≠ e.name
  find : ∀ i d, diskGet g i = some d → diskFindByName g (ofString d.name) = diskGet g i

theorem diskGet_eq_some_iff {i : Int32} {d : Disk} :
    diskGet g i = some d ↔ 0 ≤ i.toInt ∧ g.get? i.toInt.toNat = some d := by
  rw [diskGet]
  split
  · rename_i hneg
    have hneg' : i.toInt < 0 := Int32.lt_iff_toInt_lt.mp hneg
    exact iff_of_false (by simp) (by omega)
  · rename_i hnonneg
    have hnonneg' : ¬i.toInt < 0 := fun h ↦ hnonneg (Int32.lt_iff_toInt_lt.mpr h)
    exact (and_iff_right (by omega)).symm

/-- A disk has the name of another one only if it is in the same place. -/
theorem Registry.Named.same_name_iff (h : g.Named 36) {i j : ℕ} {d e : Disk}
    (hd : g.get? i = some d) (he : g.get? j = some e) :
    strcmp (ofString e.name) (ofString d.name) = 0 ↔ j = i := by
  obtain ⟨k, hk, hname⟩ := h.named j e he
  obtain ⟨l, hl, hname'⟩ := h.named i d hd
  have hplain : 0 ∉ ofString e.name := hname ▸ diskName_no_terminator ⟨k, hk⟩
  have hplain' : 0 ∉ ofString d.name := hname' ▸ diskName_no_terminator ⟨l, hl⟩
  rw [strcmp_eq_zero_iff hplain hplain']
  constructor
  · intro heq
    rw [hname, hname'] at heq
    have hkl := diskName_injective ⟨k, hk⟩ ⟨l, hl⟩ heq
    rw [Fin.mk.injEq] at hkl
    exact h.distinct j i e d he hd (by rw [hname, hname', hkl])
  · rintro rfl
    rw [Option.some.inj (he.symm.trans hd)]

/-- The search stops at the first disk with the name, and there is one such disk only. -/
theorem Registry.Named.find (h : g.Named 36) {i : ℕ} {d : Disk} (hd : g.get? i = some d) :
    diskFindByName g (ofString d.name) = some d := by
  have hi := Registry.get?_lt hd
  -- what the loop returns at place `j`, if it gets there
  have hbody {j : ℕ} (hj : j < g.count) {e : Disk} :
      (g.disks[j]?.join.bind fun e ↦
        if strcmp (ofString e.name) (ofString d.name) = 0 then some e else none) = some e ↔
      g.get? j = some e ∧ j = i := by
    rw [Registry.get?, if_pos hj, Option.bind_eq_some_iff]
    constructor
    · rintro ⟨e', he', hif⟩
      rw [Option.ite_none_right_eq_some, Option.some.injEq] at hif
      obtain ⟨hcmp, rfl⟩ := hif
      refine ⟨he', (h.same_name_iff hd ?_).mp hcmp⟩
      rw [Registry.get?, if_pos hj]
      exact he'
    · rintro ⟨he, hji⟩
      refine ⟨e, he, if_pos ((h.same_name_iff hd ?_).mpr hji)⟩
      rw [Registry.get?, if_pos hj]
      exact he
  cases hfind : diskFindByName g (ofString d.name) with
  | none =>
    have hnone := List.findSome?_eq_none_iff.mp hfind i (List.mem_range.mpr hi)
    exact absurd (hnone.symm.trans ((hbody hi).mpr ⟨hd, rfl⟩)) (Option.some_ne_none d).symm
  | some e =>
    obtain ⟨j, hj, he⟩ := List.exists_of_findSome?_eq_some hfind
    obtain ⟨hget, rfl⟩ := (hbody (List.mem_range.mp hj)).mp he
    exact hget.symm.trans hd

theorem Registry.Named.sound (h : g.Named 36) : g.Sound := by
  refine ⟨g.count_le, fun i ↦ ?_, fun i j d e hd he hij heq ↦ ?_, fun i d hd ↦ ?_⟩
  · rw [Option.isSome_iff_exists]
    constructor
    · rintro ⟨d, hd⟩
      obtain ⟨hnonneg, hget⟩ := diskGet_eq_some_iff.mp hd
      have hlt := Registry.get?_lt hget
      omega
    · rintro ⟨hnonneg, hlt⟩
      obtain ⟨d, hd⟩ := h.filled i.toInt.toNat (by omega)
      exact ⟨d, diskGet_eq_some_iff.mpr ⟨hnonneg, hd⟩⟩
  · obtain ⟨hi, hd'⟩ := diskGet_eq_some_iff.mp hd
    obtain ⟨hj, he'⟩ := diskGet_eq_some_iff.mp he
    have hsame := h.distinct _ _ d e hd' he' heq
    exact hij (Int32.toInt_inj.mp (by omega))
  · rw [hd]
    exact h.find (diskGet_eq_some_iff.mp hd).2

/-- A registration fails for want of a disk or of room. -/
theorem diskRegister_of_neg (g : Registry) (disk : Option Disk) (h : Trace machine)
    (hfail : ((diskRegister g disk).value dev h).1 < 0) :
    ((diskRegister g disk).value dev h).2 = g := by
  cases disk with
  | none => rfl
  | some d =>
    rw [diskRegister] at hfail ⊢
    split
    · rfl
    · rename_i hroom
      rw [dif_neg hroom] at hfail
      have hcount : ((g.count + 1 : ℕ) : ℤ) - 1 < 0 := hfail
      omega

/-- **After detection the table is sound**, whatever the drives, the ports and the heap have
answered; and a registration that fails changes nothing. -/
theorem disk_table_sound (identify : UInt64) (h : Trace machine) :
    ((findDisks identify).value dev h).registry.Sound ∧
      ∀ (g : Registry) (disk : Option Disk) (dev' : Device machine) (h' : Trace machine),
        ((diskRegister g disk).value dev' h').1 < 0 →
          ((diskRegister g disk).value dev' h').2 = g := by
  constructor
  · exact (named_findDisks identify h).sound
  · exact fun g disk dev' h' hfail ↦ diskRegister_of_neg g disk h' hfail

end Aetherion.Storage
