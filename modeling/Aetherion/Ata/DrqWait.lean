import Aetherion.Base.Words
import Aetherion.Ata.Waiting

/-!
# What the wait for DRQ goes by

While BSY is set the other bits of the status register mean nothing: they may be those of the
command before.  A sample therefore counts (`Counts`) only if BSY is clear, and it is the first one
that counts that says whether the drive hands over its data.

`ata_wait_drq` does not look at BSY.  It goes by the first sample that shows ERR or DRQ at all, so
its decision is the right one, for the right reason, exactly when BSY is clear in that sample, or
it comes last and shows ERR, when running out of tries gives the same result
(`drq_decided_iff`).
-/

set_option autoImplicit false

namespace Aetherion.Ata

open Driver Driver.Prog

/-- The sample says something: BSY is clear, and ERR or DRQ is set. -/
def Counts (status : UInt8) : Prop := status &&& 0x80 = 0 ∧ status &&& 0x09 ≠ 0

/-- Sample `j` is the first among `n` that counts, and ERR is clear in it. -/
def SuppliesAt (status : ℕ → UInt8) (n j : ℕ) : Prop :=
  j < n ∧ Counts (status j) ∧ status j &&& 0x01 = 0 ∧ ∀ i < j, ¬Counts (status i)

/-- **The decision is based on samples that count**, for a wait of up to `n` polls that returns `r`
after some of them: `r` is `0` if the first sample that counts has ERR clear and `-1` otherwise, and
unless the polls have run out it is for the last sample, which counts. -/
structure DrqDecided (status : ℕ → UInt8) (n : ℕ) (r : ℤ) (polls : ℕ) : Prop where
  supplies : (∃ j, SuppliesAt status n j) → r = 0
  fails : (¬∃ j, SuppliesAt status n j) → r = -1
  basis : r = 0 ∨ polls < n → ∃ j, polls = j + 1 ∧ Counts (status j)

/-- Sample `j` is the first among `n` that shows ERR or DRQ. -/
def ShowsAt (status : ℕ → UInt8) (n j : ℕ) : Prop :=
  j < n ∧ status j &&& 0x09 ≠ 0 ∧ ∀ i < j, status i &&& 0x09 = 0

theorem drqTest_eq_none_iff (status : UInt8) : drqTest status = none ↔ status &&& 0x09 = 0 := by
  refine Words.of_lt status status.toNat_lt ?_
  decide +kernel

theorem drqTest_eq_zero_iff (status : UInt8) :
    drqTest status = some 0 ↔ status &&& 0x09 ≠ 0 ∧ status &&& 0x01 = 0 := by
  refine Words.of_lt status status.toNat_lt ?_
  decide +kernel

/-- There is one such sample at most. -/
theorem ShowsAt.unique {status : ℕ → UInt8} {n j k : ℕ} (hj : ShowsAt status n j)
    (hk : ShowsAt status n k) : j = k :=
  first_unique hj.2.1 (fun i hi ↦ not_not_intro (hj.2.2 i hi)) hk.2.1
    fun i hi ↦ not_not_intro (hk.2.2 i hi)

/-- If there is none, no sample shows either. -/
theorem none_of_not_shows {status : ℕ → UInt8} {n : ℕ} (h : ¬∃ k, ShowsAt status n k) :
    ∀ j < n, status j &&& 0x09 = 0 := by
  intro j
  induction j using Nat.strong_induction_on with
  | _ j ih =>
    intro hj
    by_contra hbits
    exact h ⟨j, hj, hbits, fun i hi ↦ ih i hi (hi.trans hj)⟩

section
variable {status : ℕ → UInt8} {n k : ℕ} {r : ℤ}

theorem eq_zero_iff_of_shows (hk : ShowsAt status n k) (hr : drqTest (status k) = some r) :
    r = 0 ↔ status k &&& 0x01 = 0 := by
  rw [← and_iff_right (b := status k &&& 0x01 = 0) hk.2.1, ← drqTest_eq_zero_iff, hr,
    Option.some.injEq]

/-- No sample before one that shows the first bit counts. -/
theorem ShowsAt.not_counts (hk : ShowsAt status n k) : ∀ i < k, ¬Counts (status i) :=
  fun i hi h ↦ h.2 (hk.2.2 i hi)

/-- A wait ended by a sample that counts. -/
theorem drqDecided_of_ready (hk : ShowsAt status n k) (hr : drqTest (status k) = some r)
    (hready : status k &&& 0x80 = 0) : DrqDecided status n r (k + 1) where
  supplies := by
    rintro ⟨j, -, hcounts, herror, hfirst⟩
    obtain rfl := first_unique (P := fun i ↦ Counts (status i)) ⟨hready, hk.2.1⟩ hk.not_counts
      hcounts hfirst
    exact (eq_zero_iff_of_shows hk hr).mpr herror
  fails hsupplies := by
    refine (drqTest_cases hr).resolve_right fun hzero ↦ hsupplies ?_
    exact ⟨k, hk.1, ⟨hready, hk.2.1⟩, (eq_zero_iff_of_shows hk hr).mp hzero, hk.not_counts⟩
  basis _ := ⟨k, rfl, hready, hk.2.1⟩

/-- A wait ended by the last sample there is, with ERR: if it does not count, none does. -/
theorem drqDecided_of_last (hk : ShowsAt status n k) (hr : drqTest (status k) = some r)
    (hbusy : status k &&& 0x80 ≠ 0) (hlast : k + 1 = n) (herror : status k &&& 0x01 ≠ 0) :
    DrqDecided status n r (k + 1) where
  supplies := by
    rintro ⟨j, hj, hcounts, -⟩
    rcases Nat.lt_or_eq_of_le (show j ≤ k by omega) with hlt | rfl
    · exact absurd hcounts (hk.not_counts j hlt)
    · exact absurd hcounts.1 hbusy
  fails _ := (drqTest_cases hr).resolve_right (mt (eq_zero_iff_of_shows hk hr).mp herror)
  basis h := by
    rcases h with hzero | hlt
    · exact absurd ((eq_zero_iff_of_shows hk hr).mp hzero) herror
    · omega

/-- **A wait that a sample ends.** -/
theorem drqDecided_iff_of_shows (hk : ShowsAt status n k) (hr : drqTest (status k) = some r) :
    DrqDecided status n r (k + 1) ↔
      status k &&& 0x80 = 0 ∨ k + 1 = n ∧ status k &&& 0x01 ≠ 0 := by
  constructor
  · intro hdecided
    by_cases hbasis : r = 0 ∨ k + 1 < n
    · obtain ⟨j, hj, hcounts⟩ := hdecided.basis hbasis
      rw [← Nat.succ.inj hj] at hcounts
      exact Or.inl hcounts.1
    · obtain ⟨hne, hge⟩ := not_or.mp hbasis
      have hlt := hk.1
      exact Or.inr ⟨by omega, mt (eq_zero_iff_of_shows hk hr).mpr hne⟩
  · intro hcond
    by_cases hready : status k &&& 0x80 = 0
    · exact drqDecided_of_ready hk hr hready
    · obtain ⟨hlast, herror⟩ := hcond.resolve_left hready
      exact drqDecided_of_last hk hr hready hlast herror

/-- **A wait that runs out.** -/
theorem drqDecided_of_none (hnone : ∀ j < n, status j &&& 0x09 = 0) :
    DrqDecided status n (-1) n where
  supplies := by
    rintro ⟨j, hj, hcounts, -⟩
    exact absurd (hnone j hj) hcounts.2
  fails _ := rfl
  basis h := by
    rcases h with h | h
    · exact absurd h (by decide)
    · exact absurd h (Nat.lt_irrefl n)

end

/-- **How the wait ends**, and after how many polls. -/
theorem ataWaitDrq_polls (basePort : UInt16) (timeoutMs : UInt32) (dev : Device machine)
    (h : Trace machine) :
    (∃ j < (timeoutMs * 1000).toNat,
        (∀ i < j, drqTest (statusAnswer basePort dev h i) = none) ∧
        drqTest (statusAnswer basePort dev h j) =
          some ((ataWaitDrq basePort timeoutMs).value dev h) ∧
        ((ataWaitDrq basePort timeoutMs).trace dev h).length = j + 1) ∨
      (∀ j < (timeoutMs * 1000).toNat, drqTest (statusAnswer basePort dev h j) = none) ∧
        (ataWaitDrq basePort timeoutMs).value dev h = -1 ∧
        ((ataWaitDrq basePort timeoutMs).trace dev h).length = (timeoutMs * 1000).toNat := by
  have hends := wait_spec dev (statusPort basePort) h drqTest (timeoutMs * 1000).toNat (-1)
  rw [← ataWaitDrq_eq] at hends
  generalize ht : h ++ (ataWaitDrq basePort timeoutMs).trace dev h = t at hends
  have hpolls := congrArg List.length ht
  rw [List.length_append] at hpolls
  generalize (ataWaitDrq basePort timeoutMs).value dev h = r at hends ⊢
  cases hends with
  | passed j r hj hbefore hfirst =>
    rw [length_polled, Nat.add_left_cancel_iff] at hpolls
    exact Or.inl ⟨j, hj, hbefore, hfirst, hpolls⟩
  | timeout hnone =>
    rw [length_polled, Nat.add_left_cancel_iff] at hpolls
    exact Or.inr ⟨hnone, rfl, hpolls⟩

/-- **The wait returns at the first sample that shows ERR or DRQ.** -/
theorem ataWaitDrq_of_shows {basePort : UInt16} {timeoutMs : UInt32} {dev : Device machine}
    {h : Trace machine} {k : ℕ}
    (hk : ShowsAt (statusAnswer basePort dev h) (timeoutMs * 1000).toNat k) :
    drqTest (statusAnswer basePort dev h k) =
        some ((ataWaitDrq basePort timeoutMs).value dev h) ∧
      ((ataWaitDrq basePort timeoutMs).trace dev h).length = k + 1 := by
  obtain ⟨j, hj, hbefore, hr, hpolls⟩ | ⟨hnone, -⟩ := ataWaitDrq_polls basePort timeoutMs dev h
  · have hshows : ShowsAt (statusAnswer basePort dev h) (timeoutMs * 1000).toNat j := by
      refine ⟨hj, fun hbits ↦ ?_, fun i hi ↦ (drqTest_eq_none_iff _).mp (hbefore i hi)⟩
      rw [(drqTest_eq_none_iff _).mpr hbits] at hr
      exact Option.some_ne_none _ hr.symm
    obtain rfl := hshows.unique hk
    exact ⟨hr, hpolls⟩
  · exact absurd ((drqTest_eq_none_iff _).mp (hnone k hk.1)) hk.2.1

/-- **It runs out if there is none.** -/
theorem ataWaitDrq_of_none {basePort : UInt16} {timeoutMs : UInt32} {dev : Device machine}
    {h : Trace machine}
    (hnone : ∀ j < (timeoutMs * 1000).toNat, statusAnswer basePort dev h j &&& 0x09 = 0) :
    (ataWaitDrq basePort timeoutMs).value dev h = -1 ∧
      ((ataWaitDrq basePort timeoutMs).trace dev h).length = (timeoutMs * 1000).toNat := by
  obtain ⟨j, hj, -, hr, -⟩ | ⟨-, hends⟩ := ataWaitDrq_polls basePort timeoutMs dev h
  · rw [(drqTest_eq_none_iff _).mpr (hnone j hj)] at hr
    exact absurd hr.symm (Option.some_ne_none _)
  · exact hends

/-- **The wait for DRQ is decided by a sample that counts** exactly when the first sample that shows
ERR or DRQ does, or is the last there is and shows ERR. -/
theorem drq_decided_iff (basePort : UInt16) (timeoutMs : UInt32) (dev : Device machine)
    (h : Trace machine) :
    DrqDecided (statusAnswer basePort dev h) (timeoutMs * 1000).toNat
        ((ataWaitDrq basePort timeoutMs).value dev h)
        ((ataWaitDrq basePort timeoutMs).trace dev h).length ↔
      ∀ j, ShowsAt (statusAnswer basePort dev h) (timeoutMs * 1000).toNat j →
        statusAnswer basePort dev h j &&& 0x80 = 0 ∨
          j + 1 = (timeoutMs * 1000).toNat ∧ statusAnswer basePort dev h j &&& 0x01 ≠ 0 := by
  by_cases hshows : ∃ k, ShowsAt (statusAnswer basePort dev h) (timeoutMs * 1000).toNat k
  · obtain ⟨k, hk⟩ := hshows
    obtain ⟨hvalue, hpolls⟩ := ataWaitDrq_of_shows hk
    rw [hpolls, drqDecided_iff_of_shows hk hvalue]
    constructor
    · intro hcond j hj
      rwa [hj.unique hk]
    · intro hcond
      exact hcond k hk
  · have hnone := none_of_not_shows hshows
    obtain ⟨hvalue, hpolls⟩ := ataWaitDrq_of_none hnone
    rw [hvalue, hpolls]
    exact iff_of_true (drqDecided_of_none hnone) fun j hj ↦ absurd ⟨j, hj⟩ hshows

/-- A drive that is still busy when it is first looked at, with the ERR bit of the command before,
and then has its data ready. -/
def slowMachine (dev : Device machine) : Device machine := fun h i ↦
  match i with
  | .inb _ => if h.length = 0 then (0x81 : UInt8) else (0x58 : UInt8)
  | i => dev h i

/-- The wait fails at once, though the data are there at the second look. -/
theorem stale_error_ends_wait :
    ¬DrqDecided (statusAnswer 0x1F0 (slowMachine (steadyMachine 0x58 0 0)) [])
      ((500 : UInt32) * 1000).toNat
      ((ataWaitDrq 0x1F0 500).value (slowMachine (steadyMachine 0x58 0 0)) [])
      ((ataWaitDrq 0x1F0 500).trace (slowMachine (steadyMachine 0x58 0 0)) []).length := by
  have hfirst : ShowsAt (statusAnswer 0x1F0 (slowMachine (steadyMachine 0x58 0 0)) [])
      ((500 : UInt32) * 1000).toNat 0 :=
    ⟨by decide, by decide, fun i hi ↦ absurd hi (Nat.not_lt_zero i)⟩
  obtain ⟨hvalue, hpolls⟩ := ataWaitDrq_of_shows hfirst
  rw [hpolls, drqDecided_iff_of_shows hfirst hvalue]
  rintro (h | ⟨h, -⟩)
  · exact absurd h (by decide)
  · exact absurd h (by decide)

end Aetherion.Ata
