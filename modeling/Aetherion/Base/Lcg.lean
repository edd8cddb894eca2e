import Mathlib.Algebra.Order.Ring.GeomSum
import Mathlib.Data.Nat.Count
import Mathlib.NumberTheory.Multiplicity
import Mathlib.RingTheory.Int.Basic

/-!
# Linear congruential generators

A generator steps from `x` to `a * x + c` modulo `2 ^ k`.  When `a` is one more than a multiple of
four and `c` is odd, it comes back to where it was after `2 ^ k` steps and not before
(`iterate_eq_self_iff`): `n` steps add to `x` an odd multiple of `1 + a + ... + a ^ (n - 1)`, and
two divides this sum exactly as often as it divides `n` (`two_pow_dvd_series_iff`).

So it goes through all the numbers below `2 ^ k`, from wherever it starts, and what is seen of a
property along the way is how many of them have it (`count_iterate`).
-/

set_option autoImplicit false

namespace Lcg

open Function

/-- A step of the generator. -/
def next (k a c x : ℕ) : ℕ := (a * x + c) % 2 ^ k

/-- `1 + a + ... + a ^ (n - 1)`. -/
def series (a n : ℕ) : ℕ := ∑ i ∈ Finset.range n, a ^ i

theorem series_zero (a : ℕ) : series a 0 = 0 := rfl

theorem series_succ (a n : ℕ) : series a (n + 1) = a * series a n + 1 := geom_sum_succ

theorem next_lt (k a c x : ℕ) : next k a c x < 2 ^ k := Nat.mod_lt _ (Nat.two_pow_pos k)

variable {k a c x : ℕ}

theorem iterate_lt (hx : x < 2 ^ k) (n : ℕ) : (next k a c)^[n] x < 2 ^ k := by
  cases n with
  | zero => exact hx
  | succ n =>
    rw [iterate_succ_apply']
    exact next_lt ..

/-- **Where `n` steps lead.** -/
theorem iterate_modEq (k a c x n : ℕ) :
    (next k a c)^[n] x ≡ a ^ n * x + c * series a n [MOD 2 ^ k] := by
  induction n with
  | zero => rw [iterate_zero_apply, series_zero, pow_zero, one_mul, mul_zero, add_zero]
  | succ n ih =>
    rw [iterate_succ_apply', series_succ]
    calc next k a c ((next k a c)^[n] x)
        ≡ a * (next k a c)^[n] x + c [MOD 2 ^ k] := Nat.mod_modEq ..
      _ ≡ a * (a ^ n * x + c * series a n) + c [MOD 2 ^ k] := (ih.mul_left a).add_right c
      _ = a ^ (n + 1) * x + c * (a * series a n + 1) := by ring

/-! ## The period -/

theorem mul_series (a n : ℕ) : ((a : ℤ) - 1) * series a n = (a : ℤ) ^ n - 1 := by
  rw [series, Nat.cast_sum]
  simp only [Nat.cast_pow]
  exact mul_geom_sum _ _

/-- **Two divides the sum as often as the number of its terms.** -/
theorem two_pow_dvd_series_iff (ha : a % 4 = 1) (n : ℕ) :
    (2 : ℤ) ^ k ∣ series a n ↔ (2 : ℤ) ^ k ∣ n := by
  rcases Nat.eq_or_lt_of_le (show 1 ≤ a by omega) with rfl | hone
  · simp [series]
  · have hlift := Int.two_pow_sub_pow' (x := a) (y := 1) n (by omega) (by omega)
    rw [one_pow, ← mul_series, emultiplicity_mul Int.prime_two] at hlift
    have hfinite : FiniteMultiplicity 2 ((a : ℤ) - 1) :=
      Int.finiteMultiplicity_iff.mpr ⟨by decide, by omega⟩
    have hsame : emultiplicity (2 : ℤ) (series a n) = emultiplicity 2 (n : ℤ) :=
      ENat.add_right_injective_of_ne_top (finiteMultiplicity_iff_emultiplicity_ne_top.mp hfinite)
        hlift
    rw [pow_dvd_iff_le_emultiplicity, pow_dvd_iff_le_emultiplicity, hsame]

/-- What `n` steps add to `x`, but for the modulus. -/
theorem iterate_sub (a c x n : ℕ) : ((a ^ n * x + c * series a n : ℕ) : ℤ) - x =
    series a n * ((a - 1) * x + c) := by
  push_cast
  calc (a : ℤ) ^ n * x + c * series a n - x = (a ^ n - 1) * x + c * series a n := by ring
    _ = (a - 1) * series a n * x + c * series a n := by rw [mul_series]
    _ = series a n * ((a - 1) * x + c) := by ring

theorem odd_factor (ha : a % 4 = 1) (hc : c % 2 = 1) (x : ℕ) :
    Odd (((a : ℤ) - 1) * x + c) := by
  have heven : Even (((a : ℤ) - 1) * x) := Even.mul_right (Int.even_iff.mpr (by omega)) _
  exact heven.add_odd (Int.odd_iff.mpr (by omega))

/-- **The generator is back after a multiple of `2 ^ k` steps, and at no other time.** -/
theorem iterate_eq_self_iff (ha : a % 4 = 1) (hc : c % 2 = 1) (hx : x < 2 ^ k) (n : ℕ) :
    (next k a c)^[n] x = x ↔ 2 ^ k ∣ n := by
  have hcoprime : IsCoprime ((2 : ℤ) ^ k) ((a - 1) * x + c) :=
    (Int.isCoprime_two_left.mpr (odd_factor ha hc x)).pow_left
  calc (next k a c)^[n] x = x
      ↔ (next k a c)^[n] x ≡ x [MOD 2 ^ k] :=
        ⟨fun h ↦ by rw [h], fun h ↦ h.eq_of_lt_of_lt (iterate_lt hx n) hx⟩
    _ ↔ x ≡ a ^ n * x + c * series a n [MOD 2 ^ k] :=
        ⟨fun h ↦ h.symm.trans (iterate_modEq ..), fun h ↦ (iterate_modEq ..).trans h.symm⟩
    _ ↔ (2 : ℤ) ^ k ∣ series a n * ((a - 1) * x + c) := by
        rw [Nat.modEq_iff_dvd, iterate_sub, Nat.cast_pow, Nat.cast_ofNat]
    _ ↔ (2 : ℤ) ^ k ∣ series a n := ⟨hcoprime.dvd_of_dvd_mul_right, fun h ↦ h.mul_right _⟩
    _ ↔ (2 : ℤ) ^ k ∣ n := two_pow_dvd_series_iff ha n
    _ ↔ 2 ^ k ∣ n := by rw [← Int.natCast_dvd_natCast, Nat.cast_pow, Nat.cast_ofNat]

/-! ## What is seen along the way -/

/-- No number comes twice in a period. -/
theorem injOn_iterate (ha : a % 4 = 1) (hc : c % 2 = 1) (hx : x < 2 ^ k) :
    Set.InjOn (fun n ↦ (next k a c)^[n] x) (Finset.range (2 ^ k)) := by
  -- the later of the two is some steps after the earlier
  have hlater {i j : ℕ} (hij : i ≤ j) (hj : j < 2 ^ k)
      (heq : (next k a c)^[i] x = (next k a c)^[j] x) : i = j := by
    rw [← Nat.sub_add_cancel hij, iterate_add_apply, eq_comm,
      iterate_eq_self_iff ha hc (iterate_lt hx i)] at heq
    have hzero := Nat.eq_zero_of_dvd_of_lt heq (by omega)
    omega
  intro i hi j hj heq
  rw [Finset.mem_coe, Finset.mem_range] at hi hj
  rcases Nat.le_total i j with hij | hji
  · exact hlater hij hj heq
  · exact (hlater hji hi heq.symm).symm

/-- **Every number comes in a period.** -/
theorem image_iterate (ha : a % 4 = 1) (hc : c % 2 = 1) (hx : x < 2 ^ k) :
    (Finset.range (2 ^ k)).image (fun n ↦ (next k a c)^[n] x) = Finset.range (2 ^ k) := by
  refine Finset.eq_of_subset_of_card_le ?_ ?_
  · intro y hy
    obtain ⟨n, -, rfl⟩ := Finset.mem_image.mp hy
    exact Finset.mem_range.mpr (iterate_lt hx n)
  · rw [Finset.card_image_of_injOn (injOn_iterate ha hc hx)]

/-- A property is met in a period as often as there are numbers that have it. -/
theorem count_period (ha : a % 4 = 1) (hc : c % 2 = 1) (hx : x < 2 ^ k) (p : ℕ → Prop)
    [DecidablePred p] :
    Nat.count (fun n ↦ p ((next k a c)^[n] x)) (2 ^ k) = Nat.count p (2 ^ k) := by
  have himage := congrArg (Finset.filter p) (image_iterate ha hc hx)
  rw [Finset.filter_image] at himage
  rw [Nat.count_eq_card_filter_range, Nat.count_eq_card_filter_range, ← himage,
    Finset.card_image_of_injOn]
  exact (injOn_iterate ha hc hx).mono (Finset.coe_subset.mpr (Finset.filter_subset ..))

/-- **The same in any number of periods.** -/
theorem count_iterate (ha : a % 4 = 1) (hc : c % 2 = 1) (hx : x < 2 ^ k) (p : ℕ → Prop)
    [DecidablePred p] (q : ℕ) :
    Nat.count (fun n ↦ p ((next k a c)^[n] x)) (q * 2 ^ k) = q * Nat.count p (2 ^ k) := by
  induction q with
  | zero => rw [Nat.zero_mul, Nat.zero_mul, Nat.count_zero]
  | succ q ih =>
    have hback : (next k a c)^[q * 2 ^ k] x = x :=
      (iterate_eq_self_iff ha hc hx _).mpr (Nat.dvd_mul_left ..)
    have hsame : Nat.count (fun n ↦ p ((next k a c)^[q * 2 ^ k + n] x)) (2 ^ k) =
        Nat.count p (2 ^ k) := by
      simp only [Nat.add_comm (q * 2 ^ k), iterate_add_apply, hback]
      exact count_period ha hc hx p
    rw [Nat.succ_mul, Nat.succ_mul, Nat.count_add, ih, hsame]

/-! ## The high part of a number -/

/-- As many numbers have a given quotient as the divisor says. -/
theorem count_div {m : ℕ} (hm : 0 < m) (p : ℕ → Prop) [DecidablePred p] (b : ℕ) :
    Nat.count (fun x ↦ p (x / m)) (m * b) = m * Nat.count p b := by
  induction b with
  | zero => simp
  | succ b ih =>
    -- the last `m` numbers have the quotient `b`
    have hquot : ∀ i < m, (m * b + i) / m = b := fun i hi ↦ by
      rw [Nat.mul_add_div hm, Nat.div_eq_of_lt hi, Nat.add_zero]
    rw [Nat.mul_succ, Nat.count_add, ih, Nat.count_succ, Nat.mul_add]
    congr 1
    split
    · rw [Nat.mul_one]
      exact Nat.count_of_forall fun i hi ↦ by rwa [hquot i hi]
    · rw [Nat.mul_zero]
      exact Nat.count_of_forall_not fun i hi ↦ by rwa [hquot i hi]

end Lcg
