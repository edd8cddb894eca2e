import Mathlib.Logic.Function.Iterate
import Mathlib.Data.Nat.Basic

/-!
# Counted loops over a pure state

`Loop.forRange` is the loop `for (i = lo; i < lo + n; i++)` over a state, and `forRange_inv` its
invariant rule.  Two loops over an array recur and are solved here once: filling a stretch with one
value (`forRange_fill`), and moving a stretch down to lower addresses in place
(`forRange_moveDown`), which is right although source and target overlap because every cell is read
before the loop reaches it.

An array is a function from indices to values; what lies outside the stretch a loop works on is
part of the same function, so each of the two equations is a frame condition as well.
-/

set_option autoImplicit false

namespace Loop

variable {σ α : Type}

/-- `for (i = lo; i < lo + n; i++) s = f i s`. -/
def forRange (f : ℕ → σ → σ) : ℕ → ℕ → σ → σ
  | 0, _, s => s
  | n + 1, i, s => forRange f n (i + 1) (f i s)

/-- **The invariant rule.**  `I i s` holds on reaching index `i` in state `s`. -/
theorem forRange_inv {f : ℕ → σ → σ} (I : ℕ → σ → Prop) (n lo : ℕ) {s : σ}
    (hf : ∀ i s, lo ≤ i → i < lo + n → I i s → I (i + 1) (f i s)) (h : I lo s) :
    I (lo + n) (forRange f n lo s) := by
  induction n generalizing lo s with
  | zero => exact h
  | succ n ih =>
    rw [forRange, show lo + (n + 1) = lo + 1 + n by omega]
    exact ih _ (fun i s hlo hlt ↦ hf i s (by omega) (by omega)) (hf lo s le_rfl (by omega) h)

/-- A body that does not look at the index is iterated. -/
theorem forRange_const (f : σ → σ) (n lo : ℕ) (s : σ) : forRange (fun _ ↦ f) n lo s = f^[n] s := by
  induction n generalizing lo s with
  | zero => rfl
  | succ n ih => exact ih (lo + 1) (f s)

/-- Filling the stretch of length `n` at `a`. -/
theorem forRange_fill (a n : ℕ) (v : α) (m : ℕ → α) (j : ℕ) :
    forRange (fun x b ↦ Function.update b (a + x) v) n 0 m j =
      if a ≤ j ∧ j < a + n then v else m j := by
  have h := forRange_inv (f := fun x b ↦ Function.update b (a + x) v) (s := m)
    (fun i b ↦ ∀ j, b j = if a ≤ j ∧ j < a + i then v else m j) n 0 ?_
    (fun j ↦ (if_neg (by omega)).symm)
  · simpa using h j
  · intro i b _ _ hb j
    rw [Function.update_apply, hb j]
    split_ifs <;> first | rfl | omega

/-- Moving the stretch of length `n` at `a + w` down to `a`, cell by cell from the bottom. -/
theorem forRange_moveDown (a w n : ℕ) (hw : 0 < w) (m : ℕ → α) (j : ℕ) :
    forRange (fun x b ↦ Function.update b (a + x) (b (a + w + x))) n 0 m j =
      if a ≤ j ∧ j < a + n then m (j + w) else m j := by
  have h := forRange_inv (f := fun x b ↦ Function.update b (a + x) (b (a + w + x))) (s := m)
    (fun i b ↦ ∀ j, b j = if a ≤ j ∧ j < a + i then m (j + w) else m j) n 0 ?_
    (fun j ↦ (if_neg (by omega)).symm)
  · simpa using h j
  · intro i b _ _ hb j
    -- the cell read at index `i` lies above everything written so far
    have hread : b (a + w + i) = m (a + w + i) := by rw [hb, if_neg (by omega)]
    rw [Function.update_apply, hb j, hread]
    split_ifs with h₁ h₂ h₃
    · rw [h₁]; congr 1; omega
    · omega
    · rfl
    · omega
    · omega
    · rfl

end Loop
