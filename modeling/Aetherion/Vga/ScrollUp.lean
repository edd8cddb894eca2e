import Aetherion.Vga.Terminal

/-!
# Scrolling by several rows

`vga_scroll_up` scrolls one row at a time, each time copying the rows in place.  After `n` times a
cell holds what was `n` rows below it, or a blank when there was no such row
(`vgaScrollUp_cells`), and so scrolling twice is scrolling by the sum.
-/

set_option autoImplicit false

namespace Aetherion.Vga

/-- The cell in row `y` and column `x`. -/
def Term.cell (t : Term) (y x : ℕ) : UInt16 := t.buffer (y * vgaWidth + x)

/-! ## One row at a time -/

section
variable (t : Term) (n : ℕ)

theorem vgaScroll_iterate_col : (vgaScroll^[n] t).col = t.col := by
  induction n with
  | zero => rfl
  | succ n ih => rw [Function.iterate_succ_apply', vgaScroll_col, ih]

theorem vgaScroll_iterate_color : (vgaScroll^[n] t).color = t.color := by
  induction n with
  | zero => rfl
  | succ n ih => rw [Function.iterate_succ_apply', vgaScroll_color, ih]

/-- **One row**: a cell takes what was below it, and there is nothing below the last row. -/
theorem vgaScroll_cell {y x : ℕ} (hy : y < vgaHeight) (hx : x < vgaWidth) :
    (vgaScroll t).cell y x =
      if y + 1 < vgaHeight then t.cell (y + 1) x else vgaEntry space t.color := by
  rw [Term.cell, vgaScroll_buffer, Term.cell]
  simp only [vgaHeight, vgaWidth] at hy hx ⊢
  by_cases hrow : y + 1 < 25
  · rw [if_pos hrow, if_pos (by omega)]
    congr 1
    omega
  · rw [if_neg hrow, if_neg (by omega), if_pos (by omega)]

/-- **Several rows.** -/
theorem vgaScroll_iterate_cell {y x : ℕ} (hy : y < vgaHeight) (hx : x < vgaWidth) :
    (vgaScroll^[n] t).cell y x =
      if y + n < vgaHeight then t.cell (y + n) x else vgaEntry space t.color := by
  induction n generalizing y with
  | zero => rw [Nat.add_zero, if_pos hy, Function.iterate_zero_apply]
  | succ n ih =>
    rw [Function.iterate_succ_apply', vgaScroll_cell _ hy hx, vgaScroll_iterate_color]
    by_cases hrow : y + 1 < vgaHeight
    · rw [if_pos hrow, ih hrow, show y + 1 + n = y + (n + 1) by omega]
    · rw [if_neg hrow, if_neg (by omega)]

end

/-! ## The loop -/

theorem vgaScrollUp_eq (t : Term) (n : Int32) :
    vgaScrollUp t n = vgaScroll^[n.toInt.toNat] t := Loop.forRange_const ..

/-- A sum that an `int` can hold. -/
theorem toInt_add_of_lt {a b : Int32} (ha : 0 ≤ a.toInt) (hb : 0 ≤ b.toInt)
    (hab : a.toInt + b.toInt ≤ Int32.maxValue.toInt) : (a + b).toInt = a.toInt + b.toInt := by
  rw [show Int32.maxValue.toInt = 2147483647 from rfl] at hab
  rw [Int32.toInt_add]
  exact Int.bmod_eq_of_le (by omega) (by omega)

/-- **Scrolling up by `n` rows** does nothing unless `n` is positive; otherwise every cell takes
what was `n` rows below it, or a blank in the colour in force, and the column and the colour stay.
Scrolling twice is scrolling by the sum. -/
theorem vgaScrollUp_cells (t : Term) (n : Int32) :
    (n.toInt ≤ 0 → vgaScrollUp t n = t) ∧
    (0 < n.toInt → ∀ y < vgaHeight, ∀ x < vgaWidth, (vgaScrollUp t n).cell y x =
      if y + n.toInt.toNat < vgaHeight then t.cell (y + n.toInt.toNat) x
      else vgaEntry space t.color) ∧
    (vgaScrollUp t n).col = t.col ∧ (vgaScrollUp t n).color = t.color ∧
    ∀ b : Int32, 0 ≤ n.toInt → 0 ≤ b.toInt → n.toInt + b.toInt ≤ Int32.maxValue.toInt →
      vgaScrollUp (vgaScrollUp t n) b = vgaScrollUp t (n + b) := by
  refine ⟨fun hn ↦ ?_, fun _ y hy x hx ↦ ?_, ?_, ?_, fun b hn hb hsum ↦ ?_⟩
  · rw [vgaScrollUp_eq, Int.toNat_of_nonpos hn, Function.iterate_zero_apply]
  · rw [vgaScrollUp_eq]
    exact vgaScroll_iterate_cell t _ hy hx
  · rw [vgaScrollUp_eq]
    exact vgaScroll_iterate_col t _
  · rw [vgaScrollUp_eq]
    exact vgaScroll_iterate_color t _
  · rw [vgaScrollUp_eq, vgaScrollUp_eq, vgaScrollUp_eq, ← Function.iterate_add_apply,
      toInt_add_of_lt hn hb hsum, Int.toNat_add hn hb, Nat.add_comm]

/-- A screen that is `A` all over, in the colour the kernel starts with. -/
def fullOfA : Term := ⟨0, 0, 0x0F, fun _ ↦ vgaEntry 65 0x0F⟩

/-- Scrolled up by two rows and by one, it has three blank rows at the bottom. -/
theorem vgaScrollUp_cells_full :
    vgaScrollUp fullOfA (-1) = fullOfA ∧ (vgaScrollUp fullOfA 3).cell 21 0 = 0x0F41 ∧
      (vgaScrollUp fullOfA 3).cell 22 79 = 0x0F20 ∧
      vgaScrollUp (vgaScrollUp fullOfA 2) 1 = vgaScrollUp fullOfA 3 :=
  ⟨(vgaScrollUp_cells fullOfA (-1)).1 (by decide),
    (vgaScrollUp_cells fullOfA 3).2.1 (by decide) 21 (by decide) 0 (by decide),
    (vgaScrollUp_cells fullOfA 3).2.1 (by decide) 22 (by decide) 79 (by decide),
    (vgaScrollUp_cells fullOfA 2).2.2.2.2 1 (by decide) (by decide) (by decide)⟩

end Aetherion.Vga
