import Mathlib.Data.List.Basic
import Mathlib.Data.Nat.Notation

/-!
# Bump allocation

A bump allocator has a pointer to the first byte that is free.  For a request it goes up to the next
multiple of the alignment, and moves the pointer behind the block.  Nothing is ever given back.

So the blocks lie one behind the other, from the first pointer up to the last one, whatever is asked
for (`place_pairwise`, `le_of_mem_place`), and each of them is aligned (`dvd_of_mem_place`).
-/

set_option autoImplicit false

namespace Bump

/-- So many bytes, at a multiple of the alignment. -/
structure Request where
  size : ℕ
  align : ℕ
  align_pos : 0 < align

/-- A request, and the address of the block it was given. -/
structure Placed where
  addr : ℕ
  request : Request

/-- The end of a block. -/
def Placed.stop (b : Placed) : ℕ := b.addr + b.request.size

/-- The next multiple of an alignment. -/
def alignUp (p align : ℕ) : ℕ := (p + align - 1) / align * align

/-- The pointer after a request. -/
def next (p : ℕ) (r : Request) : ℕ := alignUp p r.align + r.size

/-- The blocks for some requests, one after the other. -/
def place : ℕ → List Request → List Placed
  | _, [] => []
  | p, r :: rs => ⟨alignUp p r.align, r⟩ :: place (next p r) rs

/-- The pointer after some requests. -/
def finish (p : ℕ) (rs : List Request) : ℕ := rs.foldl next p

/-! ## Rounding up -/

section
variable {p q align : ℕ}

theorem dvd_alignUp (p align : ℕ) : align ∣ alignUp p align := Nat.dvd_mul_left ..

theorem le_alignUp (h : 0 < align) (p : ℕ) : p ≤ alignUp p align := by
  have hmod := Nat.mod_lt (p + align - 1) h
  have hdiv := Nat.div_add_mod' (p + align - 1) align
  rw [alignUp]
  omega

/-- It is the next one. -/
theorem alignUp_lt (h : 0 < align) (p : ℕ) : alignUp p align < p + align := by
  have hdiv := Nat.div_add_mod' (p + align - 1) align
  rw [alignUp]
  omega

/-- A multiple below another one is below by the alignment at least. -/
theorem alignUp_add_le (h : alignUp p align < q) (hq : align ∣ q) :
    alignUp p align + align ≤ q := by
  have hle := Nat.le_of_dvd (Nat.sub_pos_of_lt h) (Nat.dvd_sub hq (dvd_alignUp p align))
  omega

end

/-! ## One block after the other -/

section
variable {p : ℕ} {r : Request} {rs : List Request}

theorem le_next (p : ℕ) (r : Request) : p ≤ next p r :=
  Nat.le_trans (le_alignUp r.align_pos p) (Nat.le_add_right ..)

theorem le_finish (p : ℕ) (rs : List Request) : p ≤ finish p rs := by
  induction rs generalizing p with
  | nil => exact Nat.le_refl p
  | cons r rs ih => exact Nat.le_trans (le_next p r) (ih (next p r))

/-- Requests of a bounded size and alignment use up no more than that for each of them. -/
theorem finish_le {bound : ℕ} (p : ℕ) (h : ∀ r ∈ rs, r.size + r.align ≤ bound) :
    finish p rs ≤ p + bound * rs.length := by
  induction rs generalizing p with
  | nil => exact Nat.le_refl p
  | cons r rs ih =>
    have hrest := ih (next p r) fun r' hr' ↦ h r' (List.mem_cons_of_mem _ hr')
    have hfirst := h r List.mem_cons_self
    have hlt := alignUp_lt r.align_pos p
    change finish (next p r) rs ≤ _
    rw [List.length_cons, Nat.mul_succ]
    simp only [next] at hrest ⊢
    omega

/-- **The blocks are aligned.** -/
theorem dvd_of_mem_place {b : Placed} (hb : b ∈ place p rs) : b.request.align ∣ b.addr := by
  induction rs generalizing p with
  | nil => cases hb
  | cons r rs ih =>
    rcases List.mem_cons.mp hb with rfl | hb
    · exact dvd_alignUp p r.align
    · exact ih hb

/-- **They lie between the first pointer and the last.** -/
theorem le_of_mem_place {b : Placed} (hb : b ∈ place p rs) :
    p ≤ b.addr ∧ b.stop ≤ finish p rs := by
  induction rs generalizing p with
  | nil => cases hb
  | cons r rs ih =>
    rcases List.mem_cons.mp hb with rfl | hb
    · exact ⟨le_alignUp r.align_pos p, le_finish (next p r) rs⟩
    · obtain ⟨hlow, hhigh⟩ := ih hb
      exact ⟨Nat.le_trans (le_next p r) hlow, hhigh⟩

/-- **Each of them ends before the ones behind it begin.** -/
theorem place_pairwise (p : ℕ) (rs : List Request) :
    (place p rs).Pairwise fun b c ↦ b.stop ≤ c.addr := by
  induction rs generalizing p with
  | nil => exact .nil
  | cons r rs ih => exact .cons (fun c hc ↦ (le_of_mem_place hc).1) (ih (next p r))

end

end Bump
