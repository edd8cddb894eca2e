import Mathlib.Data.Set.Card
import Mathlib.Logic.Relation

/-!
# Chains that come to an end

A relation that gives every element at most one successor makes chains, and a chain either comes to
an end or runs into itself.  Where it comes to an end, the number of elements on it is a measure
that every step makes smaller (`chainLength_lt`), and over a finite type it is bounded
(`chainLength_lt_card`).
-/

set_option autoImplicit false

namespace Aetherion.Descent

open Relation

variable {α : Type*} {r : α → α → Prop} {a b : α}

/-- The chain from an element comes to an end. -/
def Ends (r : α → α → Prop) (a : α) : Prop := ∃ c, ReflTransGen r a c ∧ ∀ d, ¬r c d

/-- The number of elements that come after an element. -/
noncomputable def chainLength (r : α → α → Prop) (a : α) : ℕ := {b | TransGen r a b}.ncard

/-- A chain that comes to an end does not run into itself. -/
theorem Ends.not_transGen_self (hunique : Relator.RightUnique r) (h : Ends r a) :
    ¬TransGen r a a := by
  obtain ⟨c, hchain, hend⟩ := h
  induction hchain using ReflTransGen.head_induction_on with
  | refl =>
    intro hcycle
    obtain ⟨d, hstep, -⟩ := TransGen.head'_iff.mp hcycle
    exact hend d hstep
  | @head a b hstep _ ih =>
    intro hcycle
    obtain ⟨d, hstep', hrest⟩ := TransGen.head'_iff.mp hcycle
    obtain rfl := hunique hstep hstep'
    exact ih (TransGen.tail' hrest hstep)

/-- So does the chain from the next element. -/
theorem Ends.next (hunique : Relator.RightUnique r) (h : Ends r a) (hstep : r a b) : Ends r b := by
  obtain ⟨c, hchain, hend⟩ := h
  rcases ReflTransGen.cases_head hchain with rfl | ⟨d, hstep', hrest⟩
  · exact absurd hstep (hend b)
  · exact ⟨c, hunique hstep hstep' ▸ hrest, hend⟩

variable [Finite α]

/-- **Every step makes the chain shorter.** -/
theorem chainLength_lt (hunique : Relator.RightUnique r) (h : Ends r a) (hstep : r a b) :
    chainLength r b < chainLength r a := by
  refine Set.ncard_lt_ncard ⟨fun c hc ↦ .head hstep hc, fun hsub ↦ ?_⟩ (Set.toFinite _)
  exact (h.next hunique hstep).not_transGen_self hunique (hsub (.single hstep))

theorem chainLength_lt_card (hunique : Relator.RightUnique r) (h : Ends r a) :
    chainLength r a < Nat.card α := by
  rw [← Set.ncard_univ]
  refine Set.ncard_lt_ncard (Set.ssubset_univ_iff.mpr fun hall ↦ ?_) (Set.toFinite _)
  exact h.not_transGen_self hunique (hall ▸ Set.mem_univ a : a ∈ {b | TransGen r a b})

end Aetherion.Descent
