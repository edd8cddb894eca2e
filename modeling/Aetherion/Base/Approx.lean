import Aetherion.Base.Triple

/-!
# Programs with bounds

A loop or a recursion that need not end is given a bound, and ends without a result when the bound
is used up.  A program with a smaller bound is then an approximation to the one with a larger bound
(`Approx`): it ends without a result, or it does the same.

Approximations are put together as programs are, in sequences (`Approx.bind`, `approx_run_bind`) and
loops (`approx_forLoop`), and a recursion on the bound is one by `approx_of_le`, a wait by
`approx_run_of_le`.
-/

set_option autoImplicit false

namespace Driver.Prog

variable {F : Iface} {α β ε σ : Type}

/-- Whatever the device does, the first program ends with a value that is no result, or it does the
same as the second. -/
def Approx (U : α → Prop) (p q : Prog F α) : Prop :=
  ∀ dev h, U (p.value dev h) ∨ p.value dev h = q.value dev h ∧ p.trace dev h = q.trace dev h

theorem approx_refl (U : α → Prop) (p : Prog F α) : Approx U p p := fun _ _ ↦ .inr ⟨rfl, rfl⟩

/-- One that never has a result is an approximation to everything. -/
theorem approx_of_returns {U : α → Prop} {p : Prog F α} (hp : ∀ dev, Returns dev U p)
    (q : Prog F α) : Approx U p q := fun dev h ↦ .inl (hp dev h)

/-- **A sequence**, that has no result if its first part has none. -/
theorem Approx.bind {U : α → Prop} {V : β → Prop} {p q : Prog F α} {f g : α → Prog F β}
    (hp : Approx U p q) (hU : ∀ a, U a → ∀ dev, Returns dev V (f a))
    (hf : ∀ a, Approx V (f a) (g a)) : Approx V (p >>= f) (q >>= g) := by
  intro dev h
  rw [value_bind, value_bind, trace_bind, trace_bind]
  rcases hp dev h with hu | ⟨hvalue, htrace⟩
  · exact .inl (hU _ hu dev _)
  · rw [← hvalue, ← htrace]
    refine (hf _ dev _).imp id fun hsame ↦ ⟨hsame.1, ?_⟩
    rw [hsame.2]

/-- A sequence in which only the second part has a bound. -/
theorem approx_then {V : β → Prop} {p : Prog F α} {f g : α → Prog F β}
    (hf : ∀ a, Approx V (f a) (g a)) : Approx V (p >>= f) (p >>= g) :=
  Approx.bind (U := fun _ ↦ False) (approx_refl _ p) (fun _ ↦ False.elim) hf

theorem Approx.ite {U : α → Prop} {c : Prop} [Decidable c] {p p' q q' : Prog F α}
    (hp : Approx U p p') (hq : Approx U q q') :
    Approx U (if c then p else q) (if c then p' else q') := by
  split
  · exact hp
  · exact hq

/-- **A loop** over bodies with bounds. -/
theorem approx_forLoop {U : ε → Prop} {body body' : ℕ → σ → Prog F (Except ε σ)}
    (hb : ∀ i a, Approx (Exits U fun _ ↦ False) (body i a) (body' i a)) (n lo : ℕ) (a : σ) :
    Approx (Exits U fun _ ↦ False) (forLoop body n lo a) (forLoop body' n lo a) := by
  induction n generalizing lo a with
  | zero => exact approx_refl _ _
  | succ n ih =>
    refine (hb lo a).bind (fun r hr dev ↦ ?_) fun r ↦ ?_
    · cases r with
      | error e => exact returns_pure hr
      | ok a' => exact False.elim hr
    · cases r with
      | error e => exact approx_refl _ _
      | ok a' => exact ih (lo + 1) a'

/-- **Programs with a bound**, each made from one with a smaller bound. -/
theorem approx_of_le {U : α → Prop} {ι : Type} {p : ℕ → ι → Prog F α}
    (hzero : ∀ i dev, Returns dev U (p 0 i))
    (hsucc : ∀ n m, (∀ i, Approx U (p n i) (p m i)) → ∀ i, Approx U (p (n + 1) i) (p (m + 1) i))
    {n m : ℕ} (hle : n ≤ m) (i : ι) : Approx U (p n i) (p m i) := by
  induction n generalizing m i with
  | zero => exact approx_of_returns (hzero i) _
  | succ n ih =>
    obtain ⟨m, rfl⟩ := Nat.exists_eq_add_of_le' (Nat.le_trans (Nat.le_add_left 1 n) hle)
    exact hsucc n m (fun i ↦ ih (Nat.le_of_succ_le_succ hle) i) i

/-! ## Programs that may break off -/

section
variable {p q : OptionT (Prog F) α} {f g : α → OptionT (Prog F) β}

theorem approx_run_bind (hp : Approx (· = none) p.run q.run)
    (hf : ∀ a, Approx (· = none) (f a).run (g a).run) :
    Approx (· = none) (p >>= f).run (q >>= g).run := by
  rw [OptionT.run_bind, OptionT.run_bind]
  refine hp.bind (fun o ho dev ↦ ?_) fun o ↦ ?_
  · rw [ho]
    exact returns_pure rfl
  · cases o with
    | none => exact approx_refl _ _
    | some a => exact hf a

theorem approx_run_ite {c : Prop} [Decidable c] {p' q' : OptionT (Prog F) α}
    (hp : Approx (· = none) p.run p'.run) (hq : Approx (· = none) q.run q'.run) :
    Approx (· = none) (if c then p else q).run (if c then p' else q').run := by
  split
  · exact hp
  · exact hq

/-- **A wait** that is given a number of tries, and breaks off when they run out. -/
theorem approx_run_of_le {p : ℕ → OptionT (Prog F) α} (hzero : p 0 = failure)
    (hsucc : ∀ n m, Approx (· = none) (p n).run (p m).run →
      Approx (· = none) (p (n + 1)).run (p (m + 1)).run) {n m : ℕ} (hle : n ≤ m) :
    Approx (· = none) (p n).run (p m).run := by
  refine approx_of_le (U := (· = none)) (p := fun n (_ : Unit) ↦ (p n).run) (fun _ dev ↦ ?_)
    (fun n m ih _ ↦ hsucc n m (ih ())) hle ()
  rw [hzero]
  exact returns_pure rfl

end

end Driver.Prog
