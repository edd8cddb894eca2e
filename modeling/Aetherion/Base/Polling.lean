import Aetherion.Base.Driver

/-!
# Polling

A wait reads one register again and again, until an answer passes a test or the tries run out.
What the reads are answered with is the device's affair, but each answer is given to the history in
which the earlier ones stand, so `Prog.answer` can number them without a run: it is what the device
would say to read `n` of an uninterrupted series.

`Prog.wait` ends at the first answer that passes the test, or after the last one (`wait_spec`), and
which of the two is a matter of the answers alone.
-/

set_option autoImplicit false

namespace Driver.Prog

/-- There is only one first time. -/
theorem first_unique {P : ℕ → Prop} {k k' : ℕ} (hk : P k) (hbefore : ∀ j < k, ¬P j) (hk' : P k')
    (hbefore' : ∀ j < k', ¬P j) : k = k' := by
  rcases Nat.lt_trichotomy k k' with hlt | heq | hgt
  · exact absurd hk (hbefore' k hlt)
  · exact heq
  · exact absurd hk' (hbefore k' hgt)

theorem first_some_unique {ε : Type} {test : ℕ → Option ε} {k k' : ℕ} {r r' : ε}
    (hk : test k = some r) (hbefore : ∀ j < k, test j = none) (hk' : test k' = some r')
    (hbefore' : ∀ j < k', test j = none) : k = k' ∧ r = r' := by
  obtain rfl := first_unique (P := fun j ↦ test j ≠ none) (hk ▸ Option.some_ne_none r)
    (fun j hj ↦ not_not_intro (hbefore j hj)) (hk' ▸ Option.some_ne_none r')
    fun j hj ↦ not_not_intro (hbefore' j hj)
  exact ⟨rfl, Option.some.inj (hk.symm.trans hk')⟩

variable {F : Iface} {ε : Type} (dev : Device F) (i : F.In) (h : Trace F)

/-- The history after `n` reads of the register. -/
def polled : ℕ → Trace F
  | 0 => h
  | n + 1 => polled n ++ [.inp i (dev (polled n) i)]

/-- What read `n` is answered with, counted from `0`. -/
def answer (n : ℕ) : F.Reply i := dev (polled dev i h n) i

/-- One read, and then `n` more. -/
theorem polled_succ' (n : ℕ) :
    polled dev i (h ++ [.inp i (dev h i)]) n = polled dev i h (n + 1) := by
  induction n with
  | zero => rfl
  | succ n ih =>
    rw [polled, ih]
    rfl

/-- The reads, one by one. -/
theorem polled_eq (n : ℕ) :
    polled dev i h n = h ++ (List.range n).map fun j ↦ .inp i (answer dev i h j) := by
  induction n with
  | zero => exact (List.append_nil h).symm
  | succ n ih =>
    rw [polled, List.range_succ, List.map_append, ← List.append_assoc, ← ih]
    rfl

theorem length_polled (n : ℕ) : (polled dev i h n).length = h.length + n := by
  rw [polled_eq, List.length_append, List.length_map, List.length_range]

/-- Reads are no writes. -/
theorem outs_polled (n : ℕ) : outs (polled dev i h n) = outs h := by
  induction n with
  | zero => rfl
  | succ n ih =>
    rw [polled, outs_append, ih]
    exact List.append_nil _

/-- One read: leave the loop with what the test makes of the answer, if it passes. -/
def poll (i : F.In) (test : F.Reply i → Option ε) : Prog F (Except ε Unit) := do
  let r ← ask i
  match test r with
  | some e => pure (.error e)
  | none => pure (.ok ())

/-- Up to `n` reads, and `late` if none of them passes. -/
def wait (i : F.In) (test : F.Reply i → Option ε) (n : ℕ) (late : ε) : Prog F ε := do
  let r ← forLoop (fun _ (_ : Unit) ↦ poll i test) n 0 ()
  match r with
  | .error e => pure e
  | .ok _ => pure late

/-- **How a wait ends.** -/
inductive WaitEnds (dev : Device F) (i : F.In) (h : Trace F) (test : F.Reply i → Option ε) (n : ℕ)
    (late : ε) : ε → Trace F → Prop where
  /-- Answer `k` is the first to pass. -/
  | passed (k : ℕ) (r : ε) (hk : k < n) (hbefore : ∀ j < k, test (answer dev i h j) = none)
      (hfirst : test (answer dev i h k) = some r) :
      WaitEnds dev i h test n late r (polled dev i h (k + 1))
  /-- The tries have run out. -/
  | timeout (hnone : ∀ j < n, test (answer dev i h j) = none) :
      WaitEnds dev i h test n late late (polled dev i h n)

theorem trace_poll (test : F.Reply i → Option ε) :
    (poll i test).trace dev h = [.inp i (dev h i)] := by
  rw [poll, trace_bind]
  cases test ((ask i : Prog F _).value dev h) <;> rfl

/-- The way of the loop. -/
theorem path_poll (test : F.Reply i → Option ε) (n : ℕ) :
    Path (fun _ (_ : Unit) ↦ poll i test) dev (fun _ ↦ ()) (polled dev i h)
      (fun j r ↦ test (answer dev i h j) = some r) (fun j ↦ polled dev i h (j + 1)) n := by
  constructor
  · intro j _ r hr
    rw [trace_poll, poll, value_bind]
    refine ⟨?_, rfl⟩
    change (match test (answer dev i h j) with
      | some e => (pure (.error e) : Prog F (Except ε Unit))
      | none => pure (.ok ())).value dev _ = _
    rw [hr]
    rfl
  · intro j _ hgoes
    rw [trace_poll, poll, value_bind]
    refine ⟨?_, rfl⟩
    change (match test (answer dev i h j) with
      | some e => (pure (.error e) : Prog F (Except ε Unit))
      | none => pure (.ok ())).value dev _ = _
    rw [Option.eq_none_iff_forall_ne_some.mpr hgoes]
    rfl

theorem wait_spec (test : F.Reply i → Option ε) (n : ℕ) (late : ε) :
    WaitEnds dev i h test n late ((wait i test n late).value dev h)
      (h ++ (wait i test n late).trace dev h) := by
  have hends := forLoop_ends (path_poll dev i h test n)
  rw [show polled dev i h 0 = h from rfl] at hends
  rw [wait, value_bind, trace_bind]
  generalize (forLoop (fun _ (_ : Unit) ↦ poll i test) n 0 ()).trace dev h = t at hends ⊢
  generalize hu : h ++ t = u at hends
  generalize (forLoop (fun _ (_ : Unit) ↦ poll i test) n 0 ()).value dev h = v at hends ⊢
  cases hends with
  | stopped k r hk hbefore hstops =>
    rw [value_pure, trace_pure, List.append_nil, hu]
    exact .passed k r hk
      (fun j hj ↦ Option.eq_none_iff_forall_ne_some.mpr (hbefore j hj)) hstops
  | finished hall =>
    rw [value_pure, trace_pure, List.append_nil, hu]
    exact .timeout fun j hj ↦ Option.eq_none_iff_forall_ne_some.mpr (hall j hj)

end Driver.Prog
