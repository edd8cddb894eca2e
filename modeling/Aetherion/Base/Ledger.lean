import Mathlib.Data.List.Basic

/-!
# Ledgers

Things that are acquired, used and given back, by name.  A `Ledger.run` keeps the list of those that
are out, and breaks off at the first action that is not in order: a release or a use of something
that is not out.  So a log that runs through has no second release of one thing, and no use after
the release; and the books balance (`count_run`).
-/

set_option autoImplicit false

namespace Ledger

variable {α : Type}

/-- What is done with a thing. -/
inductive Action (α : Type) where
  /-- It is handed out. -/
  | acquire (a : α)
  /-- It is given back. -/
  | release (a : α)
  /-- It is looked at, or written to. -/
  | use (a : α)
  deriving DecidableEq

variable [DecidableEq α]

/-- What is out after an action, if that is in order. -/
def step (live : List α) : Action α → Option (List α)
  | .acquire a => some (a :: live)
  | .release a => if a ∈ live then some (live.erase a) else none
  | .use a => if a ∈ live then some live else none

/-- What is out after some actions, if they are all in order. -/
def run (live : List α) (log : List (Action α)) : Option (List α) := log.foldlM step live

variable {live live' : List α} {log log' : List (Action α)}

theorem run_singleton (live : List α) (c : Action α) : run live [c] = step live c :=
  Option.bind_fun_some _

theorem run_append (live : List α) (log log' : List (Action α)) :
    run live (log ++ log') = (run live log).bind (run · log') := List.foldlM_append

theorem run_append_of_eq (h : run live log = some live') :
    run live (log ++ log') = run live' log' := by
  rw [run_append, h, Option.bind_some]

/-- **In order to the end is in order all along.** -/
theorem isSome_run_of_append (h : (run live (log ++ log')).isSome) : (run live log).isSome := by
  rw [run_append] at h
  cases hlog : run live log with
  | none =>
    rw [hlog] at h
    cases h
  | some l => rfl

/-- What is handed out can be given back. -/
theorem step_release_cons (a : α) (live : List α) :
    step (a :: live) (.release a) = some live := by
  rw [step, if_pos List.mem_cons_self, List.erase_cons_head]

/-- One action. -/
theorem count_step {c : Action α} (h : step live c = some live') (a : α) :
    live'.count a + [c].count (.release a) = live.count a + [c].count (.acquire a) := by
  cases c with
  | acquire b =>
    obtain rfl := Option.some.inj h
    by_cases hb : b = a <;> simp [hb]
  | use b =>
    rw [step] at h
    split at h
    · obtain rfl := Option.some.inj h
      simp
    · cases h
  | release b =>
    rw [step] at h
    split at h
    · rename_i hmem
      obtain rfl := Option.some.inj h
      by_cases hb : b = a
      · subst hb
        have hpos := List.count_pos_iff.mpr hmem
        simp [List.count_erase_self]
        omega
      · simp [List.count_erase_of_ne (Ne.symm hb), hb]
    · cases h

/-- **The books balance**: what is out now and what has been given back make up what was out before
and what has been handed out. -/
theorem count_run (h : run live log = some live') (a : α) :
    live'.count a + log.count (.release a) = live.count a + log.count (.acquire a) := by
  induction log generalizing live with
  | nil =>
    obtain rfl : live = live' := Option.some.inj h
    simp
  | cons c log ih =>
    obtain ⟨next, hstep, hrest⟩ := Option.bind_eq_some_iff.mp h
    have hfirst := count_step hstep a
    have hall := ih hrest
    rw [← List.singleton_append, List.count_append, List.count_append]
    omega

/-- **Nothing is given back more often than it was out.** -/
theorem count_release_le (h : (run live log).isSome) (a : α) :
    log.count (.release a) ≤ live.count a + log.count (.acquire a) := by
  obtain ⟨live', hrun⟩ := Option.isSome_iff_exists.mp h
  have hcount := count_run hrun a
  omega

end Ledger
