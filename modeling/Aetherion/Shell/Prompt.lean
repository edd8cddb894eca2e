import Mathlib.Data.List.TakeWhile
import Aetherion.Shell.Commands

/-!
# The prompts of a session

The loop of `kernel_main` with everything its commands do: keys go in, and each Enter has the line
run and, if the command comes back, a prompt written.  The column in which each prompt begins is
noted.

What has been noted after some keys can be read off the lines they enter (`prompts_eq`), whatever
the machine answers to the commands.
-/

set_option autoImplicit false

namespace Aetherion.Shell

open Driver

/-- The loop of the shell. -/
structure Running where
  /-- The locals of the loop, and the terminal. -/
  editor : Editor
  /-- What has been exchanged with the machine. -/
  history : Trace machine
  /-- The columns in which the prompts began, but for the first one. -/
  prompts : List ℕ
  /-- A command has not come back. -/
  stopped : Bool

/-- The branch of the loop for Enter. -/
def Running.enter (sys : System) (dev : Device machine) (s : Running) : Running :=
  let term := Vga.vgaPutchar s.editor.term 10
  let e := enterKey (fun line t ↦ (runCommand sys dev s.history line t).term) s.editor
  if s.editor.cmdLen > 0 then
    let ran := runCommand sys dev s.history e.line term
    if ran.ended then
      ⟨e.editor, s.history ++ ran.trace, s.prompts ++ [ran.term.col], false⟩
    else ⟨e.editor, s.history ++ ran.trace, s.prompts, true⟩
  else { s with editor := e.editor, prompts := s.prompts ++ [term.col] }

/-- One character from `keyboard_getchar`. -/
def Running.key (sys : System) (dev : Device machine) (s : Running) (c : UInt8) : Running :=
  if s.stopped then s
  else if IsEnter c then s.enter sys dev
  else { s with editor := editKey s.editor c }

/-- The shell after some keys, from its first prompt on. -/
def session (sys : System) (dev : Device machine) (h : Trace machine) (t : Vga.Term)
    (buf : ℕ → UInt8) (keys : List UInt8) : Running :=
  keys.foldl (Running.key sys dev) ⟨atPrompt t buf, h, [], false⟩

/-- The lines that are run: those up to the first that does not come back to the loop. -/
def System.linesRun (sys : System) (keys : List UInt8) : List (List UInt8) :=
  (linesOf keys).takeWhile (¬sys.Stops ·)

/-! ## Lines -/

/-- There are no control characters in a line. -/
theorem typing_printable (keys : List UInt8) : (∀ c ∈ (typing keys).line, ¬Vga.IsControl c) ∧
    ∀ l ∈ linesOf keys, ∀ c ∈ l, ¬Vga.IsControl c := by
  induction keys using List.reverseRecOn with
  | nil => simp [typing, linesOf]
  | append_singleton keys c ih =>
    obtain ⟨hline, hentered⟩ := ih
    rw [linesOf, typing_concat, Typing.key]
    split
    · refine ⟨by simp, fun l hl ↦ ?_⟩
      rcases List.mem_append.mp hl with hl | hl
      · exact hentered l hl
      · rwa [List.mem_singleton.mp hl]
    · refine ⟨fun d hd ↦ ?_, hentered⟩
      simp only [editLine] at hd
      split_ifs at hd with h8 hc
      · exact hline d (List.dropLast_subset _ hd)
      · rcases List.mem_append.mp hd with hd | hd
        · exact hline d hd
        · rw [List.mem_singleton.mp hd]
          exact not_isControl_of_printable hc.1
      · exact hline d hd

theorem linesOf_concat (keys : List UInt8) (c : UInt8) :
    linesOf (keys ++ [c]) =
      if IsEnter c then linesOf keys ++ [(typing keys).line] else linesOf keys := by
  rw [linesOf, typing_concat, Typing.key]
  split <;> rfl

section
variable {sys : System} {dev : Device machine} {keys : List UInt8} {c : UInt8}

theorem linesRun_of_forall (h : ∀ l ∈ linesOf keys, ¬sys.Stops l) :
    sys.linesRun keys = linesOf keys :=
  List.takeWhile_eq_self_iff.mpr fun l hl ↦ decide_eq_true (h l hl)

/-- What is typed after a command that does not come back is not run. -/
theorem linesRun_concat_of_exists (h : ∃ l ∈ linesOf keys, sys.Stops l) (c : UInt8) :
    sys.linesRun (keys ++ [c]) = sys.linesRun keys := by
  rw [System.linesRun, linesOf_concat]
  split
  · rw [List.takeWhile_append, if_neg]
    · rfl
    · intro hall
      obtain ⟨l, hl, hstops⟩ := h
      have heq := (List.takeWhile_prefix _).eq_of_length hall
      exact of_decide_eq_true (List.takeWhile_eq_self_iff.mp heq l hl) hstops
  · rfl

/-- Enter adds a line. -/
theorem linesOf_enter (hc : IsEnter c) :
    linesOf (keys ++ [c]) = linesOf keys ++ [(typing keys).line] := by
  rw [linesOf_concat, if_pos hc]

/-- It is run, as all before it were, and comes back to the loop. -/
theorem linesRun_enter (hc : IsEnter c) (hnone : ∀ l ∈ linesOf keys, ¬sys.Stops l)
    (hline : ¬sys.Stops (typing keys).line) :
    sys.linesRun (keys ++ [c]) = linesOf keys ++ [(typing keys).line] ∧
      ¬∃ l ∈ linesOf (keys ++ [c]), sys.Stops l := by
  have hall : ∀ l ∈ linesOf (keys ++ [c]), ¬sys.Stops l := by
    rw [linesOf_enter hc]
    intro l hl
    rcases List.mem_append.mp hl with hl | hl
    · exact hnone l hl
    · rwa [List.mem_singleton.mp hl]
  exact ⟨(linesRun_of_forall hall).trans (linesOf_enter hc), by simpa using hall⟩

/-- It is run and does not come back. -/
theorem linesRun_enter_of_stops (hc : IsEnter c) (hnone : ∀ l ∈ linesOf keys, ¬sys.Stops l)
    (hline : sys.Stops (typing keys).line) :
    sys.linesRun (keys ++ [c]) = linesOf keys ∧ ∃ l ∈ linesOf (keys ++ [c]), sys.Stops l := by
  rw [System.linesRun, linesOf_enter hc]
  constructor
  · rw [List.takeWhile_append_of_pos fun l hl ↦ decide_eq_true (hnone l hl),
      List.takeWhile_cons_of_neg (by simpa using hline), List.append_nil]
  · exact ⟨_, List.mem_append_right _ (List.mem_singleton_self _), hline⟩

/-! ## Prompts -/

section
variable (exec : Exec) (s : Editor)

theorem enterKey_line :
    (enterKey exec s).line = cString (Function.update s.cmdBuf s.cmdLen 0) := by
  simp only [enterKey]
  split <;> rfl

variable (hgoing : s.cmdLen > 0 → dispatch (enterKey exec s).line ≠ .reboot)
include hgoing

theorem enterKey_stopped : (enterKey exec s).stopped = false := by
  rw [enterKey_line] at hgoing
  simp only [enterKey]
  rw [if_neg fun h ↦ hgoing h.1 h.2]

end

theorem ne_reboot_of_ended {h : Trace machine} {line : List UInt8} {t : Vga.Term}
    (hended : (runCommand sys dev h line t).ended = true) : dispatch line ≠ .reboot :=
  fun hreboot ↦ runCommand_ended.mp hended (Or.inl hreboot)

/-- **The invariant**, after some keys. -/
structure Running.Inv (sys : System) (s : Running) (keys : List UInt8) : Prop where
  prompts : s.prompts = (sys.linesRun keys).map columnAfter
  stopped : s.stopped = true ↔ ∃ l ∈ linesOf keys, sys.Stops l
  holds : s.stopped = false → s.editor.Holds (typing keys).line

variable {s : Running}

/-- **Enter runs the line.** -/
theorem Running.Inv.enter (h : s.Inv sys keys) (hrun : s.stopped = false) (hc : IsEnter c) :
    (s.enter sys dev).Inv sys (keys ++ [c]) := by
  have hholds := h.holds hrun
  have hnone : ∀ l ∈ linesOf keys, ¬sys.Stops l := by
    intro l hl hstops
    rw [h.stopped.mpr ⟨l, hl, hstops⟩] at hrun
    cases hrun
  have hprompts := h.prompts
  rw [linesRun_of_forall hnone] at hprompts
  have hempty : (typing (keys ++ [c])).line = [] := by rw [typing_concat, Typing.key, if_pos hc]
  obtain ⟨hline, hnext⟩ :=
    hholds.enterKey fun line t ↦ (runCommand sys dev s.history line t).term
  have hprintable := (typing_printable keys).1
  rw [Running.enter]
  simp only [hline]
  by_cases hlen : s.editor.cmdLen > 0
  · rw [if_pos hlen]
    split
    · rename_i hended
      obtain ⟨hran, hnostop⟩ := linesRun_enter hc hnone (runCommand_ended.mp hended)
      refine ⟨?_, iff_of_false Bool.false_ne_true hnostop, fun _ ↦ ?_⟩
      · rw [hran, List.map_append, ← hprompts,
          runCommand_col hprintable (Vga.vgaPutchar_newline_col _) hended]
        rfl
      · rw [hempty]
        exact hnext (enterKey_stopped _ s.editor fun _ ↦ hline ▸ ne_reboot_of_ended hended)
    · rename_i hended
      have hstops : sys.Stops (typing keys).line := by
        by_contra hstops
        exact hended (runCommand_ended.mpr hstops)
      obtain ⟨hran, hexists⟩ := linesRun_enter_of_stops hc hnone hstops
      refine ⟨?_, iff_of_true rfl hexists, fun hgo ↦ nomatch hgo⟩
      rw [hran]
      exact hprompts
  · rw [if_neg hlen]
    have hnil : (typing keys).line = [] :=
      List.eq_nil_of_length_eq_zero (by rw [← hholds.len]; omega)
    have hunknown : dispatch (typing keys).line = .unknown := by
      rw [hnil]
      decide
    obtain ⟨hran, hnostop⟩ := linesRun_enter hc hnone (by simp [System.Stops, hunknown])
    refine ⟨?_, ?_, fun _ ↦ ?_⟩
    · rw [hran, List.map_append, ← hprompts, hnil]
      simp [columnAfter, Overlong]
    · exact iff_of_false (by simpa using hrun) hnostop
    · rw [hempty]
      exact hnext (enterKey_stopped _ s.editor fun h ↦ absurd h hlen)

theorem Running.Inv.key (h : s.Inv sys keys) (c : UInt8) :
    (s.key sys dev c).Inv sys (keys ++ [c]) := by
  rw [Running.key]
  by_cases hrun : s.stopped = true
  · rw [if_pos hrun]
    have hexists := h.stopped.mp hrun
    refine ⟨(linesRun_concat_of_exists hexists c).symm ▸ h.prompts, iff_of_true hrun ?_, ?_⟩
    · obtain ⟨l, hl, hstops⟩ := hexists
      refine ⟨l, ?_, hstops⟩
      rw [linesOf_concat]
      split
      · exact List.mem_append_left _ hl
      · exact hl
    · intro hgoing
      rw [hrun] at hgoing
      cases hgoing
  · rw [if_neg hrun]
    rw [Bool.not_eq_true] at hrun
    by_cases hc : IsEnter c
    · rw [if_pos hc]
      exact h.enter hrun hc
    · rw [if_neg hc]
      have hlines : linesOf (keys ++ [c]) = linesOf keys := by rw [linesOf_concat, if_neg hc]
      refine ⟨?_, hlines ▸ h.stopped, fun _ ↦ ?_⟩
      · rw [System.linesRun, hlines]
        exact h.prompts
      · rw [typing_concat, Typing.key, if_neg hc]
        exact (h.holds hrun).editKey c

theorem session_concat (sys : System) (dev : Device machine) (h : Trace machine) (t : Vga.Term)
    (buf : ℕ → UInt8) (keys : List UInt8) (c : UInt8) :
    session sys dev h t buf (keys ++ [c]) = (session sys dev h t buf keys).key sys dev c := by
  rw [session, List.foldl_append]
  rfl

theorem session_inv (sys : System) (dev : Device machine) (h : Trace machine) (t : Vga.Term)
    (buf : ℕ → UInt8) (keys : List UInt8) : (session sys dev h t buf keys).Inv sys keys := by
  induction keys using List.reverseRecOn with
  | nil => exact ⟨rfl, by simp [session, linesOf, typing], fun _ ↦ holds_nil _ _⟩
  | append_singleton keys c ih =>
    rw [session_concat]
    exact ih.key c

/-- **Enter has the line run that has been typed.** -/
theorem history_enter {h : Trace machine} {t : Vga.Term} {buf : ℕ → UInt8}
    (hrun : (session sys dev h t buf keys).stopped = false) (hne : (typing keys).line ≠ [])
    (hc : IsEnter c) : ∃ t', (session sys dev h t buf (keys ++ [c])).history =
      (session sys dev h t buf keys).history ++
        (runCommand sys dev (session sys dev h t buf keys).history (typing keys).line
          t').trace := by
  rw [session_concat]
  have hholds := (session_inv sys dev h t buf keys).holds hrun
  generalize session sys dev h t buf keys = s at *
  have hlen : s.editor.cmdLen > 0 := by
    rw [hholds.len]
    exact List.length_pos_iff.mpr hne
  obtain ⟨hline, -⟩ := hholds.enterKey fun line t ↦ (runCommand sys dev s.history line t).term
  refine ⟨Vga.vgaPutchar s.editor.term 10, ?_⟩
  rw [Running.key, if_neg (by simp [hrun]), if_pos hc, Running.enter]
  simp only [hline]
  rw [if_pos hlen]
  split <;> rfl

/-- **The prompts of a session**: one for each line that is run, in the column in which that line
leaves the cursor. -/
theorem prompts_eq (sys : System) (dev : Device machine) (h : Trace machine) (t : Vga.Term)
    (buf : ℕ → UInt8) (keys : List UInt8) :
    (session sys dev h t buf keys).prompts = (sys.linesRun keys).map columnAfter :=
  (session_inv sys dev h t buf keys).prompts

/-- **Every prompt begins at the left margin exactly when no line that is run is an overlong
one**: an unknown command of 236 characters or more. -/
theorem prompts_at_margin_iff (sys : System) (dev : Device machine) (h : Trace machine)
    (t : Vga.Term) (buf : ℕ → UInt8) (keys : List UInt8) :
    (∀ col ∈ (session sys dev h t buf keys).prompts, col = 0) ↔
      ∀ line ∈ sys.linesRun keys, ¬Overlong line := by
  rw [prompts_eq, List.forall_mem_map]
  refine forall₂_congr fun line _ ↦ ?_
  rw [columnAfter]
  split <;> simp [*]

end

/-! ## A long line -/

/-- A system that has found nothing. -/
def bareSystem : System := ⟨Ahci.AhciState.initial.hba, .empty, .empty⟩

/-- 236 times `a`, and Enter. -/
def longKeys : List UInt8 := List.replicate 236 97 ++ [10]

/-- The prompt after a long unknown command stands behind what is left of the message. -/
theorem prompt_after_long_line :
    ¬∀ col ∈ (session bareSystem (steadyMachine 0 0 0) [] ⟨0, 0, 15, fun _ ↦ 0⟩ (fun _ ↦ 0)
      longKeys).prompts, col = 0 := by
  rw [prompts_eq]
  decide +kernel

end Aetherion.Shell
