import Mathlib.Data.List.DropRight
import Aetherion.Shell.Prompt

/-!
# The command buffer

`cmd_buf` has 256 entries, and nothing in the loop of `kernel_main` clears it: a line is written
over what earlier and longer ones have left there.  Here the stores to it are checked.

No key, in no session, has the loop store past the end of the buffer, and what stands in it when
Enter has ended it is what a line editor makes of the keys since the Enter before
(`session_cmdBuf`).
-/

set_option autoImplicit false

namespace Aetherion.Shell

open Driver

/-- `buf[i] = c`, for an index inside `cmd_buf`. -/
def storeAt (buf : ℕ → UInt8) (i : ℕ) (c : UInt8) : Option (ℕ → UInt8) :=
  if i < cmdBufSize then some (Function.update buf i c) else none

/-- A pass of the loop. -/
structure Pass where
  /-- The C string in `cmd_buf` at Enter. -/
  entered : Option (List UInt8)
  /-- The loop after it. -/
  next : Running

/-- One pass of the loop of `kernel_main`, unless it stores past the end of `cmd_buf`. -/
def Running.pass (sys : System) (dev : Device machine) (s : Running) (c : UInt8) : Option Pass :=
  let e := s.editor
  if IsEnter c then
    (storeAt e.cmdBuf e.cmdLen 0).map fun cmdBuf ↦ ⟨some (cString cmdBuf), s.enter sys dev⟩
  else if c = 8 then
    let cmdLen := if e.cmdLen > 0 then e.cmdLen - 1 else e.cmdLen
    let term := if e.cmdLen > 0 then Vga.vgaPutchar e.term 8 else e.term
    some ⟨none, { s with editor := ⟨e.cmdBuf, cmdLen, term⟩ }⟩
  else if c ≥ 32 ∧ c < 127 ∧ e.cmdLen < cmdBufSize - 1 then
    (storeAt e.cmdBuf e.cmdLen c).map fun cmdBuf ↦
      ⟨none, { s with editor := ⟨cmdBuf, e.cmdLen + 1, Vga.vgaPutchar e.term c⟩ }⟩
  else some ⟨none, s⟩

/-- The passes for some keys, from the first prompt on, as long as the loop goes on. -/
def passes (sys : System) (dev : Device machine) (h : Trace machine) (t : Vga.Term)
    (buf : ℕ → UInt8) (keys : List UInt8) : Option Running :=
  keys.foldlM (fun s c ↦ if s.stopped then some s else (s.pass sys dev c).map Pass.next)
    ⟨atPrompt t buf, h, [], false⟩

/-- The keys since the last Enter. -/
def sinceEnter (keys : List UInt8) : List UInt8 := keys.rtakeWhile (¬IsEnter ·)

section
variable (sys : System) (dev : Device machine) {s : Running}

/-- **A pass stays inside the buffer**, and is the step of the loop. -/
theorem Running.pass_eq (h : s.editor.cmdLen ≤ 255) (hrun : s.stopped = false) (c : UInt8) :
    ∃ p, s.pass sys dev c = some p ∧ p.next = s.key sys dev c ∧
      (IsEnter c →
        p.entered = some (cString (Function.update s.editor.cmdBuf s.editor.cmdLen 0))) := by
  have hin : s.editor.cmdLen < cmdBufSize := Nat.lt_succ_of_le h
  have hgoing : ¬s.stopped = true := by simp [hrun]
  simp only [Running.pass, Running.key, if_neg hgoing, storeAt, if_pos hin, Option.map_some]
  by_cases hc : IsEnter c
  · rw [if_pos hc, if_pos hc]
    exact ⟨_, rfl, rfl, fun _ ↦ rfl⟩
  · rw [if_neg hc, if_neg hc, Shell.editKey]
    split
    · -- a backspace
      refine ⟨_, rfl, ?_, fun henter ↦ absurd henter hc⟩
      split <;> rfl
    · split
      · exact ⟨_, rfl, rfl, fun henter ↦ absurd henter hc⟩
      · exact ⟨_, rfl, rfl, fun henter ↦ absurd henter hc⟩

/-- No key makes the line longer than 255 characters. -/
theorem editKey_cmdLen_le {e : Editor} (h : e.cmdLen ≤ 255) (c : UInt8) :
    (editKey e c).cmdLen ≤ 255 := by
  rw [editKey]
  split_ifs with h8 hpos hc
  · exact Nat.le_trans (Nat.sub_le ..) h
  · exact h
  · exact Nat.succ_le_of_lt hc.2.2
  · exact h

theorem enterKey_cmdLen_le {e : Editor} (h : e.cmdLen ≤ 255) (exec : Exec) :
    (enterKey exec e).editor.cmdLen ≤ 255 := by
  rw [enterKey]
  split
  · exact h
  · exact Nat.zero_le _

theorem Running.key_cmdLen_le (h : s.editor.cmdLen ≤ 255) (c : UInt8) :
    (s.key sys dev c).editor.cmdLen ≤ 255 := by
  rw [Running.key]
  split
  · exact h
  · split
    · rw [Running.enter]
      dsimp only
      split_ifs <;> exact enterKey_cmdLen_le h _
    · exact editKey_cmdLen_le h c

end

section
variable (sys : System) (dev : Device machine) (h : Trace machine) (t : Vga.Term)
  (buf : ℕ → UInt8) (keys : List UInt8)

theorem session_cmdLen_le : (session sys dev h t buf keys).editor.cmdLen ≤ 255 := by
  induction keys using List.reverseRecOn with
  | nil => exact Nat.zero_le _
  | append_singleton keys c ih =>
    rw [session_concat]
    exact Running.key_cmdLen_le sys dev ih c

/-- **No pass of a session leaves the buffer.** -/
theorem passes_eq : passes sys dev h t buf keys = some (session sys dev h t buf keys) := by
  induction keys using List.reverseRecOn with
  | nil => rfl
  | append_singleton keys c ih =>
    rw [passes] at ih
    rw [passes, List.foldlM_append, ih, session_concat, Option.bind_eq_bind, Option.bind_some]
    simp only [List.foldlM_cons, List.foldlM_nil, bind_pure]
    split
    · rename_i hstop
      rw [Running.key, if_pos hstop]
    · rename_i hgoing
      obtain ⟨p, hp, hnext, -⟩ := Running.pass_eq sys dev
        (session_cmdLen_le sys dev h t buf keys) (by simpa using hgoing) c
      rw [hp, Option.map_some, hnext]

end

/-- **The line being typed** is what the editor makes of the keys since the last Enter. -/
theorem typing_line_eq (keys : List UInt8) :
    (typing keys).line = (sinceEnter keys).foldl editLine [] := by
  induction keys using List.reverseRecOn with
  | nil => rfl
  | append_singleton keys c ih =>
    rw [typing_concat, Typing.key, sinceEnter]
    split
    · rename_i hc
      rw [List.rtakeWhile_concat_neg _ _ _ (by simpa using hc), List.foldl_nil]
    · rename_i hc
      rw [List.rtakeWhile_concat_pos _ _ _ (by simpa using hc), List.foldl_append, ih, sinceEnter]
      rfl

/-- **The buffer holds the line.**  Whatever keys are typed, whatever stood in the buffer and
whatever the commands do, no pass stores outside of `cmd_buf`, there are at most 255 characters in
it, and at Enter it holds the C string that a line editor makes of the keys since the last Enter. -/
theorem session_cmdBuf (sys : System) (dev : Device machine) (h : Trace machine) (t : Vga.Term)
    (buf : ℕ → UInt8) (keys : List UInt8) :
    ∃ s, passes sys dev h t buf keys = some s ∧ s.editor.cmdLen ≤ 255 ∧
      (s.stopped = false → ∀ c, ∃ p, s.pass sys dev c = some p ∧
        (IsEnter c → p.entered = some ((sinceEnter keys).foldl editLine []))) := by
  have hlen := session_cmdLen_le sys dev h t buf keys
  refine ⟨_, passes_eq sys dev h t buf keys, hlen, fun hrun c ↦ ?_⟩
  obtain ⟨p, hp, -, hentered⟩ := Running.pass_eq sys dev hlen hrun c
  refine ⟨p, hp, fun hc ↦ ?_⟩
  have hholds := (session_inv sys dev h t buf keys).holds hrun
  have hline := (hholds.enterKey fun _ t ↦ t).1
  rw [enterKey_line] at hline
  rw [hentered hc, hline, typing_line_eq]

end Aetherion.Shell
