import Aetherion.Shell.Dispatch
import Aetherion.Shell.LineEditor

/-!
# The loop of the shell

One pass of the loop of `kernel_main`: a key edits the line, or it is Enter, and then the line goes
to the dispatcher.  What the commands do to the screen is their own business, and a parameter here
(`Exec`); that `reboot` stops the machine is not.

Over the buffer and its length stands the line editor they are meant to be: a list of characters
(`editLine`), and for a whole session the lines that were entered (`linesOf`).  `Editor.Holds` ties
the two together.
-/

set_option autoImplicit false

namespace Aetherion.Shell

open Vga

/-! ## The loop body -/

/-- The C string at the start of a buffer. -/
def cString (buf : ℕ → UInt8) : List UInt8 :=
  ((List.range cmdBufSize).map buf).takeWhile (· ≠ 0)

/-- `c == '\n' || c == '\r'`. -/
def IsEnter (c : UInt8) : Prop := c = 10 ∨ c = 13

instance : DecidablePred IsEnter := fun c ↦ inferInstanceAs (Decidable (c = 10 ∨ c = 13))

/-- What a command line does to the terminal. -/
abbrev Exec := List UInt8 → Term → Term

/-- What the branch for Enter leaves behind. -/
structure Entered where
  /-- The C string the dispatcher was given. -/
  line : List UInt8
  /-- The state of the loop. -/
  editor : Editor
  /-- The processor has executed `cli; hlt`. -/
  stopped : Bool

/-- The branch of the loop for Enter. -/
def enterKey (exec : Exec) (s : Editor) : Entered :=
  let term := vgaPutchar s.term 10
  let cmdBuf := Function.update s.cmdBuf s.cmdLen 0
  let line := cString cmdBuf
  let term := if s.cmdLen > 0 then exec line term else term
  if s.cmdLen > 0 ∧ dispatch line = .reboot then
    ⟨line, ⟨cmdBuf, s.cmdLen, term⟩, true⟩
  else
    ⟨line, ⟨cmdBuf, 0, Vga.vgaWrite term prompt⟩, false⟩

/-! ## The line editor it is meant to be -/

/-- A key edits a line: a backspace takes the last character away, a printable character goes to
the end while there are fewer than 255. -/
def editLine (line : List UInt8) (c : UInt8) : List UInt8 :=
  if c = 8 then line.dropLast
  else if 32 ≤ c ∧ c < 127 ∧ line.length < 255 then line ++ [c]
  else line

/-- The line being typed, and the lines entered before it. -/
structure Typing where
  /-- What has been typed since the last Enter. -/
  line : List UInt8
  /-- What has been entered. -/
  entered : List (List UInt8)

def Typing.key (t : Typing) (c : UInt8) : Typing :=
  if IsEnter c then ⟨[], t.entered ++ [t.line]⟩ else ⟨editLine t.line c, t.entered⟩

/-- Typing some keys, from an empty line on. -/
def typing (keys : List UInt8) : Typing := keys.foldl Typing.key ⟨[], []⟩

/-- The lines that are entered with some keys. -/
def linesOf (keys : List UInt8) : List (List UInt8) := (typing keys).entered

theorem typing_concat (keys : List UInt8) (c : UInt8) :
    typing (keys ++ [c]) = (typing keys).key c := by
  rw [typing, List.foldl_append]
  rfl

/-! ## The buffer holds the line -/

/-- The buffer holds the line: as many characters as `cmd_len` says, none of them a terminator. -/
structure Editor.Holds (s : Editor) (l : List UInt8) : Prop where
  len : s.cmdLen = l.length
  len_le : l.length ≤ 255
  chars : ∀ i (hi : i < l.length), s.cmdBuf i = l[i]
  ne_zero : ∀ c ∈ l, c ≠ 0

theorem holds_nil (buf : ℕ → UInt8) (t : Term) : Editor.Holds ⟨buf, 0, t⟩ [] where
  len := rfl
  len_le := Nat.zero_le _
  chars i hi := absurd hi (Nat.not_lt_zero i)
  ne_zero _ hc := nomatch hc

variable {s : Editor} {l : List UInt8}

/-- One character less. -/
theorem Editor.Holds.dropLast {s' : Editor} (h : s.Holds l) (hbuf : s'.cmdBuf = s.cmdBuf)
    (hlen : s'.cmdLen = s.cmdLen - 1) : s'.Holds l.dropLast where
  len := by rw [hlen, h.len, List.length_dropLast]
  len_le := by
    rw [List.length_dropLast]
    exact Nat.le_trans (Nat.sub_le ..) h.len_le
  chars i hi := by
    rw [hbuf, List.getElem_dropLast]
    exact h.chars i _
  ne_zero c hc := h.ne_zero c (List.dropLast_subset _ hc)

/-- One character more. -/
theorem Editor.Holds.append {s' : Editor} (h : s.Holds l) {c : UInt8} (hc : c ≠ 0)
    (hroom : l.length < 255) (hbuf : s'.cmdBuf = Function.update s.cmdBuf s.cmdLen c)
    (hlen : s'.cmdLen = s.cmdLen + 1) : s'.Holds (l ++ [c]) where
  len := by rw [hlen, h.len, List.length_append, List.length_singleton]
  len_le := by
    rw [List.length_append, List.length_singleton]
    exact Nat.succ_le_of_lt hroom
  chars i hi := by
    rw [List.length_append, List.length_singleton] at hi
    rw [hbuf, h.len, Function.update_apply]
    by_cases hi' : i = l.length
    · subst hi'
      simp
    · rw [if_neg hi', List.getElem_append_left (by omega)]
      exact h.chars i _
  ne_zero d hd := by
    rcases List.mem_append.mp hd with hd | hd
    · exact h.ne_zero d hd
    · rw [List.mem_singleton.mp hd]
      exact hc

/-- **A key keeps the buffer and the line together.** -/
theorem Editor.Holds.editKey (h : s.Holds l) (c : UInt8) :
    (editKey s c).Holds (editLine l c) := by
  have hlen := h.len
  rw [Shell.editKey, editLine]
  by_cases h8 : c = 8
  · rw [if_pos h8, if_pos h8]
    by_cases hpos : s.cmdLen > 0
    · rw [if_pos hpos]
      exact h.dropLast rfl rfl
    · -- there is nothing to take away
      have hnil : l = [] := List.eq_nil_of_length_eq_zero (by omega)
      subst hnil
      rw [if_neg hpos]
      exact h
  · rw [if_neg h8, if_neg h8]
    by_cases hc : 32 ≤ c ∧ c < 127 ∧ l.length < 255
    · have hc' : c ≥ 32 ∧ c < 127 ∧ s.cmdLen < cmdBufSize - 1 := by rw [hlen]; exact hc
      rw [if_pos hc', if_pos hc]
      refine h.append ?_ hc.2.2 rfl rfl
      rintro rfl
      exact absurd hc.1 (by decide)
    · have hc' : ¬(c ≥ 32 ∧ c < 127 ∧ s.cmdLen < cmdBufSize - 1) := by rw [hlen]; exact hc
      rw [if_neg hc', if_neg hc]
      exact h

/-- A C string ends at the first terminator. -/
theorem cString_eq {buf : ℕ → UInt8} (hle : l.length ≤ 255)
    (hchars : ∀ i (hi : i < l.length), buf i = l[i]) (hend : buf l.length = 0)
    (hne : ∀ c ∈ l, c ≠ 0) : cString buf = l := by
  obtain ⟨k, hk⟩ : ∃ k, cmdBufSize = l.length + (k + 1) :=
    ⟨255 - l.length, by show 256 = _; omega⟩
  have hline : (List.range l.length).map buf = l := by
    refine List.ext_getElem (by simp) fun i h₁ h₂ ↦ ?_
    rw [List.getElem_map, List.getElem_range]
    exact hchars i h₂
  rw [cString, hk, List.range_add, List.map_append, hline,
    List.takeWhile_append_of_pos fun c hc ↦ by simpa using hne c hc, List.range_succ_eq_map,
    List.map_cons, List.map_cons, List.takeWhile_cons_of_neg (by simp [hend]), List.append_nil]

/-- **Enter hands the line over**, and starts an empty one unless the machine has stopped. -/
theorem Editor.Holds.enterKey (h : s.Holds l) (exec : Exec) :
    (enterKey exec s).line = l ∧
      ((enterKey exec s).stopped = false → (enterKey exec s).editor.Holds []) := by
  have hline : cString (Function.update s.cmdBuf s.cmdLen 0) = l := by
    refine cString_eq h.len_le (fun i hi ↦ ?_) ?_ h.ne_zero
    · rw [Function.update_of_ne (by rw [h.len]; omega), h.chars i hi]
    · rw [← h.len, Function.update_self]
  rw [Shell.enterKey]
  split
  · exact ⟨hline, fun hstop ↦ nomatch hstop⟩
  · exact ⟨hline, fun _ ↦ holds_nil _ _⟩

end Aetherion.Shell
