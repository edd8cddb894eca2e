import Mathlib.Data.List.Induction
import Aetherion.Vga.Page

/-!
# The line editor of the shell

The loop of `kernel_main` keeps the line being typed twice: in `cmd_buf`, which is what will run,
and on the screen, which is what the user sees.  This file is about the two branches of the loop
that edit the line; the branch for Enter is elsewhere.

The two copies are kept in step by one `vga_putchar` for every change of `cmd_buf`.  For a
printable character that is exact, over the end of a row and through any scrolling
(`OnPage.typed`).  For a backspace it is exact only inside a row (`OnPage.erased`): in column `0`
`vga_putchar('\b')` does nothing, while `cmd_len` goes down all the same.  The prompt takes 11
cells, so this is what happens to a backspace typed when the line is 69, 149 or 229 characters
long, and `screen_holds_line` is the theorem that it is the only thing that happens.
-/

set_option autoImplicit false

namespace Aetherion.Shell

open Vga

/-- The local state of `kernel_main`'s loop, with the terminal it draws on. -/
structure Editor where
  /-- `cmd_buf`. -/
  cmdBuf : ℕ → UInt8
  /-- `cmd_len`. -/
  cmdLen : ℕ
  /-- The terminal. -/
  term : Term

/-- `sizeof(cmd_buf)`. -/
abbrev cmdBufSize : ℕ := 256

/-- `"aetherion> "`. -/
def prompt : List UInt8 := [97, 101, 116, 104, 101, 114, 105, 111, 110, 62, 32]

/-- The branches of the loop for a character that is not Enter. -/
def editKey (s : Editor) (c : UInt8) : Editor :=
  if c = 8 then  -- `'\b'`
    if s.cmdLen > 0 then
      { s with cmdLen := s.cmdLen - 1, term := vgaPutchar s.term 8 }
    else s
  else if c ≥ 32 ∧ c < 127 ∧ s.cmdLen < cmdBufSize - 1 then
    { cmdBuf := Function.update s.cmdBuf s.cmdLen c
      cmdLen := s.cmdLen + 1
      term := vgaPutchar s.term c }
  else s

/-- The state in which the user starts typing: the prompt has just been written. -/
def atPrompt (t : Term) (buf : ℕ → UInt8) : Editor := ⟨buf, 0, Vga.vgaWrite t prompt⟩

/-- A key that edits the line. -/
def Typed (c : UInt8) : Prop := c = 8 ∨ 32 ≤ c ∧ c < 127

instance : DecidablePred Typed := fun c ↦ inferInstanceAs (Decidable (c = 8 ∨ _))

/-! ## What it means for the screen to hold the line -/

/-- The cell before which the cursor of the screen is, in row-major order. -/
def cursorIndex (t : Term) : ℕ := t.row * 80 + t.col

/-- The character in a cell. -/
def cellChar (v : UInt16) : UInt8 := v.toUInt8

/-- The `cmd_len` cells before the cursor hold the characters of `cmd_buf`. -/
def ScreenHoldsLine (s : Editor) : Prop :=
  s.cmdLen ≤ cursorIndex s.term ∧
    ∀ i < s.cmdLen,
      cellChar (s.term.buffer (cursorIndex s.term - s.cmdLen + i)) = s.cmdBuf i

/-- What a key that edits the line does to its length. -/
def lenStep (n : ℕ) (c : UInt8) : ℕ := if c = 8 then n - 1 else if n < 255 then n + 1 else n

/-- The length of the line after these keys. -/
def lineLen (ks : List UInt8) : ℕ := ks.foldl lenStep 0

/-- No backspace is typed while the cursor is at the left margin, that is, when the prompt and
the line together fill a number of whole rows. -/
def NoBackspaceAtMargin (ks : List UInt8) : Prop :=
  ∀ n < ks.length, ks[n]? = some 8 → (11 + lineLen (ks.take n)) % 80 ≠ 0

instance : DecidablePred NoBackspaceAtMargin := fun ks ↦
  inferInstanceAs (Decidable (∀ n < ks.length, _))

theorem NoBackspaceAtMargin.of_append {ks post : List UInt8}
    (h : NoBackspaceAtMargin (ks ++ post)) : NoBackspaceAtMargin ks := by
  intro n hn hc
  have hn' := h n (by rw [List.length_append]; omega) (by rwa [List.getElem?_append_left hn])
  rwa [List.take_append_of_le_length (Nat.le_of_lt hn)] at hn'

/-- The condition for the last of some keys. -/
theorem NoBackspaceAtMargin.last {ks : List UInt8} (h : NoBackspaceAtMargin (ks ++ [8])) :
    (11 + lineLen ks) % 80 ≠ 0 := by
  simpa using h ks.length (by simp) (by simp)

theorem cellChar_vgaEntry (c color : UInt8) : cellChar (vgaEntry c color) = c :=
  toUInt8_vgaEntry c color

/-! ## The line on the page

On the page nothing scrolls, so the line stays where the prompt put it: `start` is the position of
the first cell after the prompt. -/

/-- The line is on the page, from position `start` up to the cursor. -/
structure OnPage (s : Editor) (p : Page) (start : ℕ) : Prop where
  /-- The screen is a window on this page. -/
  shows : Shows s.term p
  /-- The cursor is right behind the line. -/
  pos : p.pos = start + s.cmdLen
  len_le : s.cmdLen ≤ 255
  /-- The prompt was written from the left margin. -/
  start_mod : start % 80 = 11
  /-- The cells of the line. -/
  cells : ∀ i < s.cmdLen, cellChar (p.cellAt (start + i)) = s.cmdBuf i

variable {s : Editor} {p : Page} {start : ℕ}

/-- A key that edits the line but is not a backspace is no control character either. -/
theorem not_isControl_of_printable {c : UInt8} (hc : 32 ≤ c) : ¬IsControl c := by
  rintro (rfl | rfl | rfl | rfl) <;> exact absurd hc (by decide)

/-- **A printable character** is appended to both copies. -/
theorem OnPage.typed (h : OnPage s p start) {c : UInt8} (hc : 32 ≤ c) (hc' : c < 127)
    (hlen : s.cmdLen < 255) : OnPage (editKey s c) (p.putchar c) start := by
  have hctl := not_isControl_of_printable hc
  have h8 : c ≠ 8 := fun h ↦ hctl (by simp [IsControl, h])
  have hedit : editKey s c = ⟨Function.update s.cmdBuf s.cmdLen c, s.cmdLen + 1,
      vgaPutchar s.term c⟩ := by
    rw [editKey, if_neg h8, if_pos ⟨hc, hc', hlen⟩]
  rw [hedit]
  refine ⟨h.shows.putchar c, ?_, Nat.succ_le_of_lt hlen, h.start_mod, ?_⟩
  · rw [p.pos_putchar hctl, h.pos, Nat.add_assoc]
  · intro i hi
    simp only at hi ⊢
    rw [p.cellAt_putchar h.shows.col_lt hctl (by rw [h.pos]; omega), h.pos,
      Function.update_apply]
    by_cases hi' : i = s.cmdLen
    · rw [if_pos (by omega), if_pos hi', cellChar_vgaEntry]
    · rw [if_neg (by omega), if_neg hi', h.cells i (by omega)]

/-- **A backspace** takes the last character off both copies, as long as the cursor is not at the
left margin. -/
theorem OnPage.erased (h : OnPage s p start) (hlen : 0 < s.cmdLen)
    (hmargin : (11 + s.cmdLen) % 80 ≠ 0) : OnPage (editKey s 8) (p.putchar 8) start := by
  have hedit : editKey s 8 = { s with cmdLen := s.cmdLen - 1, term := vgaPutchar s.term 8 } := by
    rw [editKey, if_pos rfl, if_pos hlen]
  have hpos := h.pos
  have hmod := h.start_mod
  have hle := h.len_le
  have hcol : 0 < p.col := by simp only [Page.pos] at hpos; omega
  have hback := p.pos_backspace hcol
  rw [hedit]
  refine ⟨h.shows.putchar 8, by simp only; omega, by simp only; omega, hmod, ?_⟩
  intro i hi
  simp only at hi
  rw [p.cellAt_backspace hcol h.shows.col_lt (by omega)]
  exact h.cells i (by omega)

/-- **One key.**  The only step that can separate the two copies is a backspace at the left
margin. -/
theorem OnPage.key (h : OnPage s p start) {c : UInt8} (hc : Typed c)
    (hmargin : c = 8 → (11 + s.cmdLen) % 80 ≠ 0) : ∃ p', OnPage (editKey s c) p' start := by
  rcases hc with rfl | ⟨hlo, hhi⟩
  · by_cases hlen : 0 < s.cmdLen
    · exact ⟨_, h.erased hlen (hmargin rfl)⟩
    · exact ⟨p, by rwa [editKey, if_pos rfl, if_neg hlen]⟩
  · by_cases hlen : s.cmdLen < 255
    · exact ⟨_, h.typed hlo hhi hlen⟩
    · have h8 : c ≠ 8 := by rintro rfl; exact absurd hlo (by decide)
      exact ⟨p, by rwa [editKey, if_neg h8, if_neg fun hf ↦ hlen hf.2.2]⟩

theorem editKey_cmdLen (s : Editor) {c : UInt8} (hc : Typed c) :
    (editKey s c).cmdLen = lenStep s.cmdLen c := by
  rcases hc with rfl | ⟨hlo, hhi⟩
  · rw [editKey, lenStep, if_pos rfl, if_pos rfl]
    by_cases hlen : s.cmdLen > 0
    · rw [if_pos hlen]
    · rw [if_neg hlen]; omega
  · have h8 : c ≠ 8 := by rintro rfl; exact absurd hlo (by decide)
    rw [editKey, lenStep, if_neg h8, if_neg h8]
    by_cases hlen : s.cmdLen < 255
    · rw [if_pos ⟨hlo, hhi, hlen⟩, if_pos hlen]
    · rw [if_neg fun hf ↦ hlen hf.2.2, if_neg hlen]

/-! ## Runs -/

/-- An empty line is on any page, right behind the cursor. -/
theorem onPage_empty {t : Term} {p : Page} (h : Shows t p) (hmod : p.pos % 80 = 11)
    (buf : ℕ → UInt8) : OnPage ⟨buf, 0, t⟩ p p.pos :=
  ⟨h, rfl, Nat.zero_le _, hmod, fun i hi ↦ absurd hi (Nat.not_lt_zero i)⟩

/-- The prompt, written from the left margin of any row, leaves an empty line on the page. -/
theorem onPage_atPrompt {t : Term} (hrow : t.row < 25) (hcol : t.col = 0) (buf : ℕ → UInt8) :
    ∃ p, OnPage (atPrompt t buf) p p.pos := by
  have h := (shows_of_cursor (t := t) hrow (by omega)).write prompt
  refine ⟨_, onPage_empty h ?_ buf⟩
  rw [Page.pos_write _ (by simp [prompt, IsControl]), Page.pos, show prompt.length = 11 from rfl]
  simp only
  omega

/-- **The line stays on the page**, and its length is what the keys say it is. -/
theorem OnPage.run (h : OnPage s p start) (hlen : s.cmdLen = 0) {ks : List UInt8}
    (hks : ∀ c ∈ ks, Typed c) (hmargin : NoBackspaceAtMargin ks) :
    (ks.foldl editKey s).cmdLen = lineLen ks ∧ ∃ p', OnPage (ks.foldl editKey s) p' start := by
  induction ks using List.reverseRecOn with
  | nil => exact ⟨hlen, p, h⟩
  | append_singleton ks c ih =>
    obtain ⟨hlen', p', h'⟩ := ih (fun c hc ↦ hks c (by simp [hc])) hmargin.of_append
    have hc : Typed c := hks c (by simp)
    rw [List.foldl_append, List.foldl_cons, List.foldl_nil]
    refine ⟨?_, h'.key hc ?_⟩
    · rw [editKey_cmdLen _ hc, hlen', lineLen, lineLen, List.foldl_append]; rfl
    · rintro rfl
      rw [hlen']
      exact hmargin.last

/-- A line on the page is on the screen: it is at most 255 cells long, and the window reaches 24
rows back. -/
theorem OnPage.screen (h : OnPage s p start) : ScreenHoldsLine s := by
  have hpos := h.pos
  have hrow := h.shows.row
  have hcol := h.shows.col
  have hlt := h.shows.col_lt
  have hlen := h.len_le
  have hcur : cursorIndex s.term + (p.row - 24) * 80 = p.pos := by
    simp only [cursorIndex, Page.pos]; omega
  have hin : s.cmdLen ≤ cursorIndex s.term := by
    simp only [cursorIndex, Page.pos] at *; omega
  refine ⟨hin, ?_⟩
  intro i hi
  have hq : cursorIndex s.term - s.cmdLen + i < 2000 := by
    simp only [cursorIndex] at *; omega
  rw [h.shows.buffer_eq hq, ← h.cells i hi]
  congr 2; omega

/-- **The screen holds the line.**  Typing from a fresh prompt, in any row of any screen, the
cells before the cursor are the characters of `cmd_buf` in every state reached, provided no
backspace is typed while the cursor is at the left margin. -/
theorem screen_holds_line {t : Term} (hrow : t.row < 25) (hcol : t.col = 0) (buf : ℕ → UInt8)
    {ks : List UInt8} (hks : ∀ c ∈ ks, Typed c) (hmargin : NoBackspaceAtMargin ks) :
    ∀ pre, pre <+: ks → ScreenHoldsLine (pre.foldl editKey (atPrompt t buf)) := by
  rintro pre ⟨post, rfl⟩
  obtain ⟨p, h⟩ := onPage_atPrompt hrow hcol buf
  obtain ⟨-, p', h'⟩ := h.run rfl (fun c hc ↦ hks c (by simp [hc])) hmargin.of_append
  exact h'.screen

/-- Three characters, one of them taken back, on a screen whose cursor is in the last row. -/
theorem screen_holds_line_last_row :
    ScreenHoldsLine ([97, 98, 8, 99].foldl editKey
      (atPrompt ⟨24, 0, 15, fun _ ↦ vgaEntry space 15⟩ fun _ ↦ 0)) :=
  screen_holds_line (by decide) rfl _ (show ∀ c ∈ [97, 98, 8, 99], Typed c by simp [Typed])
    (by decide) _ List.prefix_rfl

/-- The line `b` and 68 times `a` fills the first row of the screen; a backspace then takes the
last `a` off `cmd_buf` only. -/
def marginKeys : List UInt8 := 98 :: List.replicate 68 97 ++ [8]

theorem not_screenHoldsLine_marginKeys :
    (∀ c ∈ marginKeys, Typed c) ∧ ¬ScreenHoldsLine (marginKeys.foldl editKey
      (atPrompt ⟨0, 0, 15, fun _ ↦ vgaEntry space 15⟩ fun _ ↦ 0)) := by
  refine ⟨by decide +kernel, ?_⟩
  intro h
  -- the first of the 68 characters of `cmd_buf` is `b`; on the screen it is an `a`
  have h0 := h.2 0 (by decide +kernel)
  revert h0
  decide +kernel

end Aetherion.Shell
