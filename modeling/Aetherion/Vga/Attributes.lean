import Mathlib.Data.List.Induction
import Aetherion.Vga.VideoMemory

/-!
# Characters and colours

What a cell of the screen should hold: the character that was last put there, or a space, and the
colour in force then.  Here this is noted beside the screen, and the note moves when the screen
scrolls (`Marked`).

`vga_entry` widens a `char`, and `char` is signed.  So a byte from `0x80` on brings a high byte of
ones with it, and the colour of its cell comes out as `0xFF` whatever it should be.  A whole run
keeps to the notes exactly when such bytes are written white on white only
(`faithful_iff_whiteOnWhite`).
-/

set_option autoImplicit false

namespace Aetherion.Vga

open Video (Op InGrid cursorOf)

/-! ## The steps of a run -/

/-- What is done to the terminal, character by character and line by line. -/
inductive Step where
  | putchar (c : UInt8)
  | clear
  | setColor (fg bg : VgaColor)
  | scroll
  | setCursor (row col : ℕ)

/-- An operation in steps.  (`vga_printf` is a `vga_write`, and `vga_init` sets the colour and
clears the screen.) -/
def opSteps : Op → List Step
  | .putchar c => [.putchar c]
  | .write str => str.map .putchar
  | .clear => [.clear]
  | .setColor fg bg => [.setColor fg bg]
  | .scrollUp lines => .replicate lines.toInt.toNat .scroll
  | .setCursor row col => [.setCursor row col]

def Step.onTerm (t : Term) : Step → Term
  | .putchar c => vgaPutchar t c
  | .clear => vgaClear t
  | .setColor fg bg => vgaSetColor t fg bg
  | .scroll => vgaScroll t
  | .setCursor row col => vgaSetCursor t row col

/-- **The steps of an operation** do together what it does. -/
theorem onTerm_opSteps (t : Term) (op : Op) :
    (opSteps op).foldl Step.onTerm t = op.onScreen t := by
  cases op with
  | write str => exact List.foldl_map
  | scrollUp lines =>
    have hloop (n lo : ℕ) (t : Term) : (List.replicate n Step.scroll).foldl Step.onTerm t =
        Loop.forRange (fun _ ↦ vgaScroll) n lo t := by
      induction n generalizing lo t with
      | zero => rfl
      | succ n ih => exact ih (lo + 1) (vgaScroll t)
    exact hloop _ 0 t
  | _ => rfl

/-! ## Notes -/

/-- What was put in a cell. -/
structure Stamp where
  /-- The character, or a space. -/
  char : UInt8
  /-- The colour in force. -/
  color : UInt8

/-- A note for every cell that has been written or blanked. -/
abbrev Notes := ℕ → Option Stamp

/-- The notes move up by a row, and the last row is blanked. -/
def Notes.scroll (color : UInt8) (n : Notes) : Notes := fun i ↦
  if i < 1920 then n (i + 80) else if i < 2000 then some ⟨space, color⟩ else n i

/-- The cursor leaves its row. -/
def Notes.nextRow (t : Term) (n : Notes) : Notes :=
  if t.row + 1 = 25 then n.scroll t.color else n

def Notes.putchar (t : Term) (n : Notes) (c : UInt8) : Notes :=
  if c = 10 then n.nextRow t
  else if c = 13 then n
  else if c = 9 then if (t.col + 4) / 4 * 4 ≥ 80 then n.nextRow t else n
  else if c = 8 then
    if t.col > 0 then Function.update n (t.row * 80 + (t.col - 1)) (some ⟨space, t.color⟩) else n
  else
    let n : Notes := Function.update n (t.row * 80 + t.col) (some ⟨c, t.color⟩)
    if t.col + 1 = 80 then n.nextRow t else n

theorem Notes.putchar_of_not_isControl (t : Term) (n : Notes) {c : UInt8} (hc : ¬IsControl c) :
    n.putchar t c =
      let n : Notes := Function.update n (t.row * 80 + t.col) (some ⟨c, t.color⟩)
      if t.col + 1 = 80 then n.nextRow t else n := by
  simp only [IsControl, not_or] at hc
  rw [putchar, if_neg hc.1, if_neg hc.2.1, if_neg hc.2.2.1, if_neg hc.2.2.2]

/-- What a step on the terminal `t` does to the notes. -/
def Step.onNotes (t : Term) (n : Notes) : Step → Notes
  | .putchar c => n.putchar t c
  | .clear => fun i ↦ if i < 2000 then some ⟨space, t.color⟩ else n i
  | .setColor _ _ => n
  | .scroll => n.scroll t.color
  | .setCursor _ _ => n

/-- A terminal, and what should be on it. -/
structure Marked where
  /-- The terminal. -/
  term : Term
  /-- What has been put in its cells. -/
  notes : Notes

def Marked.step (m : Marked) (s : Step) : Marked := ⟨s.onTerm m.term, s.onNotes m.term m.notes⟩

/-- The statics of `vga.c` as they are when the kernel starts, over any video memory. -/
def atBoot (buffer : ℕ → UInt16) : Marked := ⟨⟨0, 0, 0x0F, buffer⟩, fun _ ↦ none⟩

/-- After some steps. -/
def marked (buffer : ℕ → UInt16) (steps : List Step) : Marked :=
  steps.foldl Marked.step (atBoot buffer)

theorem marked_concat (buffer : ℕ → UInt16) (steps : List Step) (s : Step) :
    marked buffer (steps ++ [s]) = (marked buffer steps).step s := by
  rw [marked, List.foldl_append]
  rfl

/-- **Every cell is as noted**: the character in the low byte, the colour in the high one. -/
def Faithful (m : Marked) : Prop :=
  ∀ i < 2000, ∀ s ∈ m.notes i,
    (m.term.buffer i).toUInt8 = s.char ∧ (m.term.buffer i >>> 8).toUInt8 = s.color

/-- The colour that some steps leave in force. -/
def colorAfter (steps : List Step) : UInt8 :=
  steps.foldl (fun color s ↦ match s with
    | .setColor fg bg => vgaEntryColor fg bg
    | _ => color) 0x0F

/-- **No byte from `0x80` on is written but white on white.** -/
def WhiteOnWhite (steps : List Step) : Prop :=
  ∀ pre c, pre ++ [.putchar c] <+: steps → 0x80 ≤ c → colorAfter pre = 0xFF

/-! ## The notes are right -/

/-- Every noted cell was packed from its note, and every note satisfies `Q`. -/
def Holds (Q : Stamp → Prop) (buffer : ℕ → UInt16) (n : Notes) : Prop :=
  ∀ i, ∀ s ∈ n i, buffer i = vgaEntry s.char s.color ∧ Q s

section
variable {Q : Stamp → Prop} {t : Term} {n : Notes}

theorem Holds.put (h : Holds Q t.buffer n) {c : UInt8} (hc : Q ⟨c, t.color⟩) (i : ℕ) :
    Holds Q (Function.update t.buffer i (vgaEntry c t.color))
      (Function.update n i (some ⟨c, t.color⟩)) := by
  intro j s hs
  by_cases hj : j = i
  · subst hj
    rw [Function.update_self] at hs ⊢
    obtain rfl := Option.mem_some_iff.mp hs
    exact ⟨rfl, hc⟩
  · rw [Function.update_of_ne hj] at hs ⊢
    exact h j s hs

variable (hblank : ∀ color, Q ⟨space, color⟩)
include hblank

/-- **Scrolling** moves cells and notes alike. -/
theorem Holds.scroll (h : Holds Q t.buffer n) :
    Holds Q (vgaScroll t).buffer (n.scroll t.color) := by
  intro i s hs
  rw [Notes.scroll] at hs
  rw [vgaScroll_buffer]
  split_ifs at hs ⊢
  · exact h _ s hs
  · obtain rfl := Option.mem_some_iff.mp hs
    exact ⟨rfl, hblank _⟩
  · exact h i s hs

theorem Holds.clear (h : Holds Q t.buffer n) :
    Holds Q (vgaClear t).buffer (Step.clear.onNotes t n) := by
  intro i s hs
  change s ∈ (if i < 2000 then _ else _) at hs
  rw [vgaClear_buffer]
  split_ifs at hs ⊢
  · obtain rfl := Option.mem_some_iff.mp hs
    exact ⟨rfl, hblank _⟩
  · exact h i s hs

theorem Holds.nextRow (h : Holds Q t.buffer n) (col : ℕ) :
    Holds Q (nextRow { t with col := col }).buffer (n.nextRow t) := by
  rw [Vga.nextRow, Notes.nextRow]
  dsimp only
  split
  · exact Holds.scroll (t := { t with row := t.row + 1, col := col }) hblank h
  · exact h

/-- **One character.** -/
theorem Holds.putchar (h : Holds Q t.buffer n) {c : UInt8} (hc : Q ⟨c, t.color⟩) :
    Holds Q (vgaPutchar t c).buffer (n.putchar t c) := by
  by_cases hctl : IsControl c
  · rcases hctl with rfl | rfl | rfl | rfl
    · exact h.nextRow hblank 0
    · exact h
    · rw [vgaPutchar_tab]
      change Holds Q _ (if _ then _ else _)
      split
      · exact h.nextRow hblank 0
      · exact h
    · rw [vgaPutchar_backspace]
      change Holds Q _ (if _ then _ else _)
      split
      · exact h.put (hblank _) _
      · exact h
  · have hput := h.put hc (t.row * 80 + t.col)
    rw [vgaPutchar_of_not_isControl t hctl, Notes.putchar_of_not_isControl t n hctl]
    split
    · exact Holds.nextRow (t := putCell t (vgaEntry c t.color)) hblank hput 0
    · exact hput

/-- **One step.** -/
theorem Holds.step {m : Marked} (h : Holds Q m.term.buffer m.notes) {s : Step}
    (hs : ∀ c, s = .putchar c → Q ⟨c, m.term.color⟩) :
    Holds Q (m.step s).term.buffer (m.step s).notes := by
  cases s with
  | putchar c => exact h.putchar hblank (hs c rfl)
  | clear => exact h.clear hblank
  | setColor fg bg => exact h
  | scroll => exact h.scroll hblank
  | setCursor row col =>
    change Holds Q (vgaSetCursor m.term row col).buffer m.notes
    rw [vgaSetCursor]
    split <;> exact h

end

/-! ## Cursor and colour -/

/-- No step takes the cursor out of the grid. -/
theorem inGrid_onTerm {t : Term} (h : InGrid (cursorOf t)) (s : Step) :
    InGrid (cursorOf (s.onTerm t)) := by
  have hop (op : Op) : InGrid (cursorOf (op.onScreen t)) := by
    have hruns : Video.Becomes t.buffer _ t _ := Video.runs_exec t op
    have hvalue := (hruns [] rfl).1
    rw [← hvalue]
    exact (Op.bounded_exec h op).cursor _ []
  cases s with
  | putchar c => exact hop (.putchar c)
  | clear => exact hop .clear
  | setColor fg bg => exact hop (.setColor fg bg)
  | scroll => exact ⟨Nat.lt_succ_self 24, h.col⟩
  | setCursor row col => exact hop (.setCursor row col)

@[simp] theorem nextRow_color (t : Term) : (nextRow t).color = t.color := by
  rw [nextRow]
  split <;> rfl

theorem vgaPutchar_color (t : Term) (c : UInt8) : (vgaPutchar t c).color = t.color := by
  rw [vgaPutchar]
  dsimp only
  split_ifs <;> simp [putCell]

theorem inGrid_marked (buffer : ℕ → UInt16) (steps : List Step) :
    InGrid (cursorOf (marked buffer steps).term) := by
  induction steps using List.reverseRecOn with
  | nil => exact ⟨Nat.zero_lt_succ _, Nat.zero_lt_succ _⟩
  | append_singleton steps s ih =>
    rw [marked_concat]
    exact inGrid_onTerm ih s

theorem marked_color (buffer : ℕ → UInt16) (steps : List Step) :
    (marked buffer steps).term.color = colorAfter steps := by
  induction steps using List.reverseRecOn with
  | nil => rfl
  | append_singleton steps s ih =>
    rw [marked_concat, colorAfter, List.foldl_append]
    cases s with
    | putchar c => exact (vgaPutchar_color _ c).trans ih
    | clear => exact ih
    | setColor fg bg => rfl
    | scroll => exact ih
    | setCursor row col =>
      change (vgaSetCursor _ row col).color = _
      rw [vgaSetCursor]
      split <;> exact ih

/-! ## Runs -/

/-- The terminal in all this is the one that the operations work on. -/
theorem marked_term (buffer : ℕ → UInt16) (ops : List Op) :
    (marked buffer (ops.flatMap opSteps)).term = ops.foldl Op.onScreen (atBoot buffer).term := by
  have hsteps (steps : List Step) (m : Marked) :
      (steps.foldl Marked.step m).term = steps.foldl Step.onTerm m.term := by
    induction steps generalizing m with
    | nil => rfl
    | cons s steps ih => exact ih _
  rw [marked, hsteps, List.foldl_flatMap]
  exact congrArg (fun f ↦ ops.foldl f _) (funext₂ onTerm_opSteps)

/-- **The notes are right in every state of a run.** -/
theorem holds_marked {Q : Stamp → Prop} (hblank : ∀ color, Q ⟨space, color⟩)
    (buffer : ℕ → UInt16) (steps : List Step)
    (hput : ∀ pre c, pre ++ [.putchar c] <+: steps → Q ⟨c, colorAfter pre⟩) :
    Holds Q (marked buffer steps).term.buffer (marked buffer steps).notes := by
  induction steps using List.reverseRecOn with
  | nil => exact fun _ _ hs ↦ nomatch hs
  | append_singleton steps s ih =>
    rw [marked_concat]
    refine (ih fun pre c hpre ↦ hput pre c (hpre.trans (List.prefix_append ..))).step hblank ?_
    rintro c rfl
    rw [marked_color]
    exact hput steps c List.prefix_rfl

/-- A character that is written is noted, also if the screen scrolls over it. -/
theorem exists_note {t : Term} (h : InGrid (cursorOf t)) (n : Notes) {c : UInt8}
    (hc : ¬IsControl c) : ∃ i < 2000, n.putchar t c i = some ⟨c, t.color⟩ := by
  have hrow : t.row < 25 := h.row
  have hcol : t.col < 80 := h.col
  rw [Notes.putchar_of_not_isControl t n hc]
  dsimp only
  by_cases hscroll : t.col + 1 = 80 ∧ t.row + 1 = 25
  · refine ⟨1919, by decide, ?_⟩
    rw [if_pos hscroll.1, Notes.nextRow, if_pos hscroll.2, Notes.scroll, if_pos (by decide),
      show 1919 + 80 = t.row * 80 + t.col by omega, Function.update_self]
  · refine ⟨t.row * 80 + t.col, by omega, ?_⟩
    split
    · rw [Notes.nextRow, if_neg (by omega), Function.update_self]
    · rw [Function.update_self]

/-- **The screen is as noted throughout a run exactly when no byte from `0x80` on is written but
white on white.**  It is the screen that the operations leave. -/
theorem faithful_iff_whiteOnWhite (buffer : ℕ → UInt16) (ops : List Op) :
    (marked buffer (ops.flatMap opSteps)).term = ops.foldl Op.onScreen (atBoot buffer).term ∧
      ((∀ pre, pre <+: ops.flatMap opSteps → Faithful (marked buffer pre)) ↔
        WhiteOnWhite (ops.flatMap opSteps)) := by
  refine ⟨marked_term buffer ops, ?_⟩
  constructor
  · intro h pre c hpre hc
    have hctl : ¬IsControl c := by
      rintro (rfl | rfl | rfl | rfl) <;> exact absurd hc (by decide)
    have hfaithful := h _ hpre
    obtain ⟨i, hi, hnote⟩ :=
      exists_note (inGrid_marked buffer pre) (marked buffer pre).notes hctl
    have hholds := holds_marked (Q := fun _ ↦ True) (fun _ ↦ trivial) buffer
      (pre ++ [.putchar c]) fun _ _ _ ↦ trivial
    rw [marked_concat] at hfaithful hholds
    have hhigh := (hfaithful i hi _ hnote).2
    rw [(hholds i _ hnote).1, high_vgaEntry, if_neg (UInt8.not_lt.mpr hc)] at hhigh
    rw [← marked_color buffer]
    exact hhigh.symm
  · intro h pre hpre i _ s hs
    have hholds := holds_marked (Q := fun s ↦ s.char < 0x80 ∨ s.color = 0xFF)
      (fun _ ↦ Or.inl (show space < 0x80 by decide)) buffer pre fun pre' c hpre' ↦ by
        by_cases hc : c < 0x80
        · exact Or.inl hc
        · exact Or.inr (h pre' c (hpre'.trans hpre) (UInt8.not_lt.mp hc))
    obtain ⟨hcell, hplain⟩ := hholds i s hs
    rw [hcell, toUInt8_vgaEntry, high_vgaEntry]
    refine ⟨rfl, ?_⟩
    split
    · rfl
    · exact (hplain.resolve_left ‹_›).symm

/-- The two bytes of an `ê`, in white on black: both cells come out white on white. -/
theorem accent_changes_color : ¬∀ (buffer : ℕ → UInt16) (ops : List Op) (pre : List Step),
    pre <+: ops.flatMap opSteps → Faithful (marked buffer pre) := by
  intro h
  have hcell := (h (fun _ ↦ 0) [.write [0xC3, 0xAA]] _ List.prefix_rfl 0 (by decide)
    ⟨0xC3, 0x0F⟩ rfl).2
  revert hcell
  decide

end Aetherion.Vga
