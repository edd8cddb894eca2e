import Mathlib.Data.List.Basic
import Aetherion.Vga.Terminal

/-!
# The terminal as a window on an endless page

The screen is 25 rows high and scrolls.  What it is *for* is easier to say without that limit: a
page of unboundedly many rows, on which nothing ever moves, and of which the screen shows the 25
rows ending at the cursor.

`Page` is that terminal.  It has the same character rules as `vgaPutchar`, except that going down a
line never scrolls: a row that the screen would have had to scroll to, which is any row from the
25th on, is blanked in the colour in force when the cursor enters it.  The cursor never moves up,
so it enters each row once.

`Shows t p` says that the screen `t` is the window on `p` that starts at row `p.row - 24` (so at
row `0` until the cursor leaves the first screenful).  It is kept by every character and every
change of colour (`Shows.putchar`, `Shows.setColor`), and hence by every run (`Shows.run`).
-/

set_option autoImplicit false

namespace Aetherion.Vga

/-- A terminal of unbounded height. -/
structure Page where
  /-- The row of the cursor, counted from the top of the page. -/
  row : ℕ
  /-- The column of the cursor. -/
  col : ℕ
  /-- The colour in force. -/
  color : UInt8
  /-- The cell in a row and a column. -/
  cell : ℕ → ℕ → UInt16

namespace Page

/-- A blank page: the first screenful is blank in `color`.  (What the later rows hold does not
matter, since they are blanked on entry.) -/
def blank (color : UInt8) : Page where
  row := 0
  col := 0
  color := color
  cell := fun _ _ ↦ vgaEntry space color

/-- Go down a line. -/
def nextRow (p : Page) : Page :=
  { p with
    row := p.row + 1
    cell := if p.row + 1 < 25 then p.cell
      else Function.update p.cell (p.row + 1) fun _ ↦ vgaEntry space p.color }

/-- Put a cell at the cursor. -/
def putCell (p : Page) (v : UInt16) : Page :=
  { p with cell := Function.update p.cell p.row (Function.update (p.cell p.row) p.col v) }

/-- The character rules of the terminal, without the scrolling. -/
def putchar (p : Page) (c : UInt8) : Page :=
  if c = 10 then nextRow { p with col := 0 }
  else if c = 13 then { p with col := 0 }
  else if c = 9 then
    if (p.col + 4) / 4 * 4 ≥ 80 then nextRow { p with col := 0 }
    else { p with col := (p.col + 4) / 4 * 4 }
  else if c = 8 then
    if p.col > 0 then putCell { p with col := p.col - 1 } (vgaEntry space p.color) else p
  else if p.col + 1 = 80 then nextRow { putCell p (vgaEntry c p.color) with col := 0 }
  else { putCell p (vgaEntry c p.color) with col := p.col + 1 }

theorem putchar_tab (p : Page) :
    p.putchar 9 = if (p.col + 4) / 4 * 4 ≥ 80 then nextRow { p with col := 0 }
      else { p with col := (p.col + 4) / 4 * 4 } := rfl

theorem putchar_backspace (p : Page) :
    p.putchar 8 =
      if p.col > 0 then putCell { p with col := p.col - 1 } (vgaEntry space p.color) else p := rfl

theorem putchar_of_not_isControl (p : Page) {c : UInt8} (hc : ¬IsControl c) :
    p.putchar c =
      if p.col + 1 = 80 then nextRow { putCell p (vgaEntry c p.color) with col := 0 }
      else { putCell p (vgaEntry c p.color) with col := p.col + 1 } := by
  simp only [IsControl, not_or] at hc
  rw [putchar, if_neg hc.1, if_neg hc.2.1, if_neg hc.2.2.1, if_neg hc.2.2.2]

/-- `vga_set_color`. -/
def setColor (p : Page) (fg bg : VgaColor) : Page := { p with color := vgaEntryColor fg bg }

end Page

/-! ## The window -/

/-- The screen `t` is the window on the page `p` that ends at the cursor, or the first screenful
if the cursor is still in it. -/
structure Shows (t : Term) (p : Page) : Prop where
  /-- The cursor of the screen is in the row of the window the cursor of the page is in. -/
  row : t.row = min p.row 24
  col : t.col = p.col
  col_lt : p.col < 80
  color : t.color = p.color
  /-- Cell by cell. -/
  cell : ∀ y < 25, ∀ x < 80, t.buffer (y * 80 + x) = p.cell (p.row - 24 + y) x

/-- Every screen with its cursor inside shows a page: the one that starts where it does. -/
theorem shows_of_cursor {t : Term} (hrow : t.row < 25) (hcol : t.col < 80) :
    Shows t ⟨t.row, t.col, t.color, fun y x ↦ t.buffer (y * 80 + x)⟩ where
  row := (Nat.min_eq_left (by omega)).symm
  col := rfl
  col_lt := hcol
  color := rfl
  cell := fun y _ x _ ↦ by rw [Nat.sub_eq_zero_of_le (Nat.le_of_lt_succ hrow), Nat.zero_add]

variable {t : Term} {p : Page}

theorem Shows.setCol (h : Shows t p) {c : ℕ} (hc : c < 80) :
    Shows { t with col := c } { p with col := c } :=
  ⟨h.row, rfl, hc, h.color, h.cell⟩

theorem Shows.setColor (h : Shows t p) (fg bg : VgaColor) :
    Shows (vgaSetColor t fg bg) (p.setColor fg bg) :=
  ⟨h.row, h.col, h.col_lt, rfl, h.cell⟩

theorem Shows.putCell (h : Shows t p) (v : UInt16) : Shows (putCell t v) (p.putCell v) where
  row := h.row
  col := h.col
  col_lt := h.col_lt
  color := h.color
  cell := fun y hy x hx ↦ by
    have hlt := h.col_lt
    have hrow := h.row
    have hcol := h.col
    simp only [Vga.putCell, Page.putCell, vgaWidth]
    rw [Function.update_apply, Function.update_apply, h.cell y hy x hx]
    -- a cell of the window is the one at the cursor exactly when its row and column are
    by_cases hyr : p.row - 24 + y = p.row
    · rw [if_pos hyr, Function.update_apply, hyr]
      by_cases hxc : x = p.col
      · rw [if_pos hxc, if_pos (by omega)]
      · rw [if_neg hxc, if_neg (by omega)]
    · rw [if_neg hyr, if_neg (by omega)]

/-- **Going down a line**: either both cursors are still in the first screenful, or the screen
scrolls, which moves the window down by one row onto the one just blanked. -/
theorem Shows.nextRow (h : Shows t p) : Shows (Vga.nextRow t) p.nextRow := by
  obtain ⟨hrow, hcol, hlt, hcolor, hcell⟩ := h
  by_cases hp : p.row + 1 < 25
  · have ht : Vga.nextRow t = { t with row := t.row + 1 } :=
      if_neg (show t.row + 1 ≠ 25 by omega)
    rw [ht]
    refine ⟨?_, hcol, hlt, hcolor, ?_⟩
    · simp only [Page.nextRow]; omega
    · intro y hy x hx
      simp only [Page.nextRow]
      rw [if_pos hp, hcell y hy x hx]
      congr 1; omega
  · have ht : Vga.nextRow t = vgaScroll { t with row := t.row + 1 } :=
      if_pos (show t.row + 1 = 25 by omega)
    rw [ht]
    refine ⟨?_, hcol, hlt, hcolor, ?_⟩
    · simp only [Page.nextRow, vgaScroll_row]; omega
    · intro y hy x hx
      simp only [Page.nextRow]
      rw [if_neg hp, vgaScroll_buffer, Function.update_apply]
      rcases Nat.lt_or_ge y 24 with hy24 | hy24
      · have hup : y * 80 + x + 80 = (y + 1) * 80 + x := by omega
        rw [if_pos (by omega), if_neg (by omega), hup, hcell (y + 1) (by omega) x hx]
        congr 1; omega
      · rw [if_neg (by omega), if_pos (by omega), if_pos (by omega), hcolor]

/-- **One character.** -/
theorem Shows.putchar (h : Shows t p) (c : UInt8) : Shows (vgaPutchar t c) (p.putchar c) := by
  have hcol := h.col
  have hlt := h.col_lt
  by_cases hc : IsControl c
  · rcases hc with rfl | rfl | rfl | rfl
    · exact (h.setCol (c := 0) (by omega)).nextRow
    · exact h.setCol (by omega)
    · rw [vgaPutchar_tab, Page.putchar_tab, hcol]
      split
      · exact (h.setCol (c := 0) (by omega)).nextRow
      · exact h.setCol (by omega)
    · have hblank : vgaEntry space t.color = vgaEntry space p.color := by rw [h.color]
      rw [vgaPutchar_backspace, Page.putchar_backspace, hcol, hblank]
      split
      · exact (h.setCol (c := p.col - 1) (by omega)).putCell _
      · exact h
  · have hput := h.putCell (vgaEntry c p.color)
    rw [vgaPutchar_of_not_isControl t hc, p.putchar_of_not_isControl hc, hcol, h.color]
    split
    · exact (hput.setCol (c := 0) (by omega)).nextRow
    · exact hput.setCol (by omega)

/-- **A string.** -/
theorem Shows.write (h : Shows t p) (str : List UInt8) :
    Shows (vgaWrite t str) (str.foldl Page.putchar p) :=
  List.foldl_rel h fun c _ _ _ h ↦ h.putchar c

/-! ## The page as one line of cells

Row-major order on the page is not disturbed by scrolling, so text that runs over several rows is
a stretch of consecutive cells there. -/

namespace Page

/-- Where the cursor is in row-major order. -/
def pos (p : Page) : ℕ := p.row * 80 + p.col

/-- The cell at a position in row-major order. -/
def cellAt (p : Page) (q : ℕ) : UInt16 := p.cell (q / 80) (q % 80)

theorem pos_nextRow (p : Page) : ({ p with col := 0 } : Page).nextRow.pos = (p.row + 1) * 80 := rfl

/-- Going down a line changes no cell before the new row. -/
theorem cellAt_nextRow (p : Page) {q : ℕ} (hq : q < (p.row + 1) * 80) :
    p.nextRow.cellAt q = p.cellAt q := by
  simp only [cellAt, nextRow]
  split
  · rfl
  · rw [Function.update_of_ne (by omega)]

theorem cellAt_putCell (p : Page) (hcol : p.col < 80) (v : UInt16) (q : ℕ) :
    (p.putCell v).cellAt q = if q = p.pos then v else p.cellAt q := by
  have hpos : p.pos = p.row * 80 + p.col := rfl
  simp only [cellAt, putCell]
  by_cases hrow : q / 80 = p.row
  · rw [hrow, Function.update_self, Function.update_apply]
    by_cases hq : q % 80 = p.col
    · rw [if_pos hq, if_pos (by omega)]
    · rw [if_neg hq, if_neg (by omega)]
  · rw [Function.update_of_ne hrow, if_neg (by omega)]

/-- **A printable character** goes into the cell at the cursor, and the cursor moves on by one
cell, over the end of the row if need be. -/
theorem pos_putchar (p : Page) {c : UInt8} (hc : ¬IsControl c) :
    (p.putchar c).pos = p.pos + 1 := by
  rw [putchar_of_not_isControl p hc]
  split
  · rw [pos_nextRow, pos]; simp only [putCell]; omega
  · simp only [pos, putCell]; omega

theorem cellAt_putchar (p : Page) (hcol : p.col < 80) {c : UInt8} (hc : ¬IsControl c) {q : ℕ}
    (hq : q ≤ p.pos) :
    (p.putchar c).cellAt q = if q = p.pos then vgaEntry c p.color else p.cellAt q := by
  rw [putchar_of_not_isControl p hc, ← cellAt_putCell p hcol]
  split
  · rw [cellAt_nextRow]
    · rfl
    · simp only [pos, putCell] at *; omega
  · rfl

theorem pos_write (p : Page) {str : List UInt8} (hstr : ∀ c ∈ str, ¬IsControl c) :
    (str.foldl putchar p).pos = p.pos + str.length := by
  induction str generalizing p with
  | nil => rfl
  | cons c str ih =>
    rw [List.foldl_cons, ih _ fun d hd ↦ hstr d (by simp [hd]), p.pos_putchar (hstr c (by simp)),
      List.length_cons]
    omega

/-- **A backspace** inside a row moves the cursor back by one cell and blanks it. -/
theorem pos_backspace (p : Page) (hcol : 0 < p.col) : (p.putchar 8).pos + 1 = p.pos := by
  rw [putchar_backspace, if_pos hcol]; simp only [pos, putCell]; omega

theorem cellAt_backspace (p : Page) (hcol : 0 < p.col) (hlt : p.col < 80) {q : ℕ}
    (hq : q + 1 < p.pos) : (p.putchar 8).cellAt q = p.cellAt q := by
  rw [putchar_backspace, if_pos hcol, cellAt_putCell _ (by simp only; omega), if_neg]
  · rfl
  · simp only [pos] at *; omega

end Page

/-- **Where a cell of the page is on the screen**: `80` cells lower for every row that has
scrolled away. -/
theorem Shows.buffer_eq (h : Shows t p) {q : ℕ} (hq : q < 2000) :
    t.buffer q = p.cellAt ((p.row - 24) * 80 + q) := by
  have hc := h.cell (q / 80) (by omega) (q % 80) (by omega)
  rw [show q / 80 * 80 + q % 80 = q by omega] at hc
  rw [hc, Page.cellAt]
  congr 1 <;> omega

/-! ## Runs -/

/-- What a program does to the terminal after `vga_init`. -/
inductive TermOp where
  /-- `vga_putchar`. -/
  | putchar (c : UInt8)
  /-- `vga_set_color`. -/
  | setColor (fg bg : VgaColor)

/-- An operation on the screen. -/
def TermOp.onTerm (t : Term) : TermOp → Term
  | .putchar c => vgaPutchar t c
  | .setColor fg bg => vgaSetColor t fg bg

/-- The same operation on the page. -/
def TermOp.onPage (p : Page) : TermOp → Page
  | .putchar c => p.putchar c
  | .setColor fg bg => p.setColor fg bg

theorem Shows.op (h : Shows t p) (op : TermOp) : Shows (op.onTerm t) (op.onPage p) := by
  cases op with
  | putchar c => exact h.putchar c
  | setColor fg bg => exact h.setColor fg bg

/-- **The screen stays a window on the page through every run.** -/
theorem Shows.run (h : Shows t p) (ops : List TermOp) :
    Shows (ops.foldl TermOp.onTerm t) (ops.foldl TermOp.onPage p) :=
  List.foldl_rel h fun op _ _ _ h ↦ h.op op

/-- The colour `vga_init` sets. -/
def initColor : UInt8 := vgaEntryColor .lightGrey .black

theorem shows_vgaInit (t : Term) : Shows (vgaInit t) (Page.blank initColor) where
  row := rfl
  col := rfl
  col_lt := by decide
  color := rfl
  cell := fun y hy x hx ↦ by
    rw [vgaInit, vgaClear_buffer, if_pos (by omega)]
    rfl

/-- **The 25 by 80 terminal refines the unbounded one.**  After any sequence of characters and
colour changes from `vga_init` on, the cursor and every cell of the screen are those of the 25 rows
of the page that start at row `max 0 (r - 24)`, where `r` is the row of the page's cursor. -/
theorem term_refines_page (t₀ : Term) (ops : List TermOp) :
    let t := ops.foldl TermOp.onTerm (vgaInit t₀)
    let p := ops.foldl TermOp.onPage (Page.blank initColor)
    t.row + (p.row - 24) = p.row ∧ t.col = p.col ∧ t.color = p.color ∧
      ∀ y < 25, ∀ x < 80, t.buffer (y * 80 + x) = p.cell (p.row - 24 + y) x := by
  intro t p
  have h : Shows t p := (shows_vgaInit t₀).run ops
  exact ⟨by have := h.row; omega, h.col, h.color, h.cell⟩

end Aetherion.Vga
