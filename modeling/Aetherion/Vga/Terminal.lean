import Aetherion.Base.Loop

/-!
# The VGA text terminal

`kernel/vga.c`: an 80 by 25 grid of character cells in memory, a cursor, and the colour in force.
A cell is a 16-bit word, the character in its low byte and the colour in its high one.

The grid is a function from indices to cells rather than an array of 2000 of them: an index
outside the grid is then an index like any other, and a write there would be seen.  `size_t`
counters are natural numbers; nothing here comes near their bound.
-/

set_option autoImplicit false

namespace Aetherion.Vga

/-- `vga_color_t`. -/
inductive VgaColor where
  | black | blue | green | cyan | red | magenta | brown | lightGrey
  | darkGrey | lightBlue | lightGreen | lightCyan | lightRed | lightMagenta | yellow | white
  deriving DecidableEq, Repr

/-- The value of an enumerator. -/
def VgaColor.code : VgaColor → UInt8
  | .black => 0 | .blue => 1 | .green => 2 | .cyan => 3
  | .red => 4 | .magenta => 5 | .brown => 6 | .lightGrey => 7
  | .darkGrey => 8 | .lightBlue => 9 | .lightGreen => 10 | .lightCyan => 11
  | .lightRed => 12 | .lightMagenta => 13 | .yellow => 14 | .white => 15

/-- `VGA_WIDTH`. -/
abbrev vgaWidth : ℕ := 80

/-- `VGA_HEIGHT`. -/
abbrev vgaHeight : ℕ := 25

/-- The static state of `vga.c`. -/
structure Term where
  /-- `term_row`. -/
  row : ℕ
  /-- `term_col`. -/
  col : ℕ
  /-- `term_color`. -/
  color : UInt8
  /-- What `term_buffer` points to. -/
  buffer : ℕ → UInt16

def vgaEntryColor (fg bg : VgaColor) : UInt8 := fg.code ||| (bg.code <<< 4)

/-- A cell.  `char` is signed, so the cast of a byte from `0x80` on to `u16` sets the high byte. -/
def vgaEntry (c : UInt8) (color : UInt8) : UInt16 :=
  c.toInt8.toInt16.toUInt16 ||| (color.toUInt16 <<< 8)

/-- The byte of `' '`. -/
abbrev space : UInt8 := 32

def vgaSetColor (t : Term) (fg bg : VgaColor) : Term := { t with color := vgaEntryColor fg bg }

def vgaClear (t : Term) : Term :=
  { t with
    row := 0
    col := 0
    buffer := Loop.forRange (fun y b ↦
      Loop.forRange (fun x b ↦ Function.update b (y * vgaWidth + x) (vgaEntry space t.color))
        vgaWidth 0 b) vgaHeight 0 t.buffer }

def vgaInit (t : Term) : Term := vgaClear (vgaSetColor t .lightGrey .black)

def vgaScroll (t : Term) : Term :=
  let moved := Loop.forRange (fun y b ↦
    Loop.forRange (fun x b ↦ Function.update b ((y - 1) * vgaWidth + x) (b (y * vgaWidth + x)))
      vgaWidth 0 b) (vgaHeight - 1) 1 t.buffer
  let blanked := Loop.forRange (fun x b ↦
    Function.update b ((vgaHeight - 1) * vgaWidth + x) (vgaEntry space t.color)) vgaWidth 0 moved
  { t with row := vgaHeight - 1, buffer := blanked }

/-- `if (++term_row == VGA_HEIGHT) vga_scroll();` -/
def nextRow (t : Term) : Term :=
  let t := { t with row := t.row + 1 }
  if t.row = vgaHeight then vgaScroll t else t

/-- `term_buffer[term_row * VGA_WIDTH + term_col] = cell;` -/
def putCell (t : Term) (cell : UInt16) : Term :=
  { t with buffer := Function.update t.buffer (t.row * vgaWidth + t.col) cell }

def vgaPutchar (t : Term) (c : UInt8) : Term :=
  if c = 10 then  -- `'\n'`
    nextRow { t with col := 0 }
  else if c = 13 then  -- `'\r'`
    { t with col := 0 }
  else if c = 9 then  -- `'\t'`, and `& ~3` rounds down to a multiple of four
    let t := { t with col := (t.col + 4) / 4 * 4 }
    if t.col ≥ vgaWidth then nextRow { t with col := 0 } else t
  else if c = 8 then  -- `'\b'`
    if t.col > 0 then
      let t := { t with col := t.col - 1 }
      putCell t (vgaEntry space t.color)
    else t
  else
    let t := putCell t (vgaEntry c t.color)
    let t := { t with col := t.col + 1 }
    if t.col = vgaWidth then nextRow { t with col := 0 } else t

def vgaWrite (t : Term) (str : List UInt8) : Term := str.foldl vgaPutchar t

/-- The formatted text, through a buffer of 256 bytes. -/
def vgaPrintf (t : Term) (text : List UInt8) : Term := vgaWrite t (text.take 255)

def vgaScrollUp (t : Term) (lines : Int32) : Term :=
  Loop.forRange (fun _ ↦ vgaScroll) lines.toInt.toNat 0 t

def vgaSetCursor (t : Term) (row col : ℕ) : Term :=
  if row < vgaHeight ∧ col < vgaWidth then { t with row := row, col := col } else t

/-! ## The bytes of a cell -/

/-- The low byte of a cell is its character. -/
theorem toUInt8_vgaEntry (c color : UInt8) : (vgaEntry c color).toUInt8 = c := by
  apply UInt8.toBitVec_inj.mp
  simp only [vgaEntry, UInt16.toBitVec_toUInt8, UInt16.toBitVec_or, UInt16.toBitVec_shiftLeft]
  ext i hi
  have hcolor : (color.toUInt16.toBitVec <<< (UInt16.toBitVec 8 % 16)).getLsbD i = false := by
    simp [hi]
  rw [BitVec.getElem_setWidth, BitVec.getLsbD_or, hcolor, Bool.or_false]
  show (BitVec.signExtend 16 c.toBitVec).getLsbD i = _
  rw [BitVec.getLsbD_signExtend]
  simp [hi, show i < 16 by omega]

/-- The high byte is the colour, unless the character brings its sign with it. -/
theorem high_vgaEntry (c color : UInt8) :
    (vgaEntry c color >>> 8).toUInt8 = if c < 0x80 then color else 0xFF := by
  have hmsb : c.toBitVec.msb = !decide (c < 0x80) := by
    rw [BitVec.msb_eq_decide, ← decide_not]
    congr 1
    rw [UInt8.not_lt, UInt8.le_iff_toNat_le]
    rfl
  apply UInt8.toBitVec_inj.mp
  simp only [vgaEntry, UInt16.toBitVec_toUInt8, UInt16.toBitVec_or, UInt16.toBitVec_shiftRight,
    UInt16.toBitVec_shiftLeft]
  ext i hi
  have hsign : (BitVec.signExtend 16 c.toBitVec).getLsbD (8 + i) = c.toBitVec.msb := by
    rw [BitVec.getLsbD_signExtend]
    simp [show 8 + i < 16 by omega]
  have hcolor : (color.toUInt16.toBitVec <<< (UInt16.toBitVec 8 % 16)).getLsbD (8 + i) =
      color.toBitVec[i] := by
    simp [hi, show 8 + i < 16 by omega]
  have hshift (b : BitVec 16) : (b >>> (UInt16.toBitVec 8 % 16)).getLsbD i = b.getLsbD (8 + i) :=
    BitVec.getLsbD_ushiftRight b 8 i
  rw [BitVec.getElem_setWidth, hshift, BitVec.getLsbD_or, hcolor]
  change ((BitVec.signExtend 16 c.toBitVec).getLsbD (8 + i) || _) = _
  rw [hsign, hmsb]
  split
  · rename_i hc
    simp [hc]
  · rename_i hc
    simp only [hc, decide_false, Bool.not_false, Bool.true_or]
    exact (BitVec.getElem_allOnes i hi).symm

/-! ## What the loops do -/

/-- The copying loop of `vgaScroll` moves every row up by one. -/
theorem scroll_moved (buf : ℕ → UInt16) (j : ℕ) :
    Loop.forRange (fun y b ↦
      Loop.forRange (fun x b ↦ Function.update b ((y - 1) * vgaWidth + x) (b (y * vgaWidth + x)))
        vgaWidth 0 b) (vgaHeight - 1) 1 buf j = if j < 1920 then buf (j + 80) else buf j := by
  have h := Loop.forRange_inv (f := fun y b ↦
      Loop.forRange (fun x b ↦ Function.update b ((y - 1) * vgaWidth + x) (b (y * vgaWidth + x)))
        vgaWidth 0 b) (s := buf)
    (fun y b ↦ ∀ j, b j = if j < (y - 1) * 80 then buf (j + 80) else buf j) (vgaHeight - 1) 1 ?_
    (fun j ↦ by simp)
  · simpa using h j
  · intro y b hlo _ hb j
    have hrow : ∀ x, y * vgaWidth + x = (y - 1) * vgaWidth + vgaWidth + x := by
      intro x; simp only [vgaWidth]; omega
    simp only [hrow]
    rw [Loop.forRange_moveDown _ _ _ (by decide), hb, hb]
    simp only [vgaWidth, Nat.add_sub_cancel]
    split_ifs <;> first | rfl | omega

/-- **Scrolling**: every row moves up by one, the last one is blank, nothing else changes. -/
theorem vgaScroll_buffer (t : Term) (j : ℕ) :
    (vgaScroll t).buffer j =
      if j < 1920 then t.buffer (j + 80)
      else if j < 2000 then vgaEntry space t.color else t.buffer j := by
  simp only [vgaScroll]
  rw [Loop.forRange_fill, scroll_moved]
  simp only [vgaWidth, vgaHeight]
  split_ifs <;> first | rfl | omega

@[simp] theorem vgaScroll_row (t : Term) : (vgaScroll t).row = 24 := rfl

@[simp] theorem vgaScroll_col (t : Term) : (vgaScroll t).col = t.col := rfl

@[simp] theorem vgaScroll_color (t : Term) : (vgaScroll t).color = t.color := rfl

/-- **Clearing**: every cell of the grid is blank. -/
theorem vgaClear_buffer (t : Term) (j : ℕ) :
    (vgaClear t).buffer j = if j < 2000 then vgaEntry space t.color else t.buffer j := by
  have h := Loop.forRange_inv (f := fun y b ↦
      Loop.forRange (fun x b ↦ Function.update b (y * vgaWidth + x) (vgaEntry space t.color))
        vgaWidth 0 b) (s := t.buffer)
    (fun y b ↦ ∀ j, b j = if j < y * 80 then vgaEntry space t.color else t.buffer j) vgaHeight 0 ?_
    (fun j ↦ by simp)
  · simpa [vgaClear, vgaHeight] using h j
  · intro y b _ _ hb j
    rw [Loop.forRange_fill, hb]
    simp only [vgaWidth]
    split_ifs <;> first | rfl | omega

/-! ## What one character does -/

/-- The characters that are not just written into the next cell. -/
def IsControl (c : UInt8) : Prop := c = 10 ∨ c = 13 ∨ c = 9 ∨ c = 8

instance : DecidablePred IsControl := fun c ↦ inferInstanceAs (Decidable (c = 10 ∨ _))

theorem vgaPutchar_tab (t : Term) :
    vgaPutchar t 9 = if (t.col + 4) / 4 * 4 ≥ 80 then nextRow { t with col := 0 }
      else { t with col := (t.col + 4) / 4 * 4 } := rfl

theorem vgaPutchar_backspace (t : Term) :
    vgaPutchar t 8 =
      if t.col > 0 then putCell { t with col := t.col - 1 } (vgaEntry space t.color) else t := rfl

theorem vgaPutchar_of_not_isControl (t : Term) {c : UInt8} (hc : ¬IsControl c) :
    vgaPutchar t c =
      if t.col + 1 = 80 then nextRow { putCell t (vgaEntry c t.color) with col := 0 }
      else { putCell t (vgaEntry c t.color) with col := t.col + 1 } := by
  simp only [IsControl, not_or] at hc
  unfold vgaPutchar
  rw [if_neg hc.1, if_neg hc.2.1, if_neg hc.2.2.1, if_neg hc.2.2.2]
  rfl

/-! ## The column -/

@[simp] theorem nextRow_col (t : Term) : (nextRow t).col = t.col := by
  rw [nextRow]
  split <;> rfl

@[simp] theorem vgaPutchar_newline_col (t : Term) : (vgaPutchar t 10).col = 0 := nextRow_col _

theorem vgaWrite_append (t : Term) (s₁ s₂ : List UInt8) :
    vgaWrite t (s₁ ++ s₂) = vgaWrite (vgaWrite t s₁) s₂ := List.foldl_append ..

/-- A text that ends with a newline leaves the cursor at the left margin. -/
theorem vgaWrite_col_of_newline (t : Term) {str : List UInt8} (hend : str.getLast? = some 10) :
    (vgaWrite t str).col = 0 := by
  obtain ⟨text, rfl⟩ := List.getLast?_eq_some_iff.mp hend
  rw [vgaWrite_append]
  exact vgaPutchar_newline_col _

/-- Characters that are just written move the cursor on. -/
theorem vgaWrite_col (t : Term) {str : List UInt8} (hcol : t.col < 80)
    (hstr : ∀ c ∈ str, ¬IsControl c) : (vgaWrite t str).col = (t.col + str.length) % 80 := by
  induction str generalizing t with
  | nil => exact (Nat.mod_eq_of_lt hcol).symm
  | cons c str ih =>
    have hputchar : (vgaPutchar t c).col = (t.col + 1) % 80 := by
      rw [vgaPutchar_of_not_isControl t (hstr c (by simp))]
      split
      · rw [nextRow_col]
        change 0 = _
        omega
      · change t.col + 1 = _
        omega
    change (vgaWrite (vgaPutchar t c) str).col = _
    rw [ih _ (by omega) fun d hd ↦ hstr d (List.mem_cons_of_mem _ hd), hputchar, List.length_cons]
    omega

end Aetherion.Vga
