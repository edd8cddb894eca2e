import Aetherion.Base.Loop
import Aetherion.Base.Peripheral
import Aetherion.Vga.Terminal

/-!
# Every access to video memory

Here the terminal is a program whose exchanges are its reads and writes of `term_buffer`, each with
its index, so a trace says where it has been.  The memory may answer what it likes.

The row is tested for equality with 25, so nothing but the invariant `InGrid` keeps it from running
on: every operation starts with the cursor in the grid and leaves it there, and touches no index
from 2000 on (`stays_in_grid`).

Run against a memory that keeps what is written to it, each operation does to cursor and cells what
its namesake of `Aetherion.Vga.Terminal` does (`runs_exec`).
-/

set_option autoImplicit false

namespace Aetherion.Vga.Video

open Driver Driver.Prog

/-! ## The operations -/

/-- Cells are written, and read by their index. -/
abbrev vram : Driver.Iface := ⟨ℕ × UInt16, ℕ, fun _ ↦ UInt16⟩

/-- The static state of `vga.c`, but for the cells. -/
structure Cursor where
  /-- `term_row`. -/
  row : ℕ
  /-- `term_col`. -/
  col : ℕ
  /-- `term_color`. -/
  color : UInt8

/-- `term_buffer[i] = cell`. -/
def poke (i : ℕ) (cell : UInt16) : Prog vram Unit := emit (F := vram) (i, cell)

/-- `term_buffer[i]`. -/
def peek (i : ℕ) : Prog vram UInt16 := ask (F := vram) i

def vgaSetColor (s : Cursor) (fg bg : VgaColor) : Cursor := { s with color := vgaEntryColor fg bg }

def vgaClear (s : Cursor) : Prog vram Cursor := do
  forEach (fun y (_ : Unit) ↦ forEach (fun x (_ : Unit) ↦
    poke (y * vgaWidth + x) (vgaEntry space s.color)) vgaWidth 0 ()) vgaHeight 0 ()
  pure { s with row := 0, col := 0 }

def vgaInit (s : Cursor) : Prog vram Cursor := vgaClear (vgaSetColor s .lightGrey .black)

def vgaScroll (s : Cursor) : Prog vram Cursor := do
  forEach (fun y (_ : Unit) ↦ forEach (fun x (_ : Unit) ↦ do
    let cell ← peek (y * vgaWidth + x)
    poke ((y - 1) * vgaWidth + x) cell) vgaWidth 0 ()) (vgaHeight - 1) 1 ()
  forEach (fun x (_ : Unit) ↦ poke ((vgaHeight - 1) * vgaWidth + x) (vgaEntry space s.color))
    vgaWidth 0 ()
  pure { s with row := vgaHeight - 1 }

def vgaScrollUp (s : Cursor) (lines : Int32) : Prog vram Cursor :=
  forEach (fun _ ↦ vgaScroll) lines.toInt.toNat 0 s

/-- `if (++term_row == VGA_HEIGHT) vga_scroll();` -/
def nextRow (s : Cursor) : Prog vram Cursor :=
  let s := { s with row := s.row + 1 }
  if s.row = vgaHeight then vgaScroll s else pure s

def vgaPutchar (s : Cursor) (c : UInt8) : Prog vram Cursor :=
  if c = 10 then nextRow { s with col := 0 }
  else if c = 13 then pure { s with col := 0 }
  else if c = 9 then
    let s := { s with col := (s.col + 4) / 4 * 4 }
    if s.col ≥ vgaWidth then nextRow { s with col := 0 } else pure s
  else if c = 8 then
    if s.col > 0 then do
      let s := { s with col := s.col - 1 }
      poke (s.row * vgaWidth + s.col) (vgaEntry space s.color)
      pure s
    else pure s
  else do
    poke (s.row * vgaWidth + s.col) (vgaEntry c s.color)
    let s := { s with col := s.col + 1 }
    if s.col = vgaWidth then nextRow { s with col := 0 } else pure s

def vgaWrite (s : Cursor) : List UInt8 → Prog vram Cursor
  | [] => pure s
  | c :: str => do
    let s ← vgaPutchar s c
    vgaWrite s str

def vgaSetCursor (s : Cursor) (row col : ℕ) : Cursor :=
  if row < vgaHeight ∧ col < vgaWidth then { s with row := row, col := col } else s

/-- What can be asked of the terminal. -/
inductive Op where
  | putchar (c : UInt8)
  | write (str : List UInt8)
  | clear
  | setColor (fg bg : VgaColor)
  | scrollUp (lines : Int32)
  | setCursor (row col : ℕ)

def Op.exec (s : Cursor) : Op → Prog vram Cursor
  | .putchar c => vgaPutchar s c
  | .write str => vgaWrite s str
  | .clear => vgaClear s
  | .setColor fg bg => pure (vgaSetColor s fg bg)
  | .scrollUp lines => vgaScrollUp s lines
  | .setCursor row col => pure (vgaSetCursor s row col)

/-- One operation after the other. -/
def execAll (s : Cursor) : List Op → Prog vram Cursor
  | [] => pure s
  | op :: ops => do
    let s ← op.exec s
    execAll s ops

/-! ## The invariant -/

/-- The cursor is in the grid. -/
structure InGrid (s : Cursor) : Prop where
  row : s.row < vgaHeight
  col : s.col < vgaWidth

/-- The index of an access. -/
def index : Event vram → ℕ
  | .out o => o.1
  | .inp i _ => i

/-- The program touches no index outside the buffer, and leaves the cursor in the grid. -/
structure Bounded (p : Prog vram Cursor) : Prop where
  indices : Emits (fun e ↦ index e < vgaHeight * vgaWidth) p
  cursor : ∀ dev, Returns dev InGrid p

theorem bounded_pure {s : Cursor} (hs : InGrid s) : Bounded (pure s) :=
  ⟨emits_pure s, fun _ ↦ returns_pure hs⟩

theorem Bounded.bind {p : Prog vram Cursor} {f : Cursor → Prog vram Cursor} (hp : Bounded p)
    (hf : ∀ s, InGrid s → Bounded (f s)) : Bounded (p >>= f) where
  indices := by
    intro dev h e he
    rw [trace_bind, List.mem_append] at he
    exact he.elim (hp.indices dev h e) ((hf _ (hp.cursor dev h)).indices dev _ e)
  cursor dev := (hp.cursor dev).bind fun s hs ↦ (hf s hs).cursor dev

theorem emits_poke {i : ℕ} (hi : i < vgaHeight * vgaWidth) (cell : UInt16) :
    Emits (fun e ↦ index e < vgaHeight * vgaWidth) (poke i cell) := by
  intro dev h e he
  obtain rfl := List.mem_singleton.mp he
  exact hi

/-- The cell in a row and a column of the grid. -/
theorem cell_lt {y x : ℕ} (hy : y < vgaHeight) (hx : x < vgaWidth) :
    y * vgaWidth + x < vgaHeight * vgaWidth := by
  simp only [vgaHeight, vgaWidth] at *
  omega

/-- A write inside the buffer comes first. -/
theorem Bounded.poke_bind {i : ℕ} (hi : i < vgaHeight * vgaWidth) {cell : UInt16}
    {p : Prog vram Cursor} (hp : Bounded p) : Bounded (poke i cell >>= fun _ ↦ p) where
  indices := (emits_poke hi cell).bind fun _ ↦ hp.indices
  cursor dev := returns_then fun _ ↦ hp.cursor dev

/-! ## Every operation keeps to the grid -/

theorem bounded_vgaClear (s : Cursor) : Bounded (vgaClear s) where
  indices := by
    refine (emits_forEach_of_lt _ _ (fun y _ _ hy ↦ ?_) ()).bind fun _ ↦ emits_pure _
    exact emits_forEach_of_lt _ _
      (fun x _ _ hx ↦ emits_poke (cell_lt (by omega) (by omega)) _) ()
  cursor dev := returns_then fun _ ↦ returns_pure ⟨Nat.zero_lt_succ _, Nat.zero_lt_succ _⟩

/-- Scrolling needs nothing of the row: it sets it. -/
theorem bounded_vgaScroll {s : Cursor} (hs : s.col < vgaWidth) : Bounded (vgaScroll s) where
  indices := by
    refine (emits_forEach_of_lt _ _ (fun y _ hlo hy ↦ ?_) ()).bind fun _ ↦ ?_
    · refine emits_forEach_of_lt _ _ (fun x _ _ hx ↦ ?_) ()
      refine Emits.bind ?_ fun cell ↦ emits_poke (cell_lt (by omega) (by omega)) cell
      intro dev h e he
      obtain rfl := List.mem_singleton.mp he
      exact cell_lt (by omega) (by omega)
    · refine (emits_forEach_of_lt _ _ (fun x _ _ hx ↦ ?_) ()).bind fun _ ↦ emits_pure _
      exact emits_poke (cell_lt (by decide) (by omega)) _
  cursor dev := returns_then fun _ ↦ returns_then fun _ ↦ returns_pure ⟨Nat.lt_succ_self _, hs⟩

theorem bounded_nextRow {s : Cursor} (hs : InGrid s) : Bounded (nextRow s) := by
  have hrow := hs.row
  rw [nextRow]
  dsimp only
  split
  · exact bounded_vgaScroll hs.col
  · exact bounded_pure ⟨by change s.row + 1 < _; omega, hs.col⟩

theorem bounded_vgaPutchar {s : Cursor} (hs : InGrid s) (c : UInt8) :
    Bounded (vgaPutchar s c) := by
  have hrow := hs.row
  have hcol := hs.col
  have hstart : InGrid { s with col := 0 } := ⟨hs.row, Nat.zero_lt_succ _⟩
  rw [vgaPutchar]
  dsimp only
  split
  · exact bounded_nextRow hstart
  split
  · exact bounded_pure hstart
  split
  · split
    · exact bounded_nextRow hstart
    · exact bounded_pure ⟨hs.row, Nat.lt_of_not_ge ‹_›⟩
  split
  · split
    · exact .poke_bind (cell_lt hrow (by omega))
        (bounded_pure ⟨hs.row, by change s.col - 1 < _; omega⟩)
    · exact bounded_pure hs
  · refine .poke_bind (cell_lt hrow hcol) ?_
    split
    · exact bounded_nextRow hstart
    · exact bounded_pure ⟨hs.row, by change s.col + 1 < _; omega⟩

theorem bounded_vgaWrite {s : Cursor} (hs : InGrid s) (str : List UInt8) :
    Bounded (vgaWrite s str) := by
  induction str generalizing s with
  | nil => exact bounded_pure hs
  | cons c str ih => exact (bounded_vgaPutchar hs c).bind fun s' hs' ↦ ih hs'

theorem bounded_vgaScrollUp {s : Cursor} (hs : InGrid s) (lines : Int32) :
    Bounded (vgaScrollUp s lines) := by
  rw [vgaScrollUp]
  generalize lines.toInt.toNat = n
  have hloop (n lo : ℕ) {s : Cursor} (hs : InGrid s) :
      Bounded (forEach (fun _ ↦ vgaScroll) n lo s) := by
    induction n generalizing lo s with
    | zero => exact bounded_pure hs
    | succ n ih => exact (bounded_vgaScroll hs.col).bind fun s' hs' ↦ ih (lo + 1) hs'
  exact hloop n 0 hs

/-- **One operation.** -/
theorem Op.bounded_exec {s : Cursor} (hs : InGrid s) (op : Op) : Bounded (op.exec s) := by
  cases op with
  | putchar c => exact bounded_vgaPutchar hs c
  | write str => exact bounded_vgaWrite hs str
  | clear => exact bounded_vgaClear s
  | setColor fg bg => exact bounded_pure ⟨hs.row, hs.col⟩
  | scrollUp lines => exact bounded_vgaScrollUp hs lines
  | setCursor row col =>
    refine bounded_pure ?_
    rw [vgaSetCursor]
    split
    · exact ⟨(‹_ ∧ _› : _).1, (‹_ ∧ _› : _).2⟩
    · exact hs

/-- **Any sequence of operations.** -/
theorem bounded_execAll {s : Cursor} (hs : InGrid s) (ops : List Op) :
    Bounded (execAll s ops) := by
  induction ops generalizing s with
  | nil => exact bounded_pure hs
  | cons op ops ih => exact (op.bounded_exec hs).bind fun s' hs' ↦ ih hs'

/-- **The terminal stays in its grid.**  After any sequence of operations from `vga_init` on the
cursor is in the 25 by 80 grid, and no index from 2000 on has been touched, whatever was read from
the video memory. -/
theorem stays_in_grid (s₀ : Cursor) (ops : List Op) (dev : Device vram) (h : Trace vram) :
    let p := do
      let s ← vgaInit s₀
      execAll s ops
    (p.value dev h).row < 25 ∧ (p.value dev h).col < 80 ∧ ∀ e ∈ p.trace dev h, index e < 2000 := by
  have hbounded := (bounded_vgaClear (vgaSetColor s₀ .lightGrey .black)).bind fun s hs ↦
    bounded_execAll hs ops
  have hcursor := hbounded.cursor dev h
  exact ⟨hcursor.row, hcursor.col, hbounded.indices dev h⟩

/-! ## Against a memory -/

/-- A memory that keeps what is written to it. -/
def memory : Peripheral vram (ℕ → UInt16) where
  reply b i := b i
  step
    | b, .out (i, cell) => Function.update b i cell
    | b, .inp _ _ => b

/-- The cursor of a screen. -/
def cursorOf (t : Term) : Cursor := ⟨t.row, t.col, t.color⟩

/-- The operation on the screen as a whole. -/
def Op.onScreen (t : Term) : Op → Term
  | .putchar c => Vga.vgaPutchar t c
  | .write str => Vga.vgaWrite t str
  | .clear => Vga.vgaClear t
  | .setColor fg bg => Vga.vgaSetColor t fg bg
  | .scrollUp lines => Vga.vgaScrollUp t lines
  | .setCursor row col => Vga.vgaSetCursor t row col

open Peripheral

variable {b₀ b : ℕ → UInt16}

/-- A program does to cursor and cells what is done to the screen `t` to get `t'`. -/
abbrev Becomes (b₀ : ℕ → UInt16) (p : Prog vram Cursor) (t t' : Term) : Prop :=
  memory.Runs b₀ p t.buffer (cursorOf t') t'.buffer

theorem runs_poke (i : ℕ) (cell : UInt16) :
    memory.Runs b₀ (poke i cell) b () (Function.update b i cell) := runs_emit _

theorem runs_peek (i : ℕ) : memory.Runs b₀ (peek i) b (b i) b := runs_ask (F := vram) i

/-- A loop over the cells does what it does to the array. -/
theorem runs_forRange {body : ℕ → Unit → Prog vram Unit} {f : ℕ → (ℕ → UInt16) → ℕ → UInt16}
    (hbody : ∀ i b, memory.Runs b₀ (body i ()) b () (f i b)) (n lo : ℕ) :
    memory.Runs b₀ (forEach body n lo ()) b () (Loop.forRange f n lo b) := by
  induction n generalizing lo b with
  | zero => exact runs_pure ()
  | succ n ih => exact (hbody lo b).bind (ih (lo + 1))

/-- Filling a row. -/
theorem runs_fill (a : ℕ) (cell : UInt16) (n : ℕ) :
    memory.Runs b₀ (forEach (fun x (_ : Unit) ↦ poke (a + x) cell) n 0 ()) b ()
      (Loop.forRange (fun x b ↦ Function.update b (a + x) cell) n 0 b) :=
  runs_forRange (fun x _ ↦ runs_poke (a + x) cell) n 0

/-- Copying a row. -/
theorem runs_copy (a a' n : ℕ) :
    memory.Runs b₀ (forEach (fun x (_ : Unit) ↦ peek (a + x) >>= fun cell ↦ poke (a' + x) cell) n 0
      ()) b () (Loop.forRange (fun x b ↦ Function.update b (a' + x) (b (a + x))) n 0 b) :=
  runs_forRange (f := fun x b ↦ Function.update b (a' + x) (b (a + x)))
    (fun x _ ↦ (runs_peek (a + x)).bind (runs_poke (a' + x) _)) n 0

theorem becomes_vgaClear (t : Term) : Becomes b₀ (vgaClear (cursorOf t)) t (Vga.vgaClear t) :=
  (runs_forRange (fun y _ ↦ runs_fill (y * vgaWidth) (vgaEntry space t.color) vgaWidth) vgaHeight
    0).bind (runs_pure _)

theorem becomes_vgaScroll (t : Term) : Becomes b₀ (vgaScroll (cursorOf t)) t (Vga.vgaScroll t) :=
  (runs_forRange (fun y _ ↦ runs_copy (y * vgaWidth) ((y - 1) * vgaWidth) vgaWidth) (vgaHeight - 1)
    1).bind ((runs_fill _ (vgaEntry space t.color) vgaWidth).bind (runs_pure _))

theorem becomes_nextRow (t : Term) : Becomes b₀ (nextRow (cursorOf t)) t (Vga.nextRow t) := by
  rw [nextRow, Vga.nextRow]
  split
  · rw [if_pos ‹_›]
    exact becomes_vgaScroll { t with row := t.row + 1 }
  · rw [if_neg ‹_›]
    exact runs_pure _

theorem becomes_vgaPutchar (t : Term) (c : UInt8) :
    Becomes b₀ (vgaPutchar (cursorOf t) c) t (Vga.vgaPutchar t c) := by
  rw [vgaPutchar, Vga.vgaPutchar]
  split
  · exact becomes_nextRow { t with col := 0 }
  split
  · exact runs_pure _
  split
  · dsimp only
    split
    · rw [if_pos ‹_›]
      exact becomes_nextRow { t with col := 0 }
    · rw [if_neg ‹_›]
      exact runs_pure _
  split
  · split
    · rw [if_pos ‹_›]
      exact (runs_poke _ _).bind (runs_pure _)
    · rw [if_neg ‹_›]
      exact runs_pure _
  · refine (runs_poke _ _).bind ?_
    dsimp only
    split
    · rw [if_pos ‹_›]
      exact becomes_nextRow { putCell t (vgaEntry c t.color) with col := 0 }
    · rw [if_neg ‹_›]
      exact runs_pure _

theorem becomes_vgaWrite (t : Term) (str : List UInt8) :
    Becomes b₀ (vgaWrite (cursorOf t) str) t (Vga.vgaWrite t str) := by
  induction str generalizing t with
  | nil => exact runs_pure _
  | cons c str ih => exact (becomes_vgaPutchar t c).bind (ih _)

theorem becomes_vgaScrollUp (t : Term) (lines : Int32) :
    Becomes b₀ (vgaScrollUp (cursorOf t) lines) t (Vga.vgaScrollUp t lines) := by
  have hloop (n lo : ℕ) (t : Term) : Becomes b₀ (forEach (fun _ ↦ vgaScroll) n lo (cursorOf t)) t
      (Loop.forRange (fun _ ↦ Vga.vgaScroll) n lo t) := by
    induction n generalizing lo t with
    | zero => exact runs_pure _
    | succ n ih => exact (becomes_vgaScroll t).bind (ih (lo + 1) _)
  exact hloop _ 0 t

/-- **The programs and the functions on whole screens agree.** -/
theorem runs_exec (t : Term) (op : Op) :
    Becomes b₀ (op.exec (cursorOf t)) t (op.onScreen t) := by
  cases op with
  | putchar c => exact becomes_vgaPutchar t c
  | write str => exact becomes_vgaWrite t str
  | clear => exact becomes_vgaClear t
  | setColor fg bg => exact runs_pure _
  | scrollUp lines => exact becomes_vgaScrollUp t lines
  | setCursor row col =>
    have hcursor : vgaSetCursor (cursorOf t) row col = cursorOf (Vga.vgaSetCursor t row col) ∧
        (Vga.vgaSetCursor t row col).buffer = t.buffer := by
      rw [vgaSetCursor, Vga.vgaSetCursor]
      split <;> exact ⟨rfl, rfl⟩
    exact (runs_pure _).of_eq hcursor.1 hcursor.2.symm

end Aetherion.Vga.Video
