import Aetherion.Base.Words
import Aetherion.Keyboard.Queue

/-!
# The modifier state of the decoder

What `keyboard_handler` makes of a scancode depends on the four modifier flags and on nothing else
of its state, and what becomes of the flags depends on the flags and the scancode.  `Mods` is that
part of the state, and `Mods.step` and `Mods.decode` are the decoder without the ring: the reader
cannot touch the flags, so after any run they are those of the scancodes alone (`mods_run`).
-/

set_option autoImplicit false

namespace Aetherion.Keyboard

/-- The modifier flags of the driver. -/
structure Mods where
  /-- `shift_pressed`. -/
  shift : UInt8
  /-- `ctrl_pressed`. -/
  ctrl : UInt8
  /-- `alt_pressed`. -/
  alt : UInt8
  /-- `capslock_on`. -/
  caps : UInt8
  deriving DecidableEq, Repr

def Kbd.mods (kb : Kbd) : Mods := ⟨kb.shiftPressed, kb.ctrlPressed, kb.altPressed, kb.capslockOn⟩

/-- No modifier is active. -/
def Mods.initial : Mods := ⟨0, 0, 0, 0⟩

/-- What the handler does to the flags. -/
def Mods.step (m : Mods) (scancode : UInt8) : Mods :=
  if scancode &&& 0x80 ≠ 0 then
    let makeCode := scancode &&& 0x7F
    if makeCode = 0x2A ∨ makeCode = 0x36 then { m with shift := 0 }
    else if makeCode = 0x1D then { m with ctrl := 0 }
    else if makeCode = 0x38 then { m with alt := 0 }
    else m
  else if scancode = 0x2A ∨ scancode = 0x36 then { m with shift := 1 }
  else if scancode = 0x1D then { m with ctrl := 1 }
  else if scancode = 0x38 then { m with alt := 1 }
  else if scancode = 0x3A then { m with caps := if m.caps = 0 then 1 else 0 }
  else m

/-- Which of the two tables applies. -/
def Mods.shifted (m : Mods) : Bool := m.shift ^^^ m.caps ≠ 0

/-- The character a scancode stands for in one of the two tables. -/
def decodeIn (shifted : Bool) (scancode : UInt8) : Option UInt8 :=
  let table := if shifted then scancodeToAsciiShift else scancodeToAscii
  let c := if scancode < 128 then table.getD scancode.toNat 0 else 0
  if scancode &&& 0x80 ≠ 0 ∨ scancode ∈ [0xE0, 0x2A, 0x36, 0x1D, 0x38, 0x3A] then none
  else if c = 0 then none
  else some c

/-- The character a scancode stands for under these flags. -/
def Mods.decode (m : Mods) (scancode : UInt8) : Option UInt8 := decodeIn m.shifted scancode

theorem decoded_eq_decode (kb : Kbd) (scancode : UInt8) :
    decoded kb scancode = kb.mods.decode scancode := by
  have hascii : asciiOf kb scancode = if scancode < 128 then
      (if kb.mods.shifted then scancodeToAsciiShift else scancodeToAscii).getD scancode.toNat 0
        else 0 := by
    rw [asciiOf]
    by_cases h : kb.shiftPressed ^^^ kb.capslockOn ≠ 0
    · rw [if_pos h, if_pos (show kb.mods.shifted = true from decide_eq_true h)]
    · rw [if_neg h, if_neg (show ¬kb.mods.shifted = true from mt of_decide_eq_true h)]
  rw [decoded, hascii]
  rfl

/-- **The handler changes the flags by the flags.** -/
theorem mods_keyboardHandler (kb : Kbd) (scancode : UInt8) :
    (keyboardHandler kb scancode).mods = kb.mods.step scancode := by
  have hpush (c : UInt8) : (kbBufferPush kb c).mods = kb.mods := by
    rw [kbBufferPush]
    split <;> rfl
  rw [keyboardHandler, Mods.step]
  by_cases hbreak : scancode &&& 0x80 ≠ 0
  · simp only [if_pos hbreak]
    split_ifs <;> rfl
  have hE0 : scancode ≠ 0xE0 := by
    rintro rfl
    exact hbreak (by decide)
  rw [if_neg hbreak, if_neg hbreak, if_neg hE0]
  by_cases hshift : scancode = 0x2A ∨ scancode = 0x36
  · rw [if_pos hshift, if_pos hshift]; rfl
  rw [if_neg hshift, if_neg hshift]
  by_cases hctrl : scancode = 0x1D
  · rw [if_pos hctrl, if_pos hctrl]; rfl
  rw [if_neg hctrl, if_neg hctrl]
  by_cases halt : scancode = 0x38
  · rw [if_pos halt, if_pos halt]; rfl
  rw [if_neg halt, if_neg halt]
  by_cases hcaps : scancode = 0x3A
  · rw [if_pos hcaps, if_pos hcaps]; rfl
  rw [if_neg hcaps, if_neg hcaps]
  by_cases hc : asciiOf kb scancode ≠ 0
  · simp only [if_pos hc]; exact hpush _
  · simp only [if_neg hc]; rfl

/-- The flags after a stream of scancodes. -/
theorem mods_foldl (kb : Kbd) (scancodes : List UInt8) :
    (scancodes.foldl keyboardHandler kb).mods = scancodes.foldl Mods.step kb.mods := by
  induction scancodes generalizing kb with
  | nil => rfl
  | cons sc scancodes ih => rw [List.foldl_cons, ih, mods_keyboardHandler, List.foldl_cons]

/-! ## Between the reader's steps -/

/-- The scancodes that come in during a run. -/
def scancodes : List Step → List UInt8
  | [] => []
  | .irq sc :: steps => sc :: scancodes steps
  | .cpu :: steps => scancodes steps

/-- The reader leaves the flags alone. -/
theorem mods_cpu (s : Session) : s.cpu.kb.mods = s.kb.mods := by
  rw [Session.cpu]
  cases s.pc <;> simp only
  case popTest => split <;> rfl
  all_goals rfl

theorem accepted_cpu (s : Session) : s.cpu.accepted = s.accepted := by
  rw [Session.cpu]
  cases s.pc <;> simp only
  case popTest => split <;> rfl
  all_goals rfl

/-- **The flags are a matter of the scancodes alone**, however the reader's steps fall between
them. -/
theorem mods_run (steps : List Step) :
    (run steps).kb.mods = (scancodes steps).foldl Mods.step Mods.initial := by
  have hfrom (s : Session) (steps : List Step) :
      (steps.foldl Session.step s).kb.mods = (scancodes steps).foldl Mods.step s.kb.mods := by
    induction steps generalizing s with
    | nil => rfl
    | cons l steps ih =>
      rw [List.foldl_cons, ih]
      cases l with
      | irq sc =>
        rw [scancodes, List.foldl_cons, ← mods_keyboardHandler]
        rfl
      | cpu => rw [scancodes, Session.step, mods_cpu]
  exact hfrom Session.initial steps

/-! ## Scancodes that stand for a character -/

/-- The scancodes with a character in the tables: those up to the space bar that are not modifiers.
The two tables agree on which these are. -/
def TypesCharacter (scancode : UInt8) : Prop :=
  scancode < 0x3A ∧ scancode ∉ [0, 0x1D, 0x2A, 0x36, 0x38]

instance : DecidablePred TypesCharacter := fun scancode ↦
  inferInstanceAs (Decidable (scancode < 0x3A ∧ _))

theorem decode_eq_none_iff (m : Mods) (scancode : UInt8) :
    m.decode scancode = none ↔ ¬TypesCharacter scancode := by
  rw [Mods.decode]
  generalize m.shifted = shifted
  refine Words.of_lt scancode scancode.toNat_lt ?_
  cases shifted <;> decide +kernel

end Aetherion.Keyboard
