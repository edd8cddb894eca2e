import Aetherion.Base.RingBuffer

/-!
# The keyboard driver

`kernel/keyboard.c`: the interrupt handler decodes scancodes of set 1 into characters, and puts
them into a ring of 256 cells from which the shell takes them.

The handler touches the ring in one place only, `kbBufferPush`; `keyboardHandler_ring` says so, in
terms of the character the handler decodes (`decoded`), and is all the queue proofs need to know
about decoding.
-/

set_option autoImplicit false

namespace Aetherion.Keyboard

/-- `KB_BUFFER_SIZE`. -/
abbrev kbBufferSize : ℕ := 256

/-- The static state of `keyboard.c`. -/
structure Kbd where
  /-- `kb_buffer`. -/
  kbBuffer : ℕ → UInt8
  /-- `kb_head`. -/
  kbHead : UInt16
  /-- `kb_tail`. -/
  kbTail : UInt16
  /-- `shift_pressed`. -/
  shiftPressed : UInt8
  /-- `ctrl_pressed`. -/
  ctrlPressed : UInt8
  /-- `alt_pressed`. -/
  altPressed : UInt8
  /-- `capslock_on`. -/
  capslockOn : UInt8
  /-- `extended`. -/
  extended : UInt8

/-- `scancode_to_ascii`, the part of it that is written out; the rest is zero. -/
def scancodeToAscii : List UInt8 :=
  [0, 27, 49, 50, 51, 52, 53, 54, 55, 56, 57, 48, 45, 61, 8,  -- Esc `1234567890-=` Backspace
    9, 113, 119, 101, 114, 116, 121, 117, 105, 111, 112, 91, 93, 10,  -- Tab `qwertyuiop[]` Enter
    0, 97, 115, 100, 102, 103, 104, 106, 107, 108, 59, 39, 96,  -- Ctrl `asdfghjkl;'` and backquote
    0, 92, 122, 120, 99, 118, 98, 110, 109, 44, 46, 47, 0,  -- Shift `\zxcvbnm,./` Shift
    42, 0, 32]  -- `*` Alt Space

/-- `scancode_to_ascii_shift`. -/
def scancodeToAsciiShift : List UInt8 :=
  [0, 27, 33, 64, 35, 36, 37, 94, 38, 42, 40, 41, 95, 43, 8,  -- Esc `!@#$%^&*()_+` Backspace
    9, 81, 87, 69, 82, 84, 89, 85, 73, 79, 80, 123, 125, 10,  -- Tab `QWERTYUIOP{}` Enter
    0, 65, 83, 68, 70, 71, 72, 74, 75, 76, 58, 34, 126,  -- Ctrl `ASDFGHJKL:"~`
    0, 124, 90, 88, 67, 86, 66, 78, 77, 60, 62, 63, 0,  -- Shift `|ZXCVBNM<>?` Shift
    42, 0, 32]  -- `*` Alt Space

/-- The state before any key is pressed: statics are zero. -/
def Kbd.initial : Kbd := ⟨fun _ ↦ 0, 0, 0, 0, 0, 0, 0, 0⟩

def kbBufferPush (kb : Kbd) (scancode : UInt8) : Kbd :=
  let next := (kb.kbHead + 1) % 256
  if next ≠ kb.kbTail then
    { kb with
      kbBuffer := Function.update kb.kbBuffer kb.kbHead.toNat scancode
      kbHead := next }
  else kb

/-- What the handler looks up for a make code: `c`. -/
def asciiOf (kb : Kbd) (scancode : UInt8) : UInt8 :=
  if scancode < 128 then
    if kb.shiftPressed ^^^ kb.capslockOn ≠ 0 then scancodeToAsciiShift.getD scancode.toNat 0
    else scancodeToAscii.getD scancode.toNat 0
  else 0

def keyboardHandler (kb : Kbd) (scancode : UInt8) : Kbd :=
  if scancode &&& 0x80 ≠ 0 then
    let makeCode := scancode &&& 0x7F
    let kb :=
      if makeCode = 0x2A ∨ makeCode = 0x36 then { kb with shiftPressed := 0 }
      else if makeCode = 0x1D then { kb with ctrlPressed := 0 }
      else if makeCode = 0x38 then { kb with altPressed := 0 }
      else kb
    { kb with extended := 0 }
  else if scancode = 0xE0 then { kb with extended := 1 }
  else if scancode = 0x2A ∨ scancode = 0x36 then { kb with shiftPressed := 1, extended := 0 }
  else if scancode = 0x1D then { kb with ctrlPressed := 1, extended := 0 }
  else if scancode = 0x38 then { kb with altPressed := 1, extended := 0 }
  else if scancode = 0x3A then
    { kb with capslockOn := if kb.capslockOn = 0 then 1 else 0, extended := 0 }
  else
    let c := asciiOf kb scancode
    let kb := if c ≠ 0 then kbBufferPush kb c else kb
    { kb with extended := 0 }

def keyboardHasKey (kb : Kbd) : Bool := kb.kbHead ≠ kb.kbTail

/-! ## What the handler does to the ring -/

/-- The ring the driver keeps. -/
def Kbd.ring (kb : Kbd) : RingBuffer UInt8 :=
  ⟨kb.kbBuffer, kb.kbHead.toNat, kb.kbTail.toNat⟩

/-- The characters waiting in the ring. -/
def Kbd.stored (kb : Kbd) : List UInt8 := kb.ring.contents kbBufferSize

/-- The character a scancode stands for, if it stands for one: it is not a break code, not a
modifier, and its entry in the table is not zero. -/
def decoded (kb : Kbd) (scancode : UInt8) : Option UInt8 :=
  if scancode &&& 0x80 ≠ 0 ∨ scancode ∈ [0xE0, 0x2A, 0x36, 0x1D, 0x38, 0x3A] then none
  else if asciiOf kb scancode = 0 then none
  else some (asciiOf kb scancode)

theorem decoded_ne_zero {kb : Kbd} {scancode c : UInt8} (h : decoded kb scancode = some c) :
    c ≠ 0 := by
  rw [decoded] at h
  split_ifs at h with _ hc
  exact Option.some.inj h ▸ hc

theorem toNat_next (i : UInt16) (hi : i.toNat < 256) :
    ((i + 1) % 256).toNat = (i.toNat + 1) % 256 := by
  have hadd : (i + 1).toNat = i.toNat + 1 := by
    rw [UInt16.toNat_add]
    exact Nat.mod_eq_of_lt (show i.toNat + 1 < 2 ^ 16 by omega)
  rw [UInt16.toNat_mod, hadd]
  rfl

/-- **`kb_buffer_push` is the push of the ring.** -/
theorem kbBufferPush_ring {kb : Kbd} (hkb : kb.kbHead.toNat < 256) (c : UInt8) :
    (kbBufferPush kb c).ring = kb.ring.push kbBufferSize c := by
  have hnext := toNat_next kb.kbHead hkb
  rw [kbBufferPush, RingBuffer.push]
  by_cases h : (kb.kbHead + 1) % 256 = kb.kbTail
  · have h' : (kb.ring.head + 1) % kbBufferSize = kb.ring.tail :=
      hnext.symm.trans (congrArg UInt16.toNat h)
    rw [if_neg (not_not_intro h), if_neg (not_not_intro h')]
  · have h' : (kb.ring.head + 1) % kbBufferSize ≠ kb.ring.tail :=
      fun he ↦ h (UInt16.toNat_inj.mp (hnext.trans he))
    rw [if_pos h, if_pos h']
    simp only [Kbd.ring, hnext]

/-- **The handler touches the ring only to push the character it has decoded.** -/
theorem keyboardHandler_ring (kb : Kbd) (scancode : UInt8) :
    (keyboardHandler kb scancode).ring =
      match decoded kb scancode with
      | none => kb.ring
      | some c => (kbBufferPush kb c).ring := by
  by_cases hbreak : scancode &&& 0x80 ≠ 0
  · rw [keyboardHandler, if_pos hbreak, decoded, if_pos (Or.inl hbreak)]
    simp only
    split_ifs <;> rfl
  by_cases hmod : scancode ∈ [0xE0, 0x2A, 0x36, 0x1D, 0x38, 0x3A]
  · rw [keyboardHandler, if_neg hbreak, decoded, if_pos (Or.inr hmod)]
    simp only [List.mem_cons, List.not_mem_nil, or_false] at hmod
    rcases hmod with rfl | rfl | rfl | rfl | rfl | rfl <;> rfl
  · have hdec : decoded kb scancode =
        if asciiOf kb scancode = 0 then none else some (asciiOf kb scancode) := by
      rw [decoded, if_neg (by rintro (h | h); exacts [hbreak h, hmod h])]
    simp only [List.mem_cons, List.not_mem_nil, or_false, not_or] at hmod
    obtain ⟨h1, h2, h3, h4, h5, h6⟩ := hmod
    rw [keyboardHandler, if_neg hbreak, if_neg h1,
      if_neg (by rintro (h | h); exacts [h2 h, h3 h]), if_neg h4, if_neg h5, if_neg h6, hdec]
    by_cases hc : asciiOf kb scancode = 0
    · simp only [hc, ne_eq, not_true_eq_false, if_false, if_true]
      rfl
    · simp only [hc, ne_eq, not_false_eq_true, if_true, if_false]
      rfl

end Aetherion.Keyboard
