import Aetherion.Keyboard.Modifiers

/-!
# The prefix that is not recognised

`0xE0` announces that the next byte is an extended code.  The handler has a branch for it, but the
byte has bit 7 set and the branch for break codes comes first, so the prefix is taken for a break
code of no key, `extended` stays `0`, and the next byte is decoded as if it stood alone.

That does no harm to a code that means nothing by itself, which is most of them.
`extended_code_iff` says for which states and which second bytes the two-byte code does what it
should.
-/

set_option autoImplicit false

namespace Aetherion.Keyboard

/-- With these Print Screen and the navigation keys pretend that a Shift key goes down. -/
def fakeShiftMake : List UInt8 := [0x2A, 0x36]

/-- With these they pretend that it goes up. -/
def fakeShiftBreak : List UInt8 := [0xAA, 0xB6]

/-- The two extended keys that stand for a character, Enter and slash on the keypad. -/
def keypadCharacter : List UInt8 := [0x1C, 0x35]

/-- The prefix has come, and the reader has then taken `n` steps. -/
def Session.prefixed (s : Session) (n : ℕ) : Session := Session.cpu^[n] (s.irq 0xE0)

/-- The second byte of the code, coming in after the reader has taken `n` steps, is treated as an
extended code: it puts no character into the ring unless it is one of the two that stand for one,
and a fake shift does not touch the Shift flag. -/
def TreatsAsExtended (s : Session) (n : ℕ) (scancode : UInt8) : Prop :=
  let s' := (s.prefixed n).irq scancode
  (scancode ∉ keypadCharacter → s'.accepted = s.accepted) ∧
    (scancode ∈ fakeShiftMake ++ fakeShiftBreak → s'.kb.shiftPressed = s.kb.shiftPressed)

variable {s : Session} (n : ℕ)

theorem inv_prefixed (h : s.Inv) : (s.prefixed n).Inv := by
  induction n with
  | zero => exact h.irq 0xE0
  | succ n ih => rw [Session.prefixed, Function.iterate_succ_apply']; exact ih.cpu

/-- The prefix by itself stands for no character. -/
theorem accepted_prefixed (h : s.Inv) : (s.prefixed n).accepted = s.accepted := by
  induction n with
  | zero =>
    have hnone : decoded s.kb 0xE0 = none := if_pos (Or.inl (by decide))
    change s.accepted ++ handlerStored s.kb 0xE0 = _
    rw [handlerStored_eq h.inRange, hnone, List.append_nil]
  | succ n ih => rw [Session.prefixed, Function.iterate_succ_apply', accepted_cpu]; exact ih

/-- The second byte stores a character exactly when it stands for one by itself and there is
room. -/
theorem accepted_second_iff (h : s.Inv) (scancode : UInt8) :
    ((s.prefixed n).irq scancode).accepted = s.accepted ↔
      ¬TypesCharacter scancode ∨ ¬(s.prefixed n).kb.stored.length < 255 := by
  have hnone := decode_eq_none_iff (s.prefixed n).kb.mods scancode
  change (s.prefixed n).accepted ++ handlerStored (s.prefixed n).kb scancode = _ ↔ _
  rw [accepted_prefixed n h, List.append_right_eq_self, handlerStored_eq (inv_prefixed n h).inRange,
    decoded_eq_decode, ← hnone]
  cases (s.prefixed n).kb.mods.decode scancode with
  | none => simp
  | some c => by_cases hroom : (s.prefixed n).kb.stored.length < 255 <;> simp [hroom]

/-- A fake shift does to the Shift flag what a true one does. -/
theorem shift_fakeShift (scancode : UInt8) :
    (scancode ∈ fakeShiftMake → ((s.prefixed n).irq scancode).kb.shiftPressed = 1) ∧
      (scancode ∈ fakeShiftBreak → ((s.prefixed n).irq scancode).kb.shiftPressed = 0) := by
  have hmods := mods_keyboardHandler (s.prefixed n).kb scancode
  refine ⟨fun hmake ↦ (congrArg Mods.shift hmods).trans ?_,
    fun hbreak ↦ (congrArg Mods.shift hmods).trans ?_⟩
  · simp only [fakeShiftMake, List.mem_cons, List.not_mem_nil, or_false] at hmake
    rcases hmake with rfl | rfl <;> rfl
  · simp only [fakeShiftBreak, List.mem_cons, List.not_mem_nil, or_false] at hbreak
    rcases hbreak with rfl | rfl <;> rfl

/-- **When a two-byte code is treated as one.**  In any reachable state, and however many steps the
reader takes between its bytes: when the second byte is one of the two that stand for a character,
or stands for none even alone, or the ring is full; and when a fake shift says of the Shift flag
what it says already. -/
theorem extended_code_iff (steps : List Step) (n : ℕ) (scancode : UInt8) :
    TreatsAsExtended (run steps) n scancode ↔
      (scancode ∈ keypadCharacter ∨ ¬TypesCharacter scancode ∨
        ¬((run steps).prefixed n).kb.stored.length < 255) ∧
      (scancode ∈ fakeShiftMake → (run steps).kb.shiftPressed = 1) ∧
      (scancode ∈ fakeShiftBreak → (run steps).kb.shiftPressed = 0) := by
  obtain ⟨hmake, hbreak⟩ := shift_fakeShift (s := run steps) n scancode
  rw [TreatsAsExtended, accepted_second_iff n (inv_run steps) scancode, List.mem_append, or_imp,
    or_iff_not_imp_left (a := scancode ∈ keypadCharacter)]
  refine and_congr_right fun _ ↦ and_congr (forall_congr' fun h ↦ ?_) (forall_congr' fun h ↦ ?_)
  · rw [hmake h, eq_comm]
  · rw [hbreak h, eq_comm]

/-- After the prefix the code of Print Screen types a star, and the fake shift before it presses
Shift. -/
theorem print_screen_types_a_star :
    ¬TreatsAsExtended (run []) 0 0x37 ∧ ((run []).prefixed 0 |>.irq 0x37).kb.stored = [42] ∧
      ¬TreatsAsExtended (run []) 0 0x2A := by
  refine ⟨?_, by decide, ?_⟩
  · intro h
    exact absurd (h.1 (by decide)) (by decide)
  · intro h
    exact absurd (h.2 (by decide)) (by decide)

end Aetherion.Keyboard
