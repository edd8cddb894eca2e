import Aetherion.Keyboard.Modifiers

/-!
# Caps Lock

Caps Lock should matter to letters only, and to them only in case.  The handler has it choose the
table, as Shift does, so with Caps Lock on the digits and the punctuation marks are those of the
other table too.

Two streams are compared, one of which is the other with codes of Caps Lock put in anywhere.  They
always push characters for the same keys, and for a letter the same letter; what the other keys
push is a matter of Shift alone exactly if Caps Lock is off, in both streams, whenever a key with
two characters is pressed that is no letter (`capsLettersOnly_iff`).
-/

set_option autoImplicit false

namespace Aetherion.Keyboard

/-! ## What is pushed -/

/-- A character that the handler pushes. -/
structure Push where
  /-- The scancode of the key. -/
  key : UInt8
  /-- The state of Shift. -/
  shift : UInt8
  /-- The character. -/
  char : UInt8
  deriving DecidableEq

/-- What the handler pushes for some scancodes. -/
def pushes (kb : Kbd) : List UInt8 → List Push
  | [] => []
  | sc :: scs =>
    ((decoded kb sc).map (Push.mk sc kb.shiftPressed)).toList ++ pushes (keyboardHandler kb sc) scs

/-- One of the 26 letters. -/
def IsLetterKey (scancode : UInt8) : Prop :=
  97 ≤ scancodeToAscii.getD scancode.toNat 0 ∧ scancodeToAscii.getD scancode.toNat 0 ≤ 122

instance : DecidablePred IsLetterKey := fun _ ↦ inferInstanceAs (Decidable (_ ∧ _))

/-- A key with two characters that is no letter. -/
def IsSymbolKey (scancode : UInt8) : Prop :=
  ¬IsLetterKey scancode ∧ decodeIn true scancode ≠ decodeIn false scancode

instance : DecidablePred IsSymbolKey := fun _ ↦ inferInstanceAs (Decidable (_ ∧ _))

/-- A letter without its case. -/
def lower (c : UInt8) : UInt8 := if 65 ≤ c ∧ c ≤ 90 then c + 32 else c

/-! ## Streams with more Caps Lock in them -/

/-- Codes of Caps Lock, for a press or a release, are put into a stream. -/
inductive CapsInserted : List UInt8 → List UInt8 → Prop where
  | nil : CapsInserted [] []
  | keep (sc : UInt8) {s s' : List UInt8} (h : CapsInserted s s') :
      CapsInserted (sc :: s) (sc :: s')
  | insert {sc : UInt8} (hsc : sc = 0x3A ∨ sc = 0xBA) {s s' : List UInt8}
      (h : CapsInserted s s') : CapsInserted s (sc :: s')

/-- The characters of two presses: of a letter the same but for case, of another key the same. -/
def SamePress (p p' : Push) : Prop :=
  p.key = p'.key ∧
    if IsLetterKey p.key then lower p.char = lower p'.char else p.char = p'.char

/-- The character is the one that goes with the state of Shift. -/
def ByShift (p : Push) : Prop :=
  ¬IsLetterKey p.key → decodeIn (p.shift ≠ 0) p.key = some p.char

instance : DecidablePred ByShift := fun _ ↦ inferInstanceAs (Decidable (¬_ → _))

/-- **Caps Lock affects letters only**, from the first key on. -/
structure CapsLettersOnly (s s' : List UInt8) : Prop where
  /-- Press by press the two streams push the same, but for the case of letters. -/
  same : List.Forall₂ SamePress (pushes .initial s) (pushes .initial s')
  /-- What is pushed for the other keys is a matter of Shift. -/
  byShift : ∀ p ∈ pushes .initial s ++ pushes .initial s', ByShift p

/-- Caps Lock has been pressed an even number of times whenever a key is pressed that is no letter
and has two characters. -/
def CapsOffAtSymbols (s : List UInt8) : Prop :=
  ∀ pre sc, pre ++ [sc] <+: s → IsSymbolKey sc → pre.count 0x3A % 2 = 0

/-! ## The tables -/

/-- The two tables have the same letters. -/
theorem lower_decodeIn {sc : UInt8} (h : IsLetterKey sc) (b : Bool) :
    (decodeIn b sc).map lower = (decodeIn false sc).map lower := by
  revert h
  refine Words.of_lt sc sc.toNat_lt ?_
  cases b <;> decide +kernel

/-- They have characters for the same keys. -/
theorem isSome_decodeIn (sc : UInt8) (b : Bool) :
    (decodeIn b sc).isSome = (decodeIn false sc).isSome := by
  refine Words.of_lt sc sc.toNat_lt ?_
  cases b <;> decide +kernel

/-! ## The flags -/

variable (m : Mods) (sc : UInt8)

theorem caps_step :
    (m.step sc).caps = if sc = 0x3A then (if m.caps = 0 then 1 else 0) else m.caps := by
  by_cases hsc : sc = 0x3A
  · subst hsc
    rfl
  · rw [if_neg hsc, Mods.step]
    dsimp only
    split_ifs <;> rfl

/-- A code sets the flag of Shift, or clears it, or leaves it alone, and it is not a matter of the
flags which. -/
theorem shift_step : (∀ m : Mods, (m.step sc).shift = 1) ∨ (∀ m : Mods, (m.step sc).shift = 0) ∨
    ∀ m : Mods, (m.step sc).shift = m.shift := by
  simp only [Mods.step]
  split_ifs <;> simp

/-- The flags as they can be. -/
theorem mods_after (pre : List UInt8) :
    let m := (pre.foldl keyboardHandler .initial).mods
    (m.shift = 0 ∨ m.shift = 1) ∧ m.caps = if pre.count 0x3A % 2 = 1 then 1 else 0 := by
  rw [mods_foldl]
  induction pre using List.reverseRecOn with
  | nil => decide
  | append_singleton pre sc ih =>
    obtain ⟨hshift, hcaps⟩ := ih
    rw [List.foldl_append, List.foldl_cons, List.foldl_nil]
    refine ⟨?_, ?_⟩
    · rcases shift_step sc with h | h | h
      · exact Or.inr (h _)
      · exact Or.inl (h _)
      · rwa [h]
    · rw [caps_step, hcaps, List.count_append, List.count_singleton]
      by_cases hsc : sc = 0x3A
      · rcases Nat.mod_two_eq_zero_or_one (pre.count 0x3A) with h | h
        · simp [h, hsc, Nat.add_mod]
        · simp [h, hsc, Nat.add_mod]
      · simp [hsc]

/-! ## Press by press -/

theorem decoded_eq (kb : Kbd) (sc : UInt8) :
    decoded kb sc = decodeIn (kb.shiftPressed ^^^ kb.capslockOn ≠ 0) sc := decoded_eq_decode kb sc

/-- Neither code of Caps Lock pushes anything. -/
theorem decoded_caps (kb : Kbd) {sc : UInt8} (hsc : sc = 0x3A ∨ sc = 0xBA) :
    decoded kb sc = none := by
  rcases hsc with rfl | rfl <;> rfl

/-- A press in two states of the keyboard. -/
theorem decoded_cases (kb kb' : Kbd) (sc : UInt8) :
    decoded kb sc = none ∧ decoded kb' sc = none ∨
      ∃ c c', decoded kb sc = some c ∧ decoded kb' sc = some c' ∧
        (IsLetterKey sc → lower c = lower c') := by
  have hsome := (isSome_decodeIn sc (kb.shiftPressed ^^^ kb.capslockOn ≠ 0)).trans
    (isSome_decodeIn sc (kb'.shiftPressed ^^^ kb'.capslockOn ≠ 0)).symm
  have hlower (hletter : IsLetterKey sc) :=
    (lower_decodeIn hletter (kb.shiftPressed ^^^ kb.capslockOn ≠ 0)).trans
      (lower_decodeIn hletter (kb'.shiftPressed ^^^ kb'.capslockOn ≠ 0)).symm
  rw [← decoded_eq kb] at hsome hlower
  rw [← decoded_eq kb'] at hsome hlower
  cases hc : decoded kb sc with
  | none =>
    rw [hc] at hsome
    exact Or.inl ⟨rfl, Option.not_isSome_iff_eq_none.mp (by simp [← hsome])⟩
  | some c =>
    rw [hc] at hsome hlower
    obtain ⟨c', hc'⟩ := Option.isSome_iff_exists.mp hsome.symm
    refine Or.inr ⟨c, c', rfl, hc', fun hletter ↦ ?_⟩
    simpa [hc'] using hlower hletter

/-- What a code does to the flag of Shift does not depend on the rest of the state. -/
theorem shiftPressed_congr {kb kb' : Kbd} (h : kb.shiftPressed = kb'.shiftPressed) (sc : UInt8) :
    (keyboardHandler kb sc).shiftPressed = (keyboardHandler kb' sc).shiftPressed := by
  have hkb := congrArg Mods.shift (mods_keyboardHandler kb sc)
  have hkb' := congrArg Mods.shift (mods_keyboardHandler kb' sc)
  refine hkb.trans (Eq.trans ?_ hkb'.symm)
  rcases shift_step sc with hstep | hstep | hstep
  · rw [hstep, hstep]
  · rw [hstep, hstep]
  · rw [hstep, hstep]
    exact h

/-- Neither code of Caps Lock changes it. -/
theorem shiftPressed_caps (kb : Kbd) {sc : UInt8} (hsc : sc = 0x3A ∨ sc = 0xBA) :
    (keyboardHandler kb sc).shiftPressed = kb.shiftPressed := by
  rcases hsc with rfl | rfl <;> rfl

/-- **The two streams push for the same keys**, under the same state of Shift, and for a letter the
same letter. -/
theorem pushes_forall₂ {s s' : List UInt8} (h : CapsInserted s s') {kb kb' : Kbd}
    (hshift : kb.shiftPressed = kb'.shiftPressed) :
    List.Forall₂ (fun p p' : Push ↦ p.key = p'.key ∧ p.shift = p'.shift ∧
      (IsLetterKey p.key → lower p.char = lower p'.char)) (pushes kb s) (pushes kb' s') := by
  induction h generalizing kb kb' with
  | nil => exact .nil
  | keep sc h ih =>
    have hrest := ih (shiftPressed_congr hshift sc)
    rw [pushes, pushes]
    rcases decoded_cases kb kb' sc with ⟨hc, hc'⟩ | ⟨c, c', hc, hc', hletter⟩
    · rw [hc, hc']
      exact hrest
    · rw [hc, hc']
      exact .cons ⟨rfl, hshift, hletter⟩ hrest
  | insert hsc h ih =>
    rw [pushes, decoded_caps kb' hsc]
    exact ih (hshift.trans (shiftPressed_caps kb' hsc).symm)

/-- What is pushed is pushed after some of the codes. -/
theorem forall_mem_pushes {P : Push → Prop} (kb : Kbd) (s : List UInt8) :
    (∀ p ∈ pushes kb s, P p) ↔ ∀ pre sc, pre ++ [sc] <+: s →
      ∀ c ∈ decoded (pre.foldl keyboardHandler kb) sc,
        P ⟨sc, (pre.foldl keyboardHandler kb).shiftPressed, c⟩ := by
  induction s generalizing kb with
  | nil => simp [pushes]
  | cons sc s ih =>
    rw [pushes, List.forall_mem_append, ih]
    constructor
    · rintro ⟨hfirst, hrest⟩ pre sc' hpre c hc
      cases pre with
      | nil =>
        obtain ⟨rfl, -⟩ := List.cons_prefix_cons.mp hpre
        exact hfirst _ (Option.mem_toList.mpr (Option.map_eq_some_iff.mpr ⟨c, hc, rfl⟩))
      | cons sc₀ pre =>
        obtain ⟨rfl, hpre'⟩ := List.cons_prefix_cons.mp hpre
        exact hrest pre sc' hpre' c hc
    · intro h
      refine ⟨fun p hp ↦ ?_, fun pre sc' hpre ↦ ?_⟩
      · obtain ⟨c, hc, rfl⟩ := Option.map_eq_some_iff.mp (Option.mem_toList.mp hp)
        exact h [] sc (by simp) c hc
      · exact h (sc :: pre) sc' ((List.prefix_cons_inj sc).mpr hpre)

/-- A press with Shift in state `b`, and Caps Lock on or off: the table is the one of Shift, or with
Caps Lock the other one, and that matters to the keys with two characters. -/
theorem byShift_press_iff (b caps : Bool) (sc : UInt8) :
    (∀ c ∈ decodeIn (b ^^ caps) sc, ¬IsLetterKey sc → decodeIn b sc = some c) ↔
      (IsSymbolKey sc → caps = false) := by
  cases caps with
  | false =>
    rw [Bool.xor_false]
    exact iff_of_true (fun c hc _ ↦ hc) fun _ ↦ rfl
  | true =>
    rw [Bool.xor_true]
    have hsome := (isSome_decodeIn sc (!b)).trans (isSome_decodeIn sc b).symm
    have hsymbol : IsSymbolKey sc ↔ ¬IsLetterKey sc ∧ decodeIn (!b) sc ≠ decodeIn b sc := by
      cases b
      · rfl
      · exact and_congr_right fun _ ↦ ne_comm
    rw [hsymbol]
    constructor
    · rintro h ⟨hletter, hne⟩
      cases hc : decodeIn (!b) sc with
      | none =>
        rw [hc] at hsome hne
        have hnone : decodeIn b sc = none := by simpa using hsome.symm
        exact absurd hnone.symm hne
      | some c =>
        rw [hc] at hne
        exact absurd (h c hc hletter).symm hne
    · intro h c hc hletter
      by_contra hne
      exact absurd (h ⟨hletter, fun heq ↦ hne (heq ▸ hc)⟩) (by simp)

/-- The table is the one of Shift, or the other one after an odd number of presses of Caps Lock. -/
theorem table_after (pre : List UInt8) :
    let kb := pre.foldl keyboardHandler .initial
    decide (kb.shiftPressed ^^^ kb.capslockOn ≠ 0) =
      (decide (kb.shiftPressed ≠ 0) ^^ decide (pre.count 0x3A % 2 ≠ 0)) := by
  intro kb
  obtain ⟨hshift, hcaps⟩ := mods_after pre
  change kb.shiftPressed = 0 ∨ kb.shiftPressed = 1 at hshift
  change kb.capslockOn = _ at hcaps
  rw [hcaps]
  rcases Nat.mod_two_eq_zero_or_one (pre.count 0x3A) with h | h
  · rcases hshift with hshift | hshift <;> simp [hshift, h]
  · rcases hshift with hshift | hshift <;> simp [hshift, h]

/-- **A single stream**: what the other keys push is a matter of Shift exactly if Caps Lock is off
when it counts. -/
theorem byShift_iff (s : List UInt8) :
    (∀ p ∈ pushes .initial s, ByShift p) ↔ CapsOffAtSymbols s := by
  rw [forall_mem_pushes]
  refine forall_congr' fun pre ↦ forall_congr' fun sc ↦ forall_congr' fun hpre ↦ ?_
  have hoff : decide (pre.count 0x3A % 2 ≠ 0) = false ↔ pre.count 0x3A % 2 = 0 := by simp
  rw [decoded_eq, table_after]
  exact (byShift_press_iff _ _ sc).trans (imp_congr_right fun _ ↦ hoff)

/-- **Caps Lock affects letters only exactly in the streams** in which it is off whenever a key is
pressed that is no letter and has two characters. -/
theorem capsLettersOnly_iff {s s' : List UInt8} (h : CapsInserted s s') :
    CapsLettersOnly s s' ↔ CapsOffAtSymbols s ∧ CapsOffAtSymbols s' := by
  rw [← byShift_iff, ← byShift_iff, ← List.forall_mem_append]
  refine ⟨CapsLettersOnly.byShift, fun hshift ↦ ⟨?_, hshift⟩⟩
  rw [List.forall_mem_append] at hshift
  have hpresses := (List.forall₂_and_left _ _).mpr ⟨hshift.1, pushes_forall₂ h rfl⟩
  have hboth := (List.forall₂_and_left _ _).mpr ⟨hshift.2, hpresses.flip⟩
  refine hboth.flip.imp ?_
  rintro p p' ⟨hp', hp, hkey, hsame, hletter⟩
  refine ⟨hkey, ?_⟩
  split
  · exact hletter ‹_›
  · rename_i hnot
    have hchar := hp hnot
    rw [hkey, hsame, hp' (hkey ▸ hnot)] at hchar
    exact (Option.some.inj hchar).symm

/-- Shift over a digit, with Caps Lock on and off again before it. -/
theorem capsLettersOnly_digit :
    CapsLettersOnly [0x2A, 0x02] [0x3A, 0xBA, 0x2A, 0x3A, 0xBA, 0x02] := by
  refine (capsLettersOnly_iff ?_).mpr ⟨?_, ?_⟩
  · exact .insert (.inl rfl) (.insert (.inr rfl) (.keep _ (.insert (.inl rfl)
      (.insert (.inr rfl) (.keep _ .nil)))))
  · exact (byShift_iff _).mp (by decide)
  · exact (byShift_iff _).mp (by decide)

/-- After Caps Lock the key of the digit 1 pushes an exclamation mark. -/
theorem caps_lock_changes_digit :
    ¬∀ s s', 0xE0 ∉ s → CapsInserted s s' → CapsLettersOnly s s' := by
  intro h
  have hcaps := h [0x02] [0x3A, 0xBA, 0x02] (by decide)
    (.insert (.inl rfl) (.insert (.inr rfl) (.keep _ .nil)))
  have hshift := hcaps.byShift ⟨0x02, 0, 33⟩ (by decide) (by decide)
  revert hshift
  decide

end Aetherion.Keyboard
