import Aetherion.Shell.Console

/-!
# The characters that can be typed

The way from the keys to the characters, and back.  Every character of the two tables can be had
with the keys: `strokes` says how, and decoding undoes it (`decodeStream_strokes`).  No state of the
flags is in the way of that, since all of them can be put back (`decode_release`).
-/

set_option autoImplicit false

namespace Aetherion.Shell

open Keyboard

/-! ## The keys for a character -/

/-- The characters of the two tables: Backspace, Tab, Enter, Escape, and what can be printed. -/
def Typeable (c : UInt8) : Prop := c ∈ [8, 9, 10, 27] ∨ 32 ≤ c ∧ c < 127

instance : DecidablePred Typeable := fun _ ↦ inferInstanceAs (Decidable (_ ∨ _))

/-- A key is pressed and released. -/
def tap (scancode : UInt8) : List UInt8 := [scancode, scancode ||| 0x80]

/-- What the keyboard sends for a character, with the left Shift key held down if that is needed. -/
def strokes (c : UInt8) : List UInt8 :=
  if c ∈ scancodeToAscii then tap (.ofNat (scancodeToAscii.idxOf c))
  else 0x2A :: tap (.ofNat (scancodeToAsciiShift.idxOf c)) ++ [0xAA]

theorem decodeStream_append (m : Mods) (s t : List UInt8) :
    decodeStream m (s ++ t) = decodeStream m s ++ decodeStream (s.foldl Mods.step m) t := by
  induction s generalizing m with
  | nil => rfl
  | cons sc s ih =>
    rw [List.cons_append, decodeStream, decodeStream, ih, List.append_assoc, List.foldl_cons]

/-- The keys for a character stand for it, and are all up again in the end. -/
theorem decode_strokes {c : UInt8} (hc : Typeable c) :
    decodeStream Mods.initial (strokes c) = [c] ∧
      (strokes c).foldl Mods.step Mods.initial = Mods.initial := by
  revert hc
  refine Words.of_lt c c.toNat_lt ?_
  decide +kernel

/-- **Typing a text types it.** -/
theorem decodeStream_strokes {text : List UInt8} (htext : ∀ c ∈ text, Typeable c) :
    decodeStream Mods.initial (text.flatMap strokes) = text ∧
      (text.flatMap strokes).foldl Mods.step Mods.initial = Mods.initial := by
  induction text with
  | nil => exact ⟨rfl, rfl⟩
  | cons c text ih =>
    obtain ⟨hchars, hmods⟩ := decode_strokes (htext c List.mem_cons_self)
    obtain ⟨hrest, hend⟩ := ih fun d hd ↦ htext d (List.mem_cons_of_mem _ hd)
    rw [List.flatMap_cons, decodeStream_append, List.foldl_append, hchars, hmods]
    exact ⟨congrArg (c :: ·) hrest, hend⟩

/-- No scancode stands for anything else. -/
theorem typeable_of_decode {m : Mods} {sc c : UInt8} (hc : m.decode sc = some c) :
    Typeable c := by
  have hall : ∀ b sc, ∀ c ∈ decodeIn b sc, Typeable c := by
    intro b sc
    refine Words.of_lt sc sc.toNat_lt ?_
    cases b <;> decide +kernel
  exact hall _ _ c hc

theorem typeable_of_mem {m : Mods} {scs : List UInt8} {c : UInt8} (hc : c ∈ decodeStream m scs) :
    Typeable c := by
  induction scs generalizing m with
  | nil => cases hc
  | cons sc scs ih =>
    rcases List.mem_append.mp hc with hc | hc
    · exact typeable_of_decode (Option.mem_toList.mp hc)
    · exact ih hc

/-- The keys that put all flags back: Shift, Ctrl and Alt come up, and Caps Lock is pressed if it is
on. -/
def release (m : Mods) : List UInt8 :=
  [0xAA, 0x9D, 0xB8] ++ if m.caps = 0 then [] else [0x3A]

theorem decode_release (m : Mods) :
    decodeStream m (release m) = [] ∧ (release m).foldl Mods.step m = Mods.initial := by
  have hnone (sc : UInt8) (hsc : ¬TypesCharacter sc) (m : Mods) : m.decode sc = none :=
    (decode_eq_none_iff m sc).mpr hsc
  rw [release]
  constructor
  · split
    · simp [decodeStream, hnone 0xAA (by decide), hnone 0x9D (by decide), hnone 0xB8 (by decide)]
    · simp [decodeStream, hnone 0xAA (by decide), hnone 0x9D (by decide), hnone 0xB8 (by decide),
        hnone 0x3A (by decide)]
  · have hup : [0xAA, 0x9D, 0xB8].foldl Mods.step m = ⟨0, 0, 0, m.caps⟩ := rfl
    rw [List.foldl_append, hup]
    split
    · rename_i hcaps
      rw [hcaps]
      rfl
    · rename_i hcaps
      exact congrArg (Mods.mk 0 0 0) (if_neg hcaps)

/-- **What the decoder can be brought to say**, in whatever state it is: every text of these
characters, and no other. -/
theorem decodeStream_eq_iff (m : Mods) (text : List UInt8) :
    (∃ scs, decodeStream m scs = text) ↔ ∀ c ∈ text, Typeable c := by
  constructor
  · rintro ⟨scs, rfl⟩ c hc
    exact typeable_of_mem hc
  · intro htext
    obtain ⟨hnone, hmods⟩ := decode_release m
    refine ⟨release m ++ text.flatMap strokes, ?_⟩
    rw [decodeStream_append, hnone, hmods, List.nil_append]
    exact (decodeStream_strokes htext).1

end Aetherion.Shell
