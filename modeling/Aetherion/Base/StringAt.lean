import Aetherion.Base.Ram

/-!
# Terminated strings in memory

A string in memory is as many bytes as it has characters, none of them zero, and a zero behind
them; what comes after the zero does not belong to it.  A string that is stored is there
(`stringAt_store`), and stays there as long as nothing is stored over it (`StringAt.store`).
-/

set_option autoImplicit false

namespace Ram

/-- The string `s` is at `a`. -/
structure StringAt (m : Ram) (a : ℕ) (s : List UInt8) : Prop where
  no_zero : 0 ∉ s
  char : ∀ i (hi : i < s.length), m (a + i) = s[i]
  terminator : m (a + s.length) = 0

variable {m : Ram} {a b : ℕ} {c : UInt8} {s bs : List UInt8}

/-- A string that is stored with its terminator is there, whatever is stored behind it. -/
theorem stringAt_store_more (m : Ram) (a : ℕ) (hs : 0 ∉ s) (bs : List UInt8) :
    (m.store a (s ++ 0 :: bs)).StringAt a s where
  no_zero := hs
  char i hi := by
    rw [store, if_pos (Nat.le_add_right ..), Nat.add_sub_cancel_left,
      List.getElem?_append_left hi, List.getElem?_eq_getElem hi, Option.getD_some]
  terminator := by
    rw [store, if_pos (Nat.le_add_right ..), Nat.add_sub_cancel_left,
      List.getElem?_append_right le_rfl, Nat.sub_self]
    rfl

/-- **A string that is stored with its terminator is there**, whatever stood there before. -/
theorem stringAt_store (m : Ram) (a : ℕ) (hs : 0 ∉ s) : (m.store a (s ++ [0])).StringAt a s :=
  stringAt_store_more m a hs []

/-- **A store beside it leaves a string alone.** -/
theorem StringAt.store (h : m.StringAt a s) (hapart : b + bs.length ≤ a ∨ a + s.length < b) :
    (m.store b bs).StringAt a s where
  no_zero := h.no_zero
  char i hi := by rw [store_apart m (by omega), h.char i hi]
  terminator := by rw [store_apart m (by omega), h.terminator]

/-- **A store over the first characters** of a string leaves the others. -/
theorem StringAt.overwrite {t : List UInt8} (h : m.StringAt a s) (ht : 0 ∉ t)
    (hle : t.length ≤ s.length) : (m.store a t).StringAt a (t ++ s.drop t.length) where
  no_zero hmem := (List.mem_append.mp hmem).elim ht fun hdrop ↦
    h.no_zero (List.drop_subset _ _ hdrop)
  char i hi := by
    rw [List.length_append, List.length_drop] at hi
    rcases Nat.lt_or_ge i t.length with hlt | hge
    · rw [Ram.store, if_pos (Nat.le_add_right ..), Nat.add_sub_cancel_left,
        List.getElem?_eq_getElem hlt, Option.getD_some, List.getElem_append_left hlt]
    · rw [store_apart m (by omega), h.char i (by omega), List.getElem_append_right hge,
        List.getElem_drop]
      congr 1
      omega
  terminator := by
    rw [List.length_append, List.length_drop, Nat.add_sub_cancel' hle,
      store_apart m (by omega), h.terminator]

/-- **A string stored over the terminator** of another makes it longer. -/
theorem StringAt.append {t : List UInt8} (h : m.StringAt a s) (ht : 0 ∉ t) :
    (m.store (a + s.length) (t ++ [0])).StringAt a (s ++ t) where
  no_zero hmem := (List.mem_append.mp hmem).elim h.no_zero ht
  char i hi := by
    have hnew := stringAt_store m (a + s.length) ht
    rw [List.length_append] at hi
    rcases Nat.lt_or_ge i s.length with hlt | hge
    · rw [store_apart m (by omega), h.char i hlt, List.getElem_append_left hlt]
    · have hchar := hnew.char (i - s.length) (by omega)
      rw [show a + s.length + (i - s.length) = a + i by omega] at hchar
      rw [hchar, List.getElem_append_right hge]
  terminator := by
    have hend := (stringAt_store m (a + s.length) ht).terminator
    rwa [Nat.add_assoc, ← List.length_append] at hend

/-- The empty string is a terminator. -/
theorem StringAt.nil (h : m.StringAt a []) : m a = 0 := h.terminator

/-- The first character of a string, and the rest. -/
theorem StringAt.cons (h : m.StringAt a (c :: s)) : m a = c ∧ c ≠ 0 ∧ m.StringAt (a + 1) s := by
  refine ⟨h.char 0 (Nat.zero_lt_succ _), ?_, ?_, fun i hi ↦ ?_, ?_⟩
  · rintro rfl
    exact h.no_zero List.mem_cons_self
  · exact fun hmem ↦ h.no_zero (List.mem_cons_of_mem _ hmem)
  · have hchar := h.char (i + 1) (by simpa using hi)
    rwa [List.getElem_cons_succ, show a + (i + 1) = a + 1 + i by omega] at hchar
  · have hend := h.terminator
    rwa [List.length_cons, show a + (s.length + 1) = a + 1 + s.length by omega] at hend

/-- There is only one string at an address. -/
theorem StringAt.unique {t : List UInt8} (hs : m.StringAt a s) (ht : m.StringAt a t) : s = t := by
  induction s generalizing a t with
  | nil =>
    cases t with
    | nil => rfl
    | cons d t => exact absurd (ht.cons.1.symm.trans hs.nil) ht.cons.2.1
  | cons c s ih =>
    obtain ⟨hc, hne, hrest⟩ := hs.cons
    cases t with
    | nil => exact absurd (hc.symm.trans ht.nil) hne
    | cons d t =>
      obtain ⟨hd, -, hrest'⟩ := ht.cons
      rw [ih hrest hrest', hc.symm.trans hd]

end Ram
