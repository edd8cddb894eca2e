import Aetherion.Ai.History

/-!
# The string functions

The rest of `kernel/string.c`, on memory: `strlen`, `strcat`, `strncpy` and `strchr`, beside
`strcpy`.  Each is one loop or two over the characters, and what it does to memory is one store
(`strncpy_eq`, `strcat_eq`), whatever the strings overlap in as long as the copy does not run into
what it still has to read.

A string that is added to itself is such a case: its terminator is the first thing that goes, and
`strcat` never comes to another (`strcat_self`).
-/

set_option autoImplicit false

namespace Aetherion.Strings

open Ai (strcpy)

/-- `while (*s++) len++;`, for at most so many characters. -/
def strlenLoop : ℕ → Ram → ℕ → ℕ → Option ℕ
  | 0, _, _, _ => none
  | fuel + 1, m, s, len => if m s = 0 then some len else strlenLoop fuel m (s + 1) (len + 1)

def strlen (fuel : ℕ) (m : Ram) (s : ℕ) : Option ℕ := strlenLoop fuel m s 0

/-- The loop at the end is the one of `strcpy`. -/
def strcat (fuel : ℕ) (m : Ram) (dest src : ℕ) : Option Ram :=
  (strlen fuel m dest).bind fun len ↦ strcpy fuel m (dest + len) src

/-- `for (i = 0; i < n && src[i]; i++) dest[i] = src[i];`, with what is left of `n`. -/
def copyLoop (dest src : ℕ) : ℕ → Ram → ℕ → Ram × ℕ
  | 0, m, i => (m, i)
  | left + 1, m, i =>
    if m (src + i) = 0 then (m, i)
    else copyLoop dest src left (m.store (dest + i) [m (src + i)]) (i + 1)

/-- `for (; i < n; i++) dest[i] = '\0';`, with what is left of `n`. -/
def padLoop (dest : ℕ) : ℕ → Ram → ℕ → Ram
  | 0, m, _ => m
  | left + 1, m, i => padLoop dest left (m.store (dest + i) [0]) (i + 1)

def strncpy (m : Ram) (dest src n : ℕ) : Ram :=
  let copied := copyLoop dest src n m 0
  padLoop dest (n - copied.2) copied.1 copied.2

/-- `(char)c`. -/
def charOf (c : Int32) : UInt8 := c.toInt8.toUInt8

/-- `strchr`: where the character is, or `NULL`. -/
def strchr : ℕ → Ram → ℕ → Int32 → Option (Option ℕ)
  | 0, _, _, _ => none
  | fuel + 1, m, s, c =>
    if m s = 0 then some none
    else if m s = charOf c then some (some s)
    else strchr fuel m (s + 1) c

variable {fuel : ℕ} {m : Ram} {a dest src : ℕ} {s t : List UInt8}

/-! ## Looking -/

theorem strlenLoop_eq (h : m.StringAt a s) (hfuel : s.length < fuel) (len : ℕ) :
    strlenLoop fuel m a len = some (len + s.length) := by
  induction s generalizing fuel a len with
  | nil =>
    obtain ⟨fuel, rfl⟩ := Nat.exists_eq_add_one_of_ne_zero (Nat.ne_zero_of_lt hfuel)
    rw [strlenLoop, if_pos h.nil]
    rfl
  | cons c s ih =>
    obtain ⟨fuel, rfl⟩ := Nat.exists_eq_add_one_of_ne_zero (Nat.ne_zero_of_lt hfuel)
    obtain ⟨hc, hne, hrest⟩ := h.cons
    rw [List.length_cons] at hfuel ⊢
    rw [strlenLoop, hc, if_neg hne, ih hrest (by omega), Nat.add_right_comm, Nat.add_assoc]

/-- It takes one pass more than there are characters. -/
theorem strlenLoop_short (h : m.StringAt a s) (hfuel : fuel ≤ s.length) (len : ℕ) :
    strlenLoop fuel m a len = none := by
  induction fuel generalizing s a len with
  | zero => rfl
  | succ fuel ih =>
    cases s with
    | nil => exact absurd hfuel (Nat.not_succ_le_zero _)
    | cons c s =>
      obtain ⟨hc, hne, hrest⟩ := h.cons
      rw [strlenLoop, hc, if_neg hne, ih hrest (Nat.le_of_succ_le_succ hfuel)]

/-- **`strlen`** returns the length. -/
theorem strlen_eq (h : m.StringAt a s) (hfuel : s.length < fuel) :
    strlen fuel m a = some s.length := by
  rw [strlen, strlenLoop_eq h hfuel, Nat.zero_add]

/-- **`strchr`** finds the first such character.  The terminator is not one of them. -/
theorem strchr_eq (h : m.StringAt a s) (hfuel : s.length < fuel) (c : Int32) :
    strchr fuel m a c = some ((s.idxOf? (charOf c)).map (a + ·)) := by
  induction s generalizing fuel a with
  | nil =>
    obtain ⟨fuel, rfl⟩ := Nat.exists_eq_add_one_of_ne_zero (Nat.ne_zero_of_lt hfuel)
    rw [strchr, if_pos h.nil]
    rfl
  | cons d s ih =>
    obtain ⟨fuel, rfl⟩ := Nat.exists_eq_add_one_of_ne_zero (Nat.ne_zero_of_lt hfuel)
    obtain ⟨hd, hne, hrest⟩ := h.cons
    rw [List.length_cons] at hfuel
    rw [strchr, hd, if_neg hne, List.idxOf?_cons]
    by_cases hfound : d = charOf c
    · simp [hfound]
    · rw [if_neg hfound, ih hrest (by omega), if_neg (by simpa using hfound), Option.map_map]
      congr 2
      funext i
      rw [Function.comp_apply, Nat.add_right_comm, Nat.add_assoc]

/-! ## Copying -/

/-- **A copy is a store**, if it does not reach what it has yet to read. -/
theorem strcpy_forward (h : m.StringAt src s) (hfuel : s.length < fuel)
    (hapart : dest ≤ src ∨ src + s.length < dest) :
    strcpy fuel m dest src = some (m.store dest (s ++ [0])) := by
  induction s generalizing fuel m dest src with
  | nil =>
    obtain ⟨fuel, rfl⟩ := Nat.exists_eq_add_one_of_ne_zero (Nat.ne_zero_of_lt hfuel)
    rw [strcpy, if_pos h.nil, h.nil]
    rfl
  | cons c s ih =>
    obtain ⟨fuel, rfl⟩ := Nat.exists_eq_add_one_of_ne_zero (Nat.ne_zero_of_lt hfuel)
    obtain ⟨hc, hne, hrest⟩ := h.cons
    rw [List.length_cons] at hfuel hapart
    have hrest' : (m.store dest [c]).StringAt (src + 1) s :=
      hrest.store (by rw [List.length_singleton]; omega)
    rw [strcpy, hc, if_neg hne, ih hrest' (by omega) (by omega),
      show dest + 1 = dest + [c].length from rfl, Ram.store_append]
    rfl

/-- **A copy to a place further on in the same string does not end**: what it comes to is what it
has stored. -/
theorem strcpy_overrun (hlt : src < dest) (h : ∀ x, src ≤ x → x < dest → m x ≠ 0) (fuel : ℕ) :
    strcpy fuel m dest src = none := by
  induction fuel generalizing m dest src with
  | zero => rfl
  | succ fuel ih =>
    have hne := h src le_rfl hlt
    rw [strcpy, if_neg hne]
    refine ih (by omega) fun x hlow hhigh ↦ ?_
    rcases Nat.lt_or_eq_of_le (Nat.le_of_lt_succ hhigh) with hx | rfl
    · rw [Ram.store_apart m (.inl hx)]
      exact h x (by omega) hx
    · rwa [Ram.store_head]

/-- **`strcat`** stores the other string over the terminator. -/
theorem strcat_eq (hdest : m.StringAt dest s) (hsrc : m.StringAt src t) (hs : s.length < fuel)
    (ht : t.length < fuel) (hapart : dest + s.length ≤ src ∨ src + t.length < dest + s.length) :
    strcat fuel m dest src = some (m.store (dest + s.length) (t ++ [0])) := by
  rw [strcat, strlen_eq hdest hs, Option.bind_some, strcpy_forward hsrc ht hapart]

/-- **Added to itself**, a string that is not empty has no end. -/
theorem strcat_self (h : m.StringAt a s) (hne : s ≠ []) (fuel : ℕ) :
    strcat fuel m a a = none := by
  have hpos := List.length_pos_iff.mpr hne
  have hover (n : ℕ) : strcpy n m (a + s.length) a = none := by
    refine strcpy_overrun (by omega) (fun x hlow hhigh hzero ↦ ?_) n
    have hchar := h.char (x - a) (by omega)
    rw [Nat.add_sub_cancel' hlow, hzero] at hchar
    exact h.no_zero (hchar ▸ List.getElem_mem _)
  rcases Nat.lt_or_ge s.length fuel with hlt | hge
  · rw [strcat, strlen_eq h hlt, Option.bind_some, hover]
  · rw [strcat, strlen, strlenLoop_short h hge, Option.bind_none]

theorem copyLoop_eq (left : ℕ) {i : ℕ} (h : m.StringAt (src + i) s)
    (hapart : dest ≤ src ∨ src + i + s.length < dest + i) :
    copyLoop dest src left m i = (m.store (dest + i) (s.take left), i + min left s.length) := by
  induction left generalizing m s i with
  | zero => rw [copyLoop, List.take_zero, Ram.store_nil, Nat.zero_min, Nat.add_zero]
  | succ left ih =>
    cases s with
    | nil =>
      rw [copyLoop, if_pos h.nil, List.take_nil, Ram.store_nil, List.length_nil, Nat.min_zero,
        Nat.add_zero]
    | cons c s =>
      obtain ⟨hc, hne, hrest⟩ := h.cons
      rw [List.length_cons] at hapart ⊢
      have hrest' : (m.store (dest + i) [c]).StringAt (src + (i + 1)) s :=
        hrest.store (by rw [List.length_singleton]; omega)
      rw [copyLoop, hc, if_neg hne, ih hrest' (by omega), List.take_succ_cons,
        Nat.succ_min_succ, show dest + (i + 1) = dest + i + [c].length from rfl, Ram.store_append,
        Nat.add_right_comm, Nat.add_assoc]
      rfl

theorem padLoop_eq (left : ℕ) (m : Ram) (i : ℕ) :
    padLoop dest left m i = m.store (dest + i) (List.replicate left 0) := by
  induction left generalizing m i with
  | zero => rw [padLoop, List.replicate_zero, Ram.store_nil]
  | succ left ih =>
    rw [padLoop, ih, List.replicate_succ,
      show dest + (i + 1) = dest + i + [(0 : UInt8)].length from rfl, Ram.store_append]
    rfl

/-- **`strncpy`** stores exactly `n` bytes: as much of the string as fits, and zeros. -/
theorem strncpy_eq (h : m.StringAt src s) (hapart : dest ≤ src ∨ src + s.length < dest) (n : ℕ) :
    strncpy m dest src n =
      m.store dest (s.take n ++ List.replicate (n - s.length) 0) := by
  have hcopied := copyLoop_eq n (i := 0) h hapart
  rw [Nat.add_zero, Nat.zero_add] at hcopied
  simp only [strncpy, hcopied]
  rw [padLoop_eq, ← List.length_take, Ram.store_append, List.length_take,
    show n - min n s.length = n - s.length by omega]

end Aetherion.Strings
