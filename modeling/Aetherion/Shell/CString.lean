import Mathlib.Data.List.Basic
import Mathlib.Data.Nat.Notation
import Mathlib.Data.Int.Notation

/-!
# C strings

`kernel/string.c`.  A C string is the list of its bytes up to the terminator; moving a pointer
along it is taking a tail.

`atoi` reads a number modulo `2 ^ 32`: on a string of digits it returns the `int` with the low 32
bits of the number they stand for (`atoi_append`).
-/

set_option autoImplicit false

namespace Aetherion.CString

/-- The bytes of a text. -/
def ofString (s : String) : List UInt8 := s.toList.map fun c ↦ .ofNat c.toNat

/-- The byte a pointer into the string points to. -/
def deref (s : List UInt8) : UInt8 := s.headD 0

/-- `while (*s1 && *s1 == *s2) { s1++; s2++; } return *s1 - *s2`. -/
def strcmp : List UInt8 → List UInt8 → ℤ
  | a :: s₁, b :: s₂ => if a = b then strcmp s₁ s₂ else a.toNat - b.toNat
  | s₁, s₂ => (deref s₁).toNat - (deref s₂).toNat

/-- `strcmp` on the first `n` bytes. -/
def strncmp : List UInt8 → List UInt8 → ℕ → ℤ
  | _, _, 0 => 0
  | a :: s₁, b :: s₂, n + 1 => if a = b then strncmp s₁ s₂ n else a.toNat - b.toNat
  | s₁, s₂, _ + 1 => (deref s₁).toNat - (deref s₂).toNat

/-- `*c >= '0' && *c <= '9'`. -/
def isDigit (c : UInt8) : Bool := 48 ≤ c ∧ c ≤ 57

/-- `while (*p == ' ') p++`. -/
def skipSpaces (p : List UInt8) : List UInt8 := p.dropWhile (· = 32)

/-- `while (*p >= '0' && *p <= '9') p++`. -/
def skipDigits (p : List UInt8) : List UInt8 := p.dropWhile isDigit

/-- The loop of `atoi`. -/
def atoiDigits (str : List UInt8) : Int32 :=
  (str.takeWhile isDigit).foldl (fun res c ↦ res * 10 + .ofNat (c.toNat - 48)) 0

/-- `int` arithmetic wraps around. -/
def atoi (str : List UInt8) : Int32 :=
  match str with
  | 45 :: rest => atoiDigits rest * -1
  | _ => atoiDigits str * 1

theorem ne_terminator {c : UInt8} {s : List UInt8} (h : 0 ∉ c :: s) : c.toNat ≠ 0 := fun hc ↦
  h (List.mem_cons.mpr (Or.inl ((UInt8.toNat_inj (b := 0)).mp hc).symm))

/-- Strings without a terminator inside are the same exactly when `strcmp` says so. -/
theorem strcmp_eq_zero_iff {s₁ s₂ : List UInt8} (h₁ : 0 ∉ s₁) (h₂ : 0 ∉ s₂) :
    strcmp s₁ s₂ = 0 ↔ s₁ = s₂ := by
  induction s₁ generalizing s₂ with
  | nil =>
    cases s₂ with
    | nil => exact iff_of_true rfl rfl
    | cons b s₂ =>
      have hb := ne_terminator h₂
      exact iff_of_false (by change ((0 : ℕ) : ℤ) - b.toNat ≠ 0; omega) (List.cons_ne_nil _ _).symm
  | cons a s₁ ih =>
    cases s₂ with
    | nil =>
      have ha := ne_terminator h₁
      exact iff_of_false (by change (a.toNat : ℤ) - (0 : ℕ) ≠ 0; omega) (List.cons_ne_nil _ _)
    | cons b s₂ =>
      rw [strcmp, List.cons.injEq]
      split
      · rw [ih (fun h ↦ h₁ (List.mem_cons_of_mem _ h)) fun h ↦ h₂ (List.mem_cons_of_mem _ h)]
        exact (and_iff_right ‹_›).symm
      · rename_i hab
        have hne : a.toNat ≠ b.toNat := fun h ↦ hab (UInt8.toNat_inj.mp h)
        exact iff_of_false (by omega) fun h ↦ hab h.1

/-! ## Numbers in decimal -/

/-- A number written out: at least one digit, and nothing else. -/
structure Digits where
  /-- The digits, highest first. -/
  bytes : List UInt8
  /-- There is a digit. -/
  ne_nil : bytes ≠ []
  /-- All of them are digits. -/
  digits : ∀ c ∈ bytes, isDigit c

/-- The number some digits stand for. -/
def Digits.value (d : Digits) : ℕ := d.bytes.foldl (fun n c ↦ n * 10 + (c.toNat - 48)) 0

/-- What stands behind a number: nothing, or something that does not go on with it. -/
def NoDigitFirst (rest : List UInt8) : Prop := ∀ c ∈ rest.head?, ¬isDigit c

theorem noDigitFirst_nil : NoDigitFirst [] := by simp [NoDigitFirst]

theorem noDigitFirst_space (rest : List UInt8) : NoDigitFirst (32 :: rest) := by
  simp [NoDigitFirst, isDigit]

variable (d : Digits) {rest : List UInt8}

/-- A number begins with a digit, so with no sign and with no space. -/
theorem Digits.exists_cons : ∃ c cs, d.bytes = c :: cs ∧ isDigit c := by
  obtain ⟨c, cs, hcs⟩ := List.exists_cons_of_ne_nil d.ne_nil
  exact ⟨c, cs, hcs, d.digits c (by simp [hcs])⟩

theorem takeWhile_digits (hrest : NoDigitFirst rest) :
    (d.bytes ++ rest).takeWhile isDigit = d.bytes := by
  rw [List.takeWhile_append_of_pos d.digits]
  cases rest with
  | nil => simp
  | cons c rest => rw [List.takeWhile_cons_of_neg (hrest c rfl), List.append_nil]

theorem skipDigits_append (hrest : NoDigitFirst rest) : skipDigits (d.bytes ++ rest) = rest := by
  rw [skipDigits, List.dropWhile_append_of_pos d.digits]
  cases rest with
  | nil => rfl
  | cons c rest => rw [List.dropWhile_cons_of_neg (hrest c rfl)]

/-- Any number of spaces in front of a number are skipped. -/
theorem skipSpaces_append (n : ℕ) :
    skipSpaces (List.replicate n 32 ++ (d.bytes ++ rest)) = d.bytes ++ rest := by
  obtain ⟨c, cs, hcs, hc⟩ := d.exists_cons
  rw [skipSpaces, List.dropWhile_append_of_pos (by simp), hcs, List.cons_append,
    List.dropWhile_cons_of_neg]
  intro hspace
  rw [of_decide_eq_true hspace] at hc
  exact absurd hc (by decide)

/-- The digits add up modulo `2 ^ 32`. -/
theorem atoiDigits_append (hrest : NoDigitFirst rest) :
    atoiDigits (d.bytes ++ rest) = Int32.ofNat d.value := by
  have hloop (cs : List UInt8) (n : ℕ) :
      cs.foldl (fun res c ↦ res * 10 + .ofNat (c.toNat - 48)) (Int32.ofNat n) =
        Int32.ofNat (cs.foldl (fun n c ↦ n * 10 + (c.toNat - 48)) n) := by
    induction cs generalizing n with
    | nil => rfl
    | cons c cs ih =>
      rw [List.foldl_cons, List.foldl_cons, ← ih, Int32.ofNat_add, Int32.ofNat_mul]
      rfl
  rw [atoiDigits, takeWhile_digits d hrest]
  exact hloop d.bytes 0

/-- **`atoi` reads a number modulo `2 ^ 32`.** -/
theorem atoi_append (hrest : NoDigitFirst rest) :
    atoi (d.bytes ++ rest) = Int32.ofNat d.value := by
  obtain ⟨c, cs, hcs, hc⟩ := d.exists_cons
  have hsign : c ≠ 45 := by
    rintro rfl
    exact absurd hc (by decide)
  rw [← atoiDigits_append d hrest, hcs, List.cons_append, atoi]
  · exact Int32.mul_one _
  · intro r hr
    exact hsign (List.cons.inj hr).1

end Aetherion.CString
