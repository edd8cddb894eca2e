import Aetherion.Ai.Sprintf
import Aetherion.Base.StringAt
import Aetherion.Shell.Dispatch
import Aetherion.Shell.ReadCommand

/-!
# Numbers there and back

`sprintf` and `atoi` of `kernel/string.c` are the two directions between an `int` and its digits.
`atoi` reads what `%d` has written, for every number but the most negative one, whose digits are
none (`atoi_printed`).

The `read` command takes numbers apart by skipping digits, so it stops at a minus sign: what it
reads from then on is the same number again.  `parse_of_sprintf_iff` says for which three numbers
that makes no difference.
-/

set_option autoImplicit false

namespace Aetherion.Strings

open Ai CString

/-! ## Digits -/

theorem isDigit_last (n : ℕ) : isDigit (.ofNat (48 + n % 10)) := by
  have hdigit : ∀ k < 10, isDigit (.ofNat (48 + k)) := by decide
  exact hdigit _ (Nat.mod_lt _ Nat.succ_pos')

theorem toNat_last (n : ℕ) : (UInt8.ofNat (48 + n % 10)).toNat - 48 = n % 10 := by
  rw [UInt8.toNat_ofNat']
  omega

theorem isDigit_of_mem_repr (n : ℕ) : ∀ c ∈ ofString n.repr, isDigit c := by
  induction n using Nat.strong_induction_on with
  | _ n ih =>
    rw [ofString_repr]
    intro c hc
    rcases List.mem_append.mp hc with hhigh | hlast
    · split at hhigh
      · exact absurd hhigh List.not_mem_nil
      · exact ih _ (by omega) c hhigh
    · rw [List.mem_singleton.mp hlast]
      exact isDigit_last n

/-- The digits of a number. -/
def digitsOf (n : ℕ) : Digits where
  bytes := ofString n.repr
  ne_nil := by
    rw [ofString_repr]
    exact List.append_ne_nil_of_right_ne_nil _ (List.cons_ne_nil _ _)
  digits := isDigit_of_mem_repr n

theorem bytes_digitsOf (n : ℕ) : (digitsOf n).bytes = ofString n.repr := rfl

/-- **They stand for it.** -/
theorem value_digitsOf (n : ℕ) : (digitsOf n).value = n := by
  induction n using Nat.strong_induction_on with
  | _ n ih =>
    rw [Digits.value, bytes_digitsOf, ofString_repr, List.foldl_append, List.foldl_cons,
      List.foldl_nil, toNat_last]
    split
    · rw [List.foldl_nil]
      omega
    · have hhigh := ih (n / 10) (by omega)
      rw [Digits.value, bytes_digitsOf] at hhigh
      rw [hhigh]
      omega

/-! ## One number -/

/-- What `%d` writes. -/
def printed (v : Int32) : List UInt8 := (tempOf v).reverse

/-- What `atoi` reads then. -/
def readBack (v : Int32) : Int32 := if v = .minValue then 0 else v

theorem readBack_eq_iff (v : Int32) : readBack v = v ↔ v ≠ .minValue := by
  rw [readBack]
  split
  · rename_i hmin
    exact iff_of_false (by rw [hmin]; decide) (not_not_intro hmin)
  · rename_i hmin
    exact iff_of_true rfl hmin

theorem ne_minValue {v : Int32} (h : 0 ≤ v.toInt) : v ≠ .minValue := by
  rintro rfl
  exact absurd h (by decide)

theorem printed_nonneg {v : Int32} (h : 0 ≤ v.toInt) :
    printed v = (digitsOf v.toInt.toNat).bytes := by
  rw [printed, tempOf_reverse (ne_minValue h), decimal, Int.toString_eq_repr, Int.repr_eq_if,
    if_pos h]
  rfl

theorem printed_neg {v : Int32} (h : v.toInt < 0) (hmin : v ≠ .minValue) :
    printed v = 45 :: (digitsOf (-v.toInt).toNat).bytes := by
  rw [printed, tempOf_reverse hmin, decimal, Int.toString_eq_repr, Int.repr_eq_if,
    if_neg (Int.not_le.mpr h), ofString_append]
  rfl

theorem printed_minValue : printed .minValue = [45, 40] := tempOf_minValue

/-- **`atoi` reads what `sprintf` writes**, but for the most negative number. -/
theorem atoi_printed (v : Int32) {rest : List UInt8} (hrest : NoDigitFirst rest) :
    atoi (printed v ++ rest) = readBack v := by
  have hlt := v.toInt_lt
  rcases Int.lt_or_le v.toInt 0 with hneg | hnonneg
  · rw [readBack]
    split
    · rename_i hmin
      rw [hmin, printed_minValue, List.cons_append, List.cons_append, atoi, atoiDigits,
        List.takeWhile_cons_of_neg (by decide)]
      rfl
    · rename_i hmin
      have hopp := toInt_neg_of_ne hmin
      have hopplt := (-v).toInt_lt
      have hnat : Int32.ofNat (-v.toInt).toNat = -v := by
        rw [← Int32.toInt_inj, ← hopp, Int32.toInt_ofNat_of_lt (by omega)]
        omega
      rw [printed_neg hneg hmin, List.cons_append, atoi, atoiDigits_append _ hrest, value_digitsOf,
        hnat, Int32.mul_comm, ← Int32.neg_eq_neg_one_mul, Int32.neg_neg]
  · rw [printed_nonneg hnonneg, atoi_append _ hrest, value_digitsOf, readBack,
      if_neg (ne_minValue hnonneg), ← Int32.toInt_inj, Int32.toInt_ofNat_of_lt (by omega),
      Int.toNat_of_nonneg hnonneg]

/-- It begins with a digit or with a minus sign. -/
theorem printed_cons (v : Int32) : ∃ c cs, printed v = c :: cs ∧ c ≠ 32 ∧
    (isDigit c ↔ 0 ≤ v.toInt) := by
  rcases Int.lt_or_le v.toInt 0 with hneg | hnonneg
  · have hminus : ∃ cs, printed v = 45 :: cs := by
      by_cases hmin : v = .minValue
      · exact ⟨[40], by rw [hmin, printed_minValue]⟩
      · exact ⟨_, printed_neg hneg hmin⟩
    obtain ⟨cs, hcs⟩ := hminus
    exact ⟨45, cs, hcs, by decide, iff_of_false (by decide) (by omega)⟩
  · obtain ⟨c, cs, hcs, hc⟩ := (digitsOf v.toInt.toNat).exists_cons
    refine ⟨c, cs, (printed_nonneg hnonneg).trans hcs, ?_, iff_of_true hc hnonneg⟩
    rintro rfl
    exact absurd hc (by decide)

/-- Spaces in front of it are skipped. -/
theorem skipSpaces_printed (v : Int32) (rest : List UInt8) (n : ℕ) :
    skipSpaces (List.replicate n 32 ++ (printed v ++ rest)) = printed v ++ rest := by
  obtain ⟨c, cs, hcs, hc, -⟩ := printed_cons v
  rw [skipSpaces, List.dropWhile_append_of_pos (by simp), hcs, List.cons_append,
    List.dropWhile_cons_of_neg (by simpa using hc)]

/-- **It is passed over exactly if it is not negative.** -/
theorem skipDigits_printed (v : Int32) {rest : List UInt8} (hrest : NoDigitFirst rest) :
    skipDigits (printed v ++ rest) = if 0 ≤ v.toInt then rest else printed v ++ rest := by
  split
  · rename_i hnonneg
    rw [printed_nonneg hnonneg, skipDigits_append _ hrest]
  · rename_i hneg
    obtain ⟨c, cs, hcs, -, hc⟩ := printed_cons v
    rw [hcs, List.cons_append, skipDigits, List.dropWhile_cons_of_neg (fun hd ↦ hneg (hc.mp hd))]

/-! ## A command -/

/-- `"read %d %d %d"`. -/
def readFormat : List UInt8 := Shell.readWord ++ [37, 100, 32, 37, 100, 32, 37, 100]

/-- What is written with these numbers. -/
def readText (disk lba count : Int32) : List UInt8 :=
  Shell.readWord ++ (printed disk ++ 32 :: (printed lba ++ 32 :: (printed count ++ [])))

theorem expansion_readText (disk lba count : Int32) :
    Expansion printed readFormat [.int disk, .int lba, .int count] (readText disk lba count) :=
  .chars (by decide) (.int _ (.char (by decide) (.int _ (.char (by decide) (.int _ .nil)))))

theorem no_zero_digits (d : Digits) : 0 ∉ d.bytes := fun hmem ↦
  absurd (d.digits 0 hmem) (by decide)

theorem no_zero_printed (v : Int32) : 0 ∉ printed v := by
  rcases Int.lt_or_le v.toInt 0 with hneg | hnonneg
  · by_cases hmin : v = .minValue
    · rw [hmin, printed_minValue]
      decide
    · rw [printed_neg hneg hmin]
      simp [no_zero_digits]
  · rw [printed_nonneg hnonneg]
    exact no_zero_digits _

theorem no_zero_readText (disk lba count : Int32) : 0 ∉ readText disk lba count := by
  simp [readText, Shell.readWord, no_zero_printed]

/-- **What the parser makes of it.** -/
theorem parseRead_readText (disk lba count : Int32) :
    Shell.parseRead (readText disk lba count) =
      if 0 ≤ disk.toInt then
        if 0 ≤ lba.toInt then ⟨readBack disk, readBack lba, readBack count⟩
        else ⟨readBack disk, readBack lba, readBack lba⟩
      else ⟨readBack disk, readBack disk, readBack disk⟩ := by
  have hskip (v : Int32) (rest : List UInt8) :
      skipSpaces (printed v ++ rest) = printed v ++ rest := skipSpaces_printed v rest 0
  have hspace (v : Int32) (rest : List UInt8) :
      skipSpaces (32 :: (printed v ++ rest)) = printed v ++ rest := skipSpaces_printed v rest 1
  simp only [Shell.parseRead, readText, Shell.readWord, List.cons_append, List.nil_append,
    List.drop_succ_cons, List.drop_zero]
  rw [hskip, skipDigits_printed disk (noDigitFirst_space _)]
  split
  · rw [hspace, skipDigits_printed lba (noDigitFirst_space _)]
    split
    · rw [hspace, atoi_printed disk (noDigitFirst_space _), atoi_printed lba (noDigitFirst_space _),
        atoi_printed count noDigitFirst_nil]
    · rw [hskip, atoi_printed disk (noDigitFirst_space _), atoi_printed lba (noDigitFirst_space _)]
  · rename_i hneg
    rw [hskip, skipDigits_printed disk (noDigitFirst_space _), if_neg hneg, hskip,
      atoi_printed disk (noDigitFirst_space _)]

/-- **`sprintf` and the parser of `read` are inverse to each other** on three numbers exactly if
those after a negative one are the same number, and the last one can be written. -/
theorem parse_of_sprintf_iff (m : Ram) (buffer : ℕ) (disk lba count : Int32) :
    ∃ r text, sprintf m buffer readFormat [.int disk, .int lba, .int count] = some r ∧
      r.mem.StringAt buffer text ∧ (Shell.parseRead text = ⟨disk, lba, count⟩ ↔
        (0 ≤ disk.toInt ∨ disk = lba) ∧ (0 ≤ lba.toInt ∨ lba = count) ∧ count ≠ .minValue) := by
  refine ⟨_, readText disk lba count, sprintf_eq (expansion_readText disk lba count) m buffer,
    Ram.stringAt_store m buffer (no_zero_readText disk lba count), ?_⟩
  rw [parseRead_readText]
  split
  · rename_i hdisk
    split
    · rename_i hlba
      rw [Shell.ReadArgs.mk.injEq, readBack_eq_iff, readBack_eq_iff, readBack_eq_iff,
        and_iff_right (ne_minValue hdisk), and_iff_right (ne_minValue hlba),
        and_iff_right (.inl hdisk), and_iff_right (.inl hlba)]
    · rename_i hlba
      rw [Shell.ReadArgs.mk.injEq, readBack_eq_iff, readBack_eq_iff,
        and_iff_right (ne_minValue hdisk)]
      constructor
      · rintro ⟨hmin, hcount⟩
        rw [(readBack_eq_iff lba).mpr hmin] at hcount
        exact ⟨.inl hdisk, .inr hcount, hcount ▸ hmin⟩
      · rintro ⟨-, hsame, hmin⟩
        obtain rfl := hsame.resolve_left hlba
        exact ⟨hmin, (readBack_eq_iff lba).mpr hmin⟩
  · rename_i hdisk
    rw [Shell.ReadArgs.mk.injEq]
    constructor
    · rintro ⟨hself, hlba, hcount⟩
      rw [hself] at hlba hcount
      exact ⟨.inr hlba, .inr (hlba.symm.trans hcount), hcount ▸ (readBack_eq_iff disk).mp hself⟩
    · rintro ⟨hlba, hcount, hmin⟩
      obtain rfl := hlba.resolve_left hdisk
      obtain rfl := hcount.resolve_left hdisk
      have hself := (readBack_eq_iff disk).mpr hmin
      exact ⟨hself, hself, hself⟩

end Aetherion.Strings
