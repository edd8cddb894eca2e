import Mathlib.Data.Nat.Bitwise
import Mathlib.Data.List.Basic

/-!
# Bytes of machine words

A driver cuts a wide word into bytes, and the device at the other end puts the bytes together
again.  The word is taken apart with shifts and masks, as the program does it, and put together
with multiplication and addition, as arithmetic has it; `toNat_byte64` and `toNat_byte32` are the
bridge, and from them everything else is linear arithmetic.
-/

set_option autoImplicit false

namespace Words

/-- A statement about the bytes below `n` is one about the numbers below `n`. -/
@[elab_as_elim]
theorem of_lt {P : UInt8 → Prop} {n : ℕ} (x : UInt8) (hx : x.toNat < n)
    (h : ∀ k : Fin n, P (.ofNat k)) : P x := by
  have hk := h ⟨x.toNat, hx⟩
  rwa [UInt8.ofNat_toNat] at hk

theorem and_ff (n : ℕ) : n &&& 255 = n % 256 := Nat.and_two_pow_sub_one_eq_mod n 8

theorem and_0f (n : ℕ) : n &&& 15 = n % 16 := Nat.and_two_pow_sub_one_eq_mod n 4

/-- Where two numbers have no bit in common, one reaching up to bit `k` and the other starting
there, to join them is to add them. -/
theorem or_eq_add {a b : ℕ} (k : ℕ) (ha : a % 2 ^ k = 0) (hb : b < 2 ^ k) : a ||| b = a + b := by
  obtain ⟨c, rfl⟩ := Nat.dvd_of_mod_eq_zero ha
  rw [Nat.two_pow_add_eq_or_of_lt hb]

/-- The byte of a 64-bit word that starts at bit `k`. -/
theorem toNat_byte64 (x k : UInt64) (hk : k.toNat < 64) :
    ((x >>> k) &&& 0xFF).toUInt8.toNat = x.toNat / 2 ^ k.toNat % 256 := by
  simp only [UInt64.toNat_toUInt8, UInt64.toNat_and, UInt64.toNat_shiftRight,
    Nat.mod_eq_of_lt hk, Nat.shiftRight_eq_div_pow, show UInt64.toNat 0xFF = 255 from rfl, and_ff]
  omega

/-- The byte of a 32-bit word that starts at bit `k`. -/
theorem toNat_byte32 (x k : UInt32) (hk : k.toNat < 32) :
    ((x >>> k) &&& 0xFF).toUInt8.toNat = x.toNat / 2 ^ k.toNat % 256 := by
  simp only [UInt32.toNat_toUInt8, UInt32.toNat_and, UInt32.toNat_shiftRight,
    Nat.mod_eq_of_lt hk, Nat.shiftRight_eq_div_pow, show UInt32.toNat 0xFF = 255 from rfl, and_ff]
  omega

/-- The lowest byte of a 64-bit word. -/
theorem toNat_low64 (x : UInt64) : (x &&& 0xFF).toUInt8.toNat = x.toNat % 256 := by
  simpa using toNat_byte64 x 0 (by decide)

/-- The six lowest bytes of a 64-bit word. -/
theorem toNat_bytes48 (x : UInt64) :
    (x &&& 0xFF).toUInt8.toNat = x.toNat % 256 ∧
      ((x >>> 8) &&& 0xFF).toUInt8.toNat = x.toNat / 2 ^ 8 % 256 ∧
      ((x >>> 16) &&& 0xFF).toUInt8.toNat = x.toNat / 2 ^ 16 % 256 ∧
      ((x >>> 24) &&& 0xFF).toUInt8.toNat = x.toNat / 2 ^ 24 % 256 ∧
      ((x >>> 32) &&& 0xFF).toUInt8.toNat = x.toNat / 2 ^ 32 % 256 ∧
      ((x >>> 40) &&& 0xFF).toUInt8.toNat = x.toNat / 2 ^ 40 % 256 :=
  ⟨toNat_low64 x, toNat_byte64 x 8 (by decide), toNat_byte64 x 16 (by decide),
    toNat_byte64 x 24 (by decide), toNat_byte64 x 32 (by decide), toNat_byte64 x 40 (by decide)⟩

/-- The lowest byte of a 32-bit word. -/
theorem toNat_low32 (x : UInt32) : (x &&& 0xFF).toUInt8.toNat = x.toNat % 256 := by
  simpa using toNat_byte32 x 0 (by decide)

/-- The nibble of a 64-bit word that starts at bit `k`. -/
theorem toNat_nibble64 (x k : UInt64) (hk : k.toNat < 64) :
    ((x >>> k) &&& 0x0F).toNat = x.toNat / 2 ^ k.toNat % 16 := by
  simp only [UInt64.toNat_and, UInt64.toNat_shiftRight, Nat.mod_eq_of_lt hk,
    Nat.shiftRight_eq_div_pow, show UInt64.toNat 0x0F = 15 from rfl, and_0f]

/-- Clearing the low bits of a word, as an aligned allocation does. -/
theorem toNat_and_not_mask (x mask : UInt64) {k : ℕ} (hmask : mask.toNat = 2 ^ k - 1) :
    (x &&& ~~~mask).toNat = x.toNat - x.toNat % 2 ^ k := by
  have hdisjoint : (x.toBitVec &&& ~~~mask.toBitVec) &&& (x.toBitVec &&& mask.toBitVec) = 0#64 := by
    ext i hi
    simp only [BitVec.getElem_and, BitVec.getElem_not, BitVec.getElem_zero]
    cases x.toBitVec[i] <;> cases mask.toBitVec[i] <;> rfl
  have hsplit : (x.toBitVec &&& ~~~mask.toBitVec) ||| (x.toBitVec &&& mask.toBitVec) =
      x.toBitVec := by
    ext i hi
    simp only [BitVec.getElem_or, BitVec.getElem_and, BitVec.getElem_not]
    cases x.toBitVec[i] <;> cases mask.toBitVec[i] <;> rfl
  have hlow : (x &&& mask).toNat = x.toNat % 2 ^ k := by
    rw [UInt64.toNat_and, hmask, Nat.and_two_pow_sub_one_eq_mod]
  have hsum := BitVec.toNat_add_of_and_eq_zero hdisjoint
  rw [BitVec.add_eq_or_of_and_eq_zero _ _ hdisjoint, hsplit] at hsum
  change x.toNat = (x &&& ~~~mask).toNat + (x &&& mask).toNat at hsum
  omega

/-- The 32-bit word with these four bytes, lowest first. -/
def ofBytes32 (a b c d : UInt8) : UInt32 :=
  .ofNat (a.toNat + 256 * b.toNat + 65536 * c.toNat + 16777216 * d.toNat)

theorem toNat_ofBytes32 (a b c d : UInt8) : (ofBytes32 a b c d).toNat =
    a.toNat + 256 * b.toNat + 65536 * c.toNat + 16777216 * d.toNat := by
  have := a.toNat_lt; have := b.toNat_lt; have := c.toNat_lt; have := d.toNat_lt
  rw [ofBytes32, UInt32.toNat_ofNat', Nat.mod_eq_of_lt (by omega)]

/-- The bytes of a 32-bit word, lowest first. -/
def bytes32 (x : UInt32) : List UInt8 :=
  [(x &&& 0xFF).toUInt8, ((x >>> 8) &&& 0xFF).toUInt8, ((x >>> 16) &&& 0xFF).toUInt8,
    ((x >>> 24) &&& 0xFF).toUInt8]

@[simp] theorem length_bytes32 (x : UInt32) : (bytes32 x).length = 4 := rfl

/-- The bytes of a 16-bit word, lowest first. -/
def bytes16 (x : UInt16) : List UInt8 := [x.toUInt8, (x >>> 8).toUInt8]

@[simp] theorem length_bytes16 (x : UInt16) : (bytes16 x).length = 2 := rfl

/-- The 16-bit word with these two bytes, lowest first. -/
def ofBytes16 (a b : UInt8) : UInt16 := .ofNat (a.toNat + 256 * b.toNat)

theorem ofBytes16_bytes16 (x : UInt16) : ofBytes16 x.toUInt8 (x >>> 8).toUInt8 = x := by
  have hx := x.toNat_lt
  have hhigh : (x >>> 8).toUInt8.toNat = x.toNat / 256 % 256 := by
    rw [UInt16.toNat_toUInt8, UInt16.toNat_shiftRight, show UInt16.toNat 8 % 16 = 8 from rfl,
      Nat.shiftRight_eq_div_pow]
  apply UInt16.toNat_inj.mp
  rw [ofBytes16, UInt16.toNat_ofNat', UInt16.toNat_toUInt8, hhigh]
  omega

/-- A 64-bit word from its two halves, lower half first. -/
def ofHalves (lo hi : UInt32) : UInt64 := .ofNat (lo.toNat + 4294967296 * hi.toNat)

theorem toNat_ofHalves (lo hi : UInt32) :
    (ofHalves lo hi).toNat = lo.toNat + 4294967296 * hi.toNat := by
  have := lo.toNat_lt; have := hi.toNat_lt
  rw [ofHalves, UInt64.toNat_ofNat', Nat.mod_eq_of_lt (by omega)]

theorem ofBytes32_bytes32 (x : UInt32) :
    ofBytes32 (x &&& 0xFF).toUInt8 ((x >>> 8) &&& 0xFF).toUInt8 ((x >>> 16) &&& 0xFF).toUInt8
      ((x >>> 24) &&& 0xFF).toUInt8 = x := by
  have hx := x.toNat_lt
  apply UInt32.toNat_inj.mp
  rw [toNat_ofBytes32, toNat_low32, toNat_byte32 x 8 (by decide), toNat_byte32 x 16 (by decide),
    toNat_byte32 x 24 (by decide), show UInt32.toNat 8 = 8 from rfl,
    show UInt32.toNat 16 = 16 from rfl, show UInt32.toNat 24 = 24 from rfl]
  omega

/-! ## Replacing a field -/

theorem testBit_not32 (x : UInt32) (i : ℕ) :
    (~~~x).toNat.testBit i = (decide (i < 32) && !x.toNat.testBit i) := by
  rw [UInt32.toNat_not, ← Nat.testBit_two_pow_sub_succ x.toNat_lt]
  congr 1
  simp only [UInt32.size]
  omega

theorem testBit_shiftLeft32 {x shift : UInt32} {s : ℕ} (hshift : shift.toNat = s) (hs : s < 32)
    (i : ℕ) : (x <<< shift).toNat.testBit i =
      (decide (i < 32) && (decide (s ≤ i) && x.toNat.testBit (i - s))) := by
  rw [UInt32.toNat_shiftLeft, hshift, Nat.mod_eq_of_lt hs, Nat.testBit_mod_two_pow,
    Nat.testBit_shiftLeft]

/-- A field of `w` bits of a word, from bit `s` on, is replaced. -/
theorem toNat_replace {x v mask shift : UInt32} {s w : ℕ} (hshift : shift.toNat = s)
    (hmask : mask.toNat = 2 ^ w - 1) (hsw : s + w ≤ 32) (hs : s < 32) (hv : v.toNat < 2 ^ w) :
    ((x &&& ~~~(mask <<< shift)) ||| (v <<< shift)).toNat =
      2 ^ s * (2 ^ w * (x.toNat / 2 ^ (s + w)) + v.toNat) + x.toNat % 2 ^ s := by
  have hlow : x.toNat % 2 ^ s < 2 ^ s := Nat.mod_lt _ (Nat.two_pow_pos s)
  refine Nat.eq_of_testBit_eq fun i ↦ ?_
  rw [UInt32.toNat_or, Nat.testBit_or, UInt32.toNat_and, Nat.testBit_and, testBit_not32,
    testBit_shiftLeft32 hshift hs, testBit_shiftLeft32 hshift hs, hmask,
    Nat.testBit_two_pow_sub_one, Nat.testBit_two_pow_mul_add _ hlow,
    Nat.testBit_two_pow_mul_add _ hv, Nat.testBit_mod_two_pow, Nat.testBit_div_two_pow]
  have hx (hi : 32 ≤ i) : x.toNat.testBit i = false :=
    Nat.testBit_lt_two_pow (Nat.lt_of_lt_of_le x.toNat_lt (Nat.pow_le_pow_right (by decide) hi))
  have hvw (hi : w ≤ i - s) : v.toNat.testBit (i - s) = false :=
    Nat.testBit_lt_two_pow (Nat.lt_of_lt_of_le hv (Nat.pow_le_pow_right (by decide) hi))
  rcases Nat.lt_or_ge i s with hlt | hge
  · have hi : i < 32 := by omega
    simp [hlt, hi, Nat.not_le_of_lt hlt]
  · rcases Nat.lt_or_ge (i - s) w with hin | hout
    · have hi : i < 32 := by omega
      simp [hi, hge, hin, Nat.not_lt_of_le hge]
    · have hback : i - s - w + (s + w) = i := by omega
      rcases Nat.lt_or_ge i 32 with hi | hi
      · simp [hi, hge, hback, hvw hout, Nat.not_lt_of_le hge, Nat.not_lt_of_le hout]
      · simp [hx hi, hback, hvw hout, Nat.not_lt_of_le hge, Nat.not_lt_of_le hout]

end Words
