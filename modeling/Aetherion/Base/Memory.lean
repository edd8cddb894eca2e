import Aetherion.Base.Words

/-!
# Byte-addressed memory

A flat memory of bytes in which wider words are stored lowest byte first.  `Mem.write` puts a list
of bytes at an address.  Addresses wrap around at `2 ^ 64`, so what a write covers is a distance
from its start: `write_ofNat` computes a read near a write from the two offsets alone, and
`write_apart` says that a write leaves the regions it is `Apart` from as they were.
-/

set_option autoImplicit false

/-- A flat memory of bytes. -/
abbrev Mem := UInt64 → UInt8

namespace Mem

/-- Put the bytes `bs` at `a`. -/
def write (m : Mem) (a : UInt64) (bs : List UInt8) : Mem :=
  fun x ↦ (bs[(x - a).toNat]?).getD (m x)

/-- The 16-bit word at `a`. -/
def read16 (m : Mem) (a : UInt64) : UInt16 := Words.ofBytes16 (m a) (m (a + 1))

/-- The 32-bit word at `a`. -/
def read32 (m : Mem) (a : UInt64) : UInt32 :=
  Words.ofBytes32 (m a) (m (a + 1)) (m (a + 2)) (m (a + 3))

/-- The `n` bytes from `a` on. -/
def readBytes (m : Mem) (a : UInt64) (n : ℕ) : List UInt8 :=
  (List.range n).map fun i ↦ m (a + .ofNat i)

/-! ## Reading near a write -/

/-- **A read and a write in one structure** only depend on the two offsets. -/
theorem write_ofNat (m : Mem) (b : UInt64) {off j : ℕ} {bs : List UInt8}
    (hbs : off + bs.length ≤ 2 ^ 64) (hj : j < 2 ^ 64) :
    m.write (b + .ofNat off) bs (b + .ofNat j) =
      if off ≤ j then (bs[j - off]?).getD (m (b + .ofNat j)) else m (b + .ofNat j) := by
  have hsub : b + .ofNat j - (b + .ofNat off) = UInt64.ofNat j - .ofNat off := by
    apply UInt64.toBitVec_inj.mp
    simp only [UInt64.toBitVec_sub, UInt64.toBitVec_add]
    bv_omega
  rw [write, hsub]
  rcases Nat.lt_or_ge j off with hlt | hge
  · -- the distance wraps around, to an index past the end of `bs`
    have hoff : off ≤ 2 ^ 64 := Nat.le_trans (Nat.le_add_right ..) hbs
    rw [if_neg (by omega), List.getElem?_eq_none, Option.getD_none]
    rw [UInt64.toNat_sub, UInt64.toNat_ofNat', UInt64.toNat_ofNat']
    omega
  · rw [if_pos hge, UInt64.toNat_sub, UInt64.toNat_ofNat', UInt64.toNat_ofNat']
    congr 3
    omega

/-- The offset-free case of `write_ofNat`. -/
theorem write_ofNat_zero (m : Mem) (b : UInt64) {j : ℕ} {bs : List UInt8}
    (hbs : bs.length ≤ 2 ^ 64) (hj : j < 2 ^ 64) :
    m.write b bs (b + .ofNat j) = (bs[j]?).getD (m (b + .ofNat j)) := by
  have h := write_ofNat m b (show 0 + bs.length ≤ 2 ^ 64 by omega) hj
  rwa [show UInt64.ofNat 0 = 0 from rfl, UInt64.add_zero, if_pos (Nat.zero_le j), Nat.sub_zero] at h

theorem readBytes_write (m : Mem) (a : UInt64) (bs : List UInt8) (hbs : bs.length ≤ 2 ^ 64) :
    (m.write a bs).readBytes a bs.length = bs := by
  refine List.ext_getElem (by simp [readBytes]) fun i h₁ h₂ ↦ ?_
  simp only [readBytes]
  rw [List.getElem_map, List.getElem_range, write_ofNat_zero m a hbs (by omega),
    List.getElem?_eq_getElem h₂, Option.getD_some]

/-- The bytes of a word, under offsets from a common base. -/
theorem read32_ofNat (m : Mem) (b : UInt64) (off : ℕ) :
    m.read32 (b + .ofNat off) = Words.ofBytes32 (m (b + .ofNat off)) (m (b + .ofNat (off + 1)))
      (m (b + .ofNat (off + 2))) (m (b + .ofNat (off + 3))) := by
  simp only [read32, UInt64.ofNat_add, ← UInt64.add_assoc]
  rfl

/-- A word that has been stored byte by byte. -/
theorem read32_eq (m : Mem) (b : UInt64) (off : ℕ) (v : UInt32)
    (h : ∀ k < 4, m (b + .ofNat (off + k)) = ((Words.bytes32 v)[k]?).getD 0) :
    m.read32 (b + .ofNat off) = v := by
  have h0 := h 0 (by omega)
  rw [Nat.add_zero] at h0
  rw [read32_ofNat, h0, h 1 (by omega), h 2 (by omega), h 3 (by omega)]
  exact Words.ofBytes32_bytes32 v

/-! ## Regions that do not meet -/

/-- The `n` bytes from `a` on and the `k` bytes from `b` on have no byte in common. -/
def Apart (a : UInt64) (n : ℕ) (b : UInt64) (k : ℕ) : Prop :=
  ∀ i < n, ∀ j < k, a + .ofNat i ≠ b + .ofNat j

theorem Apart.symm {a b : UInt64} {n k : ℕ} (h : Apart a n b k) : Apart b k a n :=
  fun j hj i hi he ↦ h i hi j hj he.symm

/-- Two regions, one of which ends before the other begins. -/
theorem apart_of_le {a b : UInt64} {n k : ℕ} (hab : a.toNat + n ≤ b.toNat)
    (hb : b.toNat + k ≤ 2 ^ 64) : Apart a n b k := by
  intro i hi j hj he
  have h := congrArg UInt64.toNat he
  rw [UInt64.toNat_add, UInt64.toNat_add, UInt64.toNat_ofNat', UInt64.toNat_ofNat',
    Nat.mod_eq_of_lt (a := i) (by omega), Nat.mod_eq_of_lt (a := j) (by omega),
    Nat.mod_eq_of_lt (by omega), Nat.mod_eq_of_lt (by omega)] at h
  omega

/-- **A write leaves a region it is apart from as it was.** -/
theorem write_apart {a b : UInt64} {n k : ℕ} (h : Apart a n b k) (m : Mem) {off : ℕ}
    {bs : List UInt8} (hbs : off + bs.length ≤ k) {i : ℕ} (hi : i < n) :
    m.write (b + .ofNat off) bs (a + .ofNat i) = m (a + .ofNat i) := by
  rw [write]
  by_cases hd : (a + .ofNat i - (b + .ofNat off)).toNat < bs.length
  · -- the byte read would be byte `off + d` of the other region
    generalize hx : a + .ofNat i - (b + .ofNat off) = d at hd
    refine absurd ?_ (h i hi (off + d.toNat) (by omega))
    rw [UInt64.ofNat_add, UInt64.ofNat_toNat, ← UInt64.add_assoc, ← hx,
      UInt64.add_comm (b + _), UInt64.sub_add_cancel]
  · rw [List.getElem?_eq_none (by omega), Option.getD_none]

end Mem
