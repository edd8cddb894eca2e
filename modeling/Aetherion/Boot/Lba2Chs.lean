import Aetherion.Boot.Cylinders

/-!
# What `lba2chs` stores

The two divisions of `lba2chs` take a sector number apart: the remainder of the first is the sector
on its track, and the quotient and the remainder of the second are the cylinder and the head.  Their
dividends have an upper half of zero, so no quotient is too large for its register, and the sector
and the head fit into the bytes they are stored in.  So the three numbers can be put together again
(`lba2chs_spec`), and sectors with different numbers get different ones.
-/

set_option autoImplicit false

namespace Aetherion.Boot

open RealMode

/-- The cylinder, the head and the sector. -/
def Chs.triple (s : Chs) : ℕ × ℕ × ℕ := (s.cyl.toNat, s.hd.toNat, s.sec.toNat)

/-- The number of the sector with these three. -/
def Geometry.sector (g : Geometry) (p : ℕ × ℕ × ℕ) : ℕ :=
  (p.1 * g.heads + p.2.1) * g.secsTrk + p.2.2 - 1

/-- There is such a head on the drive, and there is such a sector on a track. -/
structure Geometry.Has (g : Geometry) (p : ℕ × ℕ × ℕ) : Prop where
  head : p.2.1 < g.heads
  sector_pos : 1 ≤ p.2.2
  sector_le : p.2.2 ≤ g.secsTrk

/-- The sector number, the quotients and the remainders. -/
def Geometry.split (g : Geometry) (n : ℕ) : ℕ × ℕ × ℕ :=
  (n / g.secsTrk / g.heads, n / g.secsTrk % g.heads, n % g.secsTrk + 1)

section
variable {g : Geometry} {n : ℕ} {s t : Chs}

theorem Geometry.has_split (g : Geometry) (n : ℕ) : g.Has (g.split n) where
  head := Nat.mod_lt _ g.heads_pos
  sector_pos := Nat.le_add_left ..
  sector_le := Nat.mod_lt _ g.secsTrk_pos

/-- What is taken apart can be put together. -/
theorem Geometry.sector_split (g : Geometry) (n : ℕ) : g.sector (g.split n) = n := by
  rw [Geometry.sector, Geometry.split, ← Nat.add_assoc, Nat.add_sub_cancel, g.join]

/-- **`lba2chs` stores the three numbers**, without loss. -/
theorem Held.triple (h : Held g s) :
    ∃ t, lba2chs s = some t ∧ t.triple = g.split s.lba.toNat := by
  have hlba := h.low
  have hsplit := g.has_split s.lba.toNat
  have hhead : s.lba.toNat / g.secsTrk % g.heads < g.heads := hsplit.head
  have hsec : s.lba.toNat % g.secsTrk + 1 ≤ g.secsTrk := hsplit.sector_le
  have htrack : s.lba.toNat / g.secsTrk ≤ s.lba.toNat := Nat.div_le_self ..
  have hcyl : s.lba.toNat / g.secsTrk / g.heads ≤ s.lba.toNat / g.secsTrk := Nat.div_le_self ..
  have hleh := g.heads_le
  have hles := g.secsTrk_le
  refine ⟨_, lba2chs_eq hlba h.heads h.secsTrk, Prod.ext ?_ (Prod.ext ?_ ?_)⟩
  · exact (UInt16.toNat_ofNat' ..).trans (Nat.mod_eq_of_lt (by omega))
  · exact (UInt8.toNat_ofNat' ..).trans (Nat.mod_eq_of_lt (by omega))
  · exact (UInt8.toNat_ofNat' ..).trans (Nat.mod_eq_of_lt (by omega))

end

/-- **`lba2chs` takes every sector number apart** that `read_chs` can hold, without a divide error:
the head and the sector are ones that there are, and the number can be computed from the three, so
different sectors get different ones. -/
theorem lba2chs_spec (g : Geometry) :
    (∀ s : Chs, Held g s → ∃ t, lba2chs s = some t ∧ 1 ≤ t.sec.toNat ∧ t.sec.toNat ≤ g.secsTrk ∧
      t.hd.toNat < g.heads ∧
      (t.cyl.toNat * g.heads + t.hd.toNat) * g.secsTrk + t.sec.toNat - 1 = s.lba.toNat) ∧
    (∀ s s' t t' : Chs, Held g s → Held g s' → lba2chs s = some t → lba2chs s' = some t' →
      s.lba ≠ s'.lba → (t.cyl, t.hd, t.sec) ≠ (t'.cyl, t'.hd, t'.sec)) ∧
    ∀ (kernelSectors : UInt16) (s₀ : Chs) (k : ℕ) (s : Chs),
      readChsState (readChsStart kernelSectors (s₀.setGeometry g)) k = some s → Held g s := by
  refine ⟨fun s hs ↦ ?_, ?_, fun kernelSectors s₀ k s hs ↦ (held_start kernelSectors g s₀).state hs⟩
  · obtain ⟨t, ht, htriple⟩ := hs.triple
    have hhas := g.has_split s.lba.toNat
    have hsector := g.sector_split s.lba.toNat
    rw [← htriple] at hhas hsector
    exact ⟨t, ht, hhas.sector_pos, hhas.sector_le, hhas.head, hsector⟩
  · intro s s' t t' hs hs' ht ht' hne heq
    obtain ⟨u, hu, htriple⟩ := hs.triple
    obtain ⟨u', hu', htriple'⟩ := hs'.triple
    obtain rfl := Option.some.inj (ht.symm.trans hu)
    obtain rfl := Option.some.inj (ht'.symm.trans hu')
    obtain ⟨hcyl, hrest⟩ := Prod.mk.inj heq
    obtain ⟨hhd, hsec⟩ := Prod.mk.inj hrest
    have hsame : t.triple = t'.triple := by rw [Chs.triple, Chs.triple, hcyl, hhd, hsec]
    have hnumber := congrArg g.sector (htriple.symm.trans (hsame.trans htriple'))
    rw [g.sector_split, g.sector_split] at hnumber
    exact hne (UInt32.toNat_inj.mp hnumber)

/-- Sector 2879, the last one of a floppy disk. -/
def lastOfFloppy : Chs := { blankChs.setGeometry floppy with lba := 2879 }

/-- It is sector 18 of head 1 of cylinder 79, and other sectors are other ones. -/
theorem lba2chs_spec_floppy :
    (∃ t, lba2chs lastOfFloppy = some t ∧ t.hd.toNat < 2 ∧
      (t.cyl.toNat * 2 + t.hd.toNat) * 18 + t.sec.toNat - 1 = 2879) ∧
    (∀ t, lba2chs (blankChs.setGeometry floppy) = some t → (t.cyl, t.hd, t.sec) ≠ (79, 1, 18)) ∧
    Held floppy (readChsStart 5 (blankChs.setGeometry floppy)) := by
  obtain ⟨hstores, hdistinct, hreached⟩ := lba2chs_spec floppy
  have hlast : Held floppy lastOfFloppy := ⟨by decide, rfl, rfl⟩
  refine ⟨?_, fun t ht ↦ ?_, hreached 5 blankChs 0 _ rfl⟩
  · obtain ⟨t, ht, -, -, hhead, hsector⟩ := hstores lastOfFloppy hlast
    exact ⟨t, ht, hhead, hsector⟩
  · exact hdistinct _ lastOfFloppy t _ ⟨by decide, rfl, rfl⟩ hlast ht rfl (by decide)

end Aetherion.Boot
