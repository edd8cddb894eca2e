import Aetherion.Boot.ReadChs

/-!
# Cylinders from 256 on

A call of `INT 13h` AH=02h has ten bits for the cylinder, eight of them in CH and the upper two in
CL.  `lba2chs` stores the quotient of its second division as 16 bits, and `read_chs` gives only the
lower eight to the BIOS, and none of it in CL.  So a call names the sector that `chs_lba` holds as
long as the cylinder is below 256 (`names_sector_iff`).  Above that it names a sector of an earlier
cylinder, which is on the drive all the same, and which the BIOS reads without complaint.

`chs_lba` never leaves its lower half, since only that is added to.
-/

set_option autoImplicit false

namespace Aetherion.Boot

open RealMode

/-! ## The replies of the BIOS -/

/-- The carry flag that `read_chs` returns with, if it returns after at most so many passes.
`INT 13h` sets it for the calls that fail. -/
def readChsReturns (fails : Int13 → Bool) : ℕ → Chs → Option Bool
  | 0, _ => none
  | n + 1, s =>
    match readChsPass s with
    | .done => some false
    | .fault => none
    | .read call s => if fails call then some true else readChsReturns fails n s

/-- The variables before pass `k`, if the calls before it have succeeded. -/
def readChsState (s : Chs) : ℕ → Option Chs
  | 0 => some s
  | k + 1 =>
    match readChsPass s with
    | .read _ s => readChsState s k
    | _ => none

/-- The call names a sector of a drive with this geometry, and with 1024 cylinders. -/
def Int13.OnDrive (c : Int13) (g : Geometry) : Prop :=
  c.dh.toNat < g.heads ∧ 0 < c.cl.toNat % 64 ∧ c.cl.toNat % 64 ≤ g.secsTrk

instance (c : Int13) (g : Geometry) : Decidable (c.OnDrive g) := inferInstanceAs (Decidable (_ ∧ _))

/-- A BIOS that reads what there is on such a drive. -/
def Serves (fails : Int13 → Bool) (g : Geometry) : Prop :=
  ∀ c : Int13, c.OnDrive g → fails c = false

/-- **The call names the sector** that `chs_lba` holds, if there are cylinders enough to name it; if
not, `read_chs` returns with the carry flag. -/
def NamesSector (g : Geometry) (s : Chs) : Prop :=
  ∃ c s', readChsPass s = .read c s' ∧
    (s.lba.toNat < 1024 * g.heads * g.secsTrk → c.lba g = s.lba.toNat) ∧
    (1024 * g.heads * g.secsTrk ≤ s.lba.toNat →
      ∀ fails, Serves fails g → readChsReturns fails 1 s = some true)

/-! ## The registers of a call -/

section
variable {g : Geometry} {n : ℕ} {c : Int13}

/-- The registers for a sector number. -/
structure CallFor (g : Geometry) (n : ℕ) (c : Int13) : Prop where
  ch : c.ch.toNat = n / g.secsTrk / g.heads % 256
  dh : c.dh.toNat = n / g.secsTrk % g.heads
  cl : c.cl.toNat = n % g.secsTrk + 1

/-- Whatever the sector number is, there is such a sector. -/
theorem CallFor.onDrive (h : CallFor g n c) : c.OnDrive g := by
  have hsec : n % g.secsTrk < g.secsTrk := Nat.mod_lt _ g.secsTrk_pos
  have hle := g.secsTrk_le
  rw [Int13.OnDrive, h.dh, h.cl, Nat.mod_eq_of_lt (show n % g.secsTrk + 1 < 64 by omega)]
  exact ⟨Nat.mod_lt _ g.heads_pos, Nat.succ_pos _, hsec⟩

/-- **It is the sector with this number** exactly if the cylinder fits into CH. -/
theorem CallFor.lba_eq_iff (h : CallFor g n c) : c.lba g = n ↔ n < 256 * g.heads * g.secsTrk := by
  have hsec : n % g.secsTrk < g.secsTrk := Nat.mod_lt _ g.secsTrk_pos
  have hle := g.secsTrk_le
  have hcall : c.lba g =
      (n / g.secsTrk / g.heads % 256 * g.heads + n / g.secsTrk % g.heads) * g.secsTrk +
        n % g.secsTrk := by
    rw [Int13.lba, h.ch, h.dh, h.cl, show (n % g.secsTrk + 1) / 64 = 0 by omega,
      show (n % g.secsTrk + 1) % 64 - 1 = n % g.secsTrk by omega, Nat.mul_zero, Nat.add_zero]
  have hn := (g.join n).symm
  calc c.lba g = n
      ↔ n / g.secsTrk / g.heads % 256 = n / g.secsTrk / g.heads := by
        rw [hcall]
        constructor
        · intro heq
          have hsum := heq.trans hn
          have htrack := Nat.eq_of_mul_eq_mul_right g.secsTrk_pos (Nat.add_right_cancel hsum)
          exact Nat.eq_of_mul_eq_mul_right g.heads_pos (Nat.add_right_cancel htrack)
        · intro heq
          rw [heq]
          exact hn.symm
    _ ↔ n / g.secsTrk / g.heads < 256 := Nat.mod_eq_iff_lt (by decide)
    _ ↔ n < 256 * g.heads * g.secsTrk := by
        rw [Nat.div_lt_iff_lt_mul g.heads_pos, Nat.div_lt_iff_lt_mul g.secsTrk_pos]

end

/-! ## Pass after pass -/

/-- What holds before every pass. -/
structure Held (g : Geometry) (s : Chs) : Prop where
  low : s.lba.toNat < 65536
  heads : s.heads.toNat = g.heads
  secsTrk : s.secsTrk.toNat = g.secsTrk

theorem held_start (kernelSectors : UInt16) (g : Geometry) (s : Chs) :
    Held g (readChsStart kernelSectors (s.setGeometry g)) := by
  have hstart := atChunk_start kernelSectors g s
  exact ⟨by rw [hstart.lba]; decide, hstart.heads, hstart.secsTrk⟩

/-- What a pass leaves of the variables that the next one depends on. -/
structure NextPass (g : Geometry) (s s' : Chs) : Prop where
  held : Held g s'
  lba : s'.lba.toNat = (s.lba.toNat + 16) % 65536
  left : s'.left = s.left - 16

section
variable {g : Geometry} {s t : Chs} {k : ℕ}

/-- Whether there is a carry or not, only the segment and the offset depend on it. -/
theorem advance_eq (s : Chs) : s.advance =
    { s with
      lba := (s.lba &&& 0xFFFF0000) ||| (s.lba.toUInt16 + s.cnt).toUInt32
      left := s.left - s.cnt
      seg := s.advance.seg
      off := s.advance.off } := by
  simp only [Chs.advance]
  split <;> rfl

theorem Held.advance (h : Held g s) (hcnt : s.cnt = 16) : NextPass g s s.advance := by
  have hnext : s.advance.lba.toNat = (s.lba.toNat + 16) % 65536 := by
    rw [advance_eq, toNat_add_low h.low, hcnt]
    rfl
  refine ⟨⟨?_, ?_, ?_⟩, hnext, ?_⟩
  · rw [hnext]
    exact Nat.mod_lt _ (by decide)
  · rw [advance_eq, h.heads]
  · rw [advance_eq, h.secsTrk]
  · rw [advance_eq, hcnt]

/-- **One pass** makes a call for the sector that is held. -/
theorem Held.pass (h : Held g s) (hleft : s.left ≠ 0) :
    ∃ c s', readChsPass s = .read c s' ∧ CallFor g s.lba.toNat c ∧ NextPass g s s' := by
  have hchs := lba2chs_eq (s := { s with cnt := 16 }) (g := g) h.low h.heads h.secsTrk
  have hhead : s.lba.toNat / g.secsTrk % g.heads < g.heads := Nat.mod_lt _ g.heads_pos
  have hsec : s.lba.toNat % g.secsTrk < g.secsTrk := Nat.mod_lt _ g.secsTrk_pos
  have hheads := g.heads_le
  have hsecs := g.secsTrk_le
  have hnext := Held.advance (g := g) (s := { s with
    cnt := 16
    sec := .ofNat (s.lba.toNat % g.secsTrk + 1)
    hd := .ofNat (s.lba.toNat / g.secsTrk % g.heads)
    cyl := .ofNat (s.lba.toNat / g.secsTrk / g.heads) }) ⟨h.low, h.heads, h.secsTrk⟩ rfl
  refine ⟨_, _, readChsPass_eq hleft hchs, ⟨?_, ?_, ?_⟩, hnext.held, hnext.lba, hnext.left⟩
  · simp only [Chs.int13]
    rw [UInt16.toUInt8_ofNat', UInt8.toNat_ofNat']
  · simp only [Chs.int13]
    rw [UInt8.toNat_ofNat', Nat.mod_eq_of_lt (by omega)]
  · simp only [Chs.int13]
    rw [UInt8.toNat_ofNat', Nat.mod_eq_of_lt (by omega)]

/-- **Every pass.** -/
theorem Held.state (h : Held g s) (ht : readChsState s k = some t) : Held g t := by
  induction k generalizing s with
  | zero => exact Option.some.inj ht ▸ h
  | succ k ih =>
    rw [readChsState] at ht
    by_cases hleft : s.left = 0
    · rw [readChsPass, if_pos hleft] at ht
      cases ht
    · obtain ⟨c, s', hpass, -, hnext⟩ := h.pass hleft
      rw [hpass] at ht
      exact ih hnext.held ht

/-- The passes go on as long as something is left, so for ever if the number of sectors is not a
multiple of 16. -/
theorem Held.exists_state (h : Held g s) (hleft : s.left.toNat % 16 ≠ 0) (k : ℕ) :
    ∃ t, readChsState s k = some t ∧ t.left ≠ 0 ∧ t.lba.toNat = (s.lba.toNat + 16 * k) % 65536 := by
  have hne {t : Chs} (ht : t.left.toNat % 16 ≠ 0) : t.left ≠ 0 := fun hzero ↦
    ht (by rw [hzero]; rfl)
  induction k generalizing s with
  | zero => exact ⟨s, rfl, hne hleft, (Nat.mod_eq_of_lt h.low).symm⟩
  | succ k ih =>
    obtain ⟨c, s', hpass, -, hnext⟩ := h.pass (hne hleft)
    have hlt := s.left.toNat_lt
    have hleft' : s'.left.toNat % 16 ≠ 0 := by
      rw [hnext.left, UInt16.toNat_sub, show UInt16.toNat 16 = 16 from rfl]
      omega
    obtain ⟨t, ht, htleft, htlba⟩ := ih hnext.held hleft'
    refine ⟨t, by rw [readChsState, hpass]; exact ht, htleft, ?_⟩
    rw [htlba, hnext.lba]
    omega

/-- A BIOS that fails for nothing else than a sector that is not there. -/
def driveBios (g : Geometry) (c : Int13) : Bool := !decide (c.OnDrive g)

theorem serves_driveBios (g : Geometry) : Serves (driveBios g) g := by
  intro c hc
  rw [driveBios, decide_eq_true hc, Bool.not_true]

/-- **Before a pass with something left**, the call names the sector exactly if the cylinder fits
into CH. -/
theorem Held.namesSector_iff (h : Held g s) (hleft : s.left ≠ 0) :
    NamesSector g s ↔ s.lba.toNat < 256 * g.heads * g.secsTrk := by
  obtain ⟨c, s', hpass, hcall, -⟩ := h.pass hleft
  have hreturns (fails : Int13 → Bool) :
      readChsReturns fails 1 s = if fails c then some true else none := by
    rw [readChsReturns, hpass]
    rfl
  constructor
  · rintro ⟨c', s'', hpass', hnames, hfails⟩
    rw [hpass, Pass.read.injEq] at hpass'
    rcases Nat.lt_or_ge s.lba.toNat (1024 * g.heads * g.secsTrk) with hlt | hge
    · exact hcall.lba_eq_iff.mp (hpass'.1 ▸ hnames hlt)
    · -- the sector that the call names is there, so the BIOS reads it
      have hreturn := hfails hge _ (serves_driveBios g)
      rw [hreturns, serves_driveBios g c hcall.onDrive] at hreturn
      cases hreturn
  · intro hlt
    refine ⟨c, s', hpass, fun _ ↦ hcall.lba_eq_iff.mpr hlt, fun hge ↦ ?_⟩
    have hmono : 256 * g.heads * g.secsTrk ≤ 1024 * g.heads * g.secsTrk :=
      Nat.mul_le_mul_right _ (Nat.mul_le_mul_right _ (by decide))
    omega

end

/-- **Every call of `read_chs` names the sector that `chs_lba` holds** exactly if that is within the
first 256 cylinders. -/
theorem names_sector_iff (kernelSectors : UInt16) (g : Geometry) (s₀ : Chs) (k : ℕ) (s : Chs)
    (hs : readChsState (readChsStart kernelSectors (s₀.setGeometry g)) k = some s)
    (hleft : s.left ≠ 0) : NamesSector g s ↔ s.lba.toNat < 256 * g.heads * g.secsTrk :=
  ((held_start kernelSectors g s₀).state hs).namesSector_iff hleft

/-- The first call for a floppy disk. -/
theorem names_sector_floppy :
    NamesSector floppy (readChsStart 5 (blankChs.setGeometry floppy)) :=
  (names_sector_iff 5 floppy blankChs 0 _ rfl (by decide)).mpr (by decide)

/-- A hard disk of 20 MB. -/
def smallDisk : Geometry := ⟨4, 17, by decide, by decide, by decide, by decide⟩

/-- Sector 17410 is in cylinder 256. -/
theorem cylinder_256_missed :
    ∃ k s, readChsState (readChsStart 17401 (blankChs.setGeometry smallDisk)) k = some s ∧
      s.left ≠ 0 ∧ s.lba.toNat = 17410 ∧ ¬NamesSector smallDisk s := by
  have hstart := held_start 17401 smallDisk blankChs
  obtain ⟨s, hs, hleft, hlba⟩ := hstart.exists_state (by decide) 1087
  have hheld : s.lba.toNat = 17410 := hlba
  refine ⟨1087, s, hs, hleft, hheld, ?_⟩
  rw [(hstart.state hs).namesSector_iff hleft, hheld]
  decide

end Aetherion.Boot
