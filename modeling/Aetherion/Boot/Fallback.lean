import Aetherion.Boot.Cylinders
import Aetherion.Boot.HandOff

/-!
# The fallback of stage 1

`read_chs_fallback` is meant to read stage 2 without LBA packets.  It computes the cylinder, the
head and the sector, puts the number of the function and of the sectors into AX, and then loads the
segment of the buffer, by way of AX.  So whatever the geometry is, the call is right in everything
but AX, and asks for function `0x10` instead of a read (`fallback_requests_no_read`).
-/

set_option autoImplicit false

namespace Aetherion.Boot

open RealMode Driver

/-! ## What is asked for -/

/-- The registers of a call of the BIOS. -/
def callOf (s : Cpu) : Int13 :=
  ⟨high s.ax, low s.ax, high s.cx, low s.cx, high s.dx, low s.dx, s.es, s.bx⟩

/-- The call is for the drive and names the first sector of stage 2, and where it goes. -/
structure NamesStage2 (g : Geometry) (drive : UInt8) (c : Int13) : Prop where
  dl : c.dl = drive
  onDrive : c.OnDrive g
  lba : c.lba g = 2
  es : c.es = 0x1000
  bx : c.bx = 0

/-- **The call is a read of stage 2.** -/
structure ReadsStage2 (g : Geometry) (drive : UInt8) (c : Int13) : Prop where
  names : NamesStage2 g drive c
  ah : c.ah = 0x02
  al : c.al = 16

/-! ## The call that is made -/

section
variable {L : Labels} {g : Geometry} {s : Cpu}

/-- A division that goes through. -/
theorem silent_divMem {off quot rem : UInt16}
    (hdiv : divWord s.dx s.ax (s.load16 s.ds off) = some (quot, rem)) :
    Silent (divMem off) () s { s with ax := quot, dx := rem } := by
  rw [divMem]
  refine silent_get ?_
  rw [hdiv]
  exact silent_modify _ s

/-- The registers for the sector that stage 2 begins in. -/
theorem namesStage2_of {c : Int13} {drive : UInt8} (hdl : c.dl = drive)
    (hch : c.ch.toNat = 2 / g.secsTrk / g.heads) (hcl : c.cl.toNat = 2 % g.secsTrk + 1)
    (hdh : c.dh.toNat = 2 / g.secsTrk % g.heads) (hes : c.es = 0x1000) (hbx : c.bx = 0) :
    NamesStage2 g drive c := by
  have hle : 2 / g.secsTrk / g.heads ≤ 2 := (Nat.div_le_self ..).trans (Nat.div_le_self ..)
  have hcall : CallFor g 2 c := ⟨by rw [hch]; omega, hdh, hcl⟩
  have hcylinder : 2 / g.secsTrk / g.heads < 256 := by omega
  rw [Nat.div_lt_iff_lt_mul g.heads_pos, Nat.div_lt_iff_lt_mul g.secsTrk_pos] at hcylinder
  exact ⟨hdl, hcall.onDrive, hcall.lba_eq_iff.mpr hcylinder, hes, hbx⟩

/-- The two divisions, of the sector number by the sectors of a track, and of the quotient by the
heads. -/
theorem divWord_two (hheads : (s.load16 s.ds L.heads).toNat = g.heads)
    (hsecs : (s.load16 s.ds L.secsTrk).toNat = g.secsTrk) :
    divWord 0 2 (s.load16 s.ds L.secsTrk) =
        some (.ofNat (2 / g.secsTrk), .ofNat (2 % g.secsTrk)) ∧
      divWord 0 (.ofNat (2 / g.secsTrk)) (s.load16 s.ds L.heads) =
        some (.ofNat (2 / g.secsTrk / g.heads), .ofNat (2 / g.secsTrk % g.heads)) := by
  have htrack : 2 / g.secsTrk ≤ 2 := Nat.div_le_self ..
  have hquot : (UInt16.ofNat (2 / g.secsTrk)).toNat = 2 / g.secsTrk := by
    rw [UInt16.toNat_ofNat', Nat.mod_eq_of_lt (by omega)]
  constructor
  · rw [divWord_zero (hsecs ▸ g.secsTrk_pos), hsecs]
    rfl
  · rw [divWord_zero (hheads ▸ g.heads_pos), hheads, hquot]

/-- **The call of the fallback** has everything right but AX. -/
theorem readChsFallback_calls (hheads : (s.load16 s.ds L.heads).toNat = g.heads)
    (hsecs : (s.load16 s.ds L.secsTrk).toNat = g.secsTrk) :
    ∃ r, Calls (readChsFallback L) 0x13 r s ∧ r.ax = 0x1000 ∧
      NamesStage2 g (s.load8 s.ds L.bootDrive) (callOf r) := by
  have hsec : 2 % g.secsTrk < g.secsTrk := Nat.mod_lt _ g.secsTrk_pos
  have hhead : 2 / g.secsTrk % g.heads < g.heads := Nat.mod_lt _ g.heads_pos
  have htrack : 2 / g.secsTrk ≤ 2 := Nat.div_le_self ..
  have hcyl : 2 / g.secsTrk / g.heads ≤ 2 := (Nat.div_le_self ..).trans htrack
  have hles := g.secsTrk_le
  have hleh := g.heads_le
  obtain ⟨hsecond, hfirst⟩ := divWord_two hheads hsecs
  have hcalls : Calls (readChsFallback L) 0x13 { s with
      ax := 0x1000
      bx := 0
      cx := setHigh (setHigh (setLow s.cx (low (.ofNat (2 % g.secsTrk) + 1))) 0)
        (low (.ofNat (2 / g.secsTrk / g.heads)))
      dx := setLow (setHigh (.ofNat (2 / g.secsTrk % g.heads))
        (low (.ofNat (2 / g.secsTrk % g.heads)))) (s.load8 s.ds L.bootDrive)
      es := 0x1000 } s := by
    refine calls_modify (calls_silent (silent_divMem hsecond) ?_)
    refine calls_modify (calls_modify (calls_modify (calls_silent (silent_divMem hfirst) ?_)))
    refine calls_modify (calls_modify (calls_modify (calls_modify (calls_modify ?_))))
    exact calls_int 0x13 _
  have hinc : UInt16.ofNat (2 % g.secsTrk) + 1 = .ofNat (2 % g.secsTrk + 1) := by
    rw [UInt16.ofNat_add]
    rfl
  refine ⟨_, hcalls, rfl, namesStage2_of (low_setLow ..) ?_ ?_ ?_ rfl rfl⟩
  · simp only [callOf, high_setHigh]
    exact toNat_low_ofNat (by omega)
  · simp only [callOf, low_setHigh, low_setLow, hinc]
    exact toNat_low_ofNat (by omega)
  · simp only [callOf, high_setLow, high_setHigh]
    exact toNat_low_ofNat (by omega)

end

/-- **The fallback never reads stage 2**: for every geometry and every boot drive, its only call of
the BIOS is one for something else. -/
theorem fallback_requests_no_read (L : Labels) (g : Geometry) (s : Cpu)
    (hheads : (s.load16 s.ds L.heads).toNat = g.heads)
    (hsecs : (s.load16 s.ds L.secsTrk).toNat = g.secsTrk) (dev : Device (bios 0x7E00))
    (h : Trace (bios 0x7E00)) :
    ∃ r, ((readChsFallback L).run s).run.trace dev h =
        [.inp (.int 0x13 r) (dev h (.int 0x13 r))] ∧
      ¬ReadsStage2 g (s.load8 s.ds L.bootDrive) (callOf r) ∧ (callOf r).ah = 0x10 ∧
      NamesStage2 g (s.load8 s.ds L.bootDrive) (callOf r) := by
  obtain ⟨r, hcalls, hax, hnames⟩ := readChsFallback_calls hheads hsecs
  have hah : (callOf r).ah = 0x10 := (congrArg high hax).trans (by decide)
  refine ⟨r, hcalls dev h, fun hreads ↦ ?_, hah, hnames⟩
  rw [hreads.ah] at hah
  exact absurd hah (by decide)

/-- Stage 1 booted from a floppy disk, with its geometry stored. -/
def floppyBoot : Cpu :=
  ((bootFrom 0).store16 0 assembled.secsTrk 18).store16 0 assembled.heads 2

theorem floppyBoot_params : (floppyBoot.load16 floppyBoot.ds assembled.heads).toNat = 2 ∧
    (floppyBoot.load16 floppyBoot.ds assembled.secsTrk).toNat = 18 := by decide

/-- On the floppy disk. -/
theorem fallback_requests_no_read_floppy :
    ∃ r, ((readChsFallback assembled).run floppyBoot).run.trace lbaBios [] =
        [.inp (.int 0x13 r) (lbaBios [] (.int 0x13 r))] ∧
      ¬ReadsStage2 floppy 0 (callOf r) ∧ (callOf r).ah = 0x10 ∧
      NamesStage2 floppy 0 (callOf r) :=
  fallback_requests_no_read assembled floppy floppyBoot floppyBoot_params.1 floppyBoot_params.2
    lbaBios []

/-- There the call is not the one that it was to be. -/
theorem floppy_fallback_is_no_read :
    ¬∀ r reply, Event.inp (In.int 0x13 r) reply ∈
        ((readChsFallback assembled).run floppyBoot).run.trace lbaBios [] →
      ReadsStage2 floppy 0 (callOf r) := by
  intro hall
  obtain ⟨r, hcalls, hax, -⟩ :=
    readChsFallback_calls (g := floppy) floppyBoot_params.1 floppyBoot_params.2
  have hreads := hall r _ (by rw [hcalls]; exact List.mem_singleton_self _)
  have hah : (callOf r).ah = 0x10 := (congrArg high hax).trans (by decide)
  rw [hreads.ah] at hah
  exact absurd hah (by decide)

end Aetherion.Boot
