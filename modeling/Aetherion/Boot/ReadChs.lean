import Aetherion.Base.RealMode

/-!
# Loading the kernel without LBA

`read_chs` of stage 2 reads the kernel in chunks when the BIOS does not know LBA packets.  It
compares the number of sectors that are left with 16, but between the load and the comparison it
prints a debug character, which changes AX: so every chunk is 16 sectors, and `chs_left` only
becomes zero if the number was a multiple of 16.  And after eight chunks the offset wraps around,
and the segment with it: the ninth chunk goes to `0x10000`, where stage 2 is.

`INT 10h` AH=0Eh returns nothing, and every `INT 13h` succeeds.
-/

set_option autoImplicit false

namespace Aetherion.Boot

open RealMode

/-! ## The code -/

/-- The variables of `read_chs`. -/
structure Chs where
  bootDrive : UInt8
  lba : UInt32
  left : UInt16
  seg : UInt16
  off : UInt16
  cnt : UInt16
  cyl : UInt16
  hd : UInt8
  sec : UInt8
  heads : UInt16
  secsTrk : UInt16

/-- The registers with which `INT 13h` is called. -/
structure Int13 where
  ah : UInt8
  al : UInt8
  ch : UInt8
  cl : UInt8
  dh : UInt8
  dl : UInt8
  es : UInt16
  bx : UInt16

/-- AX after `dbg_putc`: the character is in AL, and the number of the BIOS function in AH. -/
def dbgPutcAx (char : UInt8) : UInt16 := 0x0E00 ||| char.toUInt16

/-- `lba2chs`.  The divisions are of DX:AX, so they only see the lower half of `chs_lba`. -/
def lba2chs (s : Chs) : Option Chs := do
  let (ax, dx) ← divWord 0 s.lba.toUInt16 s.secsTrk
  let dx := dx + 1
  let s := { s with sec := dx.toUInt8 }
  let (ax, dx) ← divWord 0 ax s.heads
  return { s with hd := dx.toUInt8, cyl := ax }

/-- How a pass through the loop of `read_chs` ends. -/
inductive Pass where
  /-- Nothing is left. -/
  | done : Pass
  /-- A divide error. -/
  | fault : Pass
  /-- A chunk has been read. -/
  | read : Int13 → Chs → Pass

/-- `MAX_CHS_READ`. -/
def maxChsRead : UInt16 := 16

/-- The registers for the call, from the variables. -/
def Chs.int13 (s : Chs) : Int13 :=
  ⟨0x02, s.cnt.toUInt8, s.cyl.toUInt8, s.sec, s.hd, s.bootDrive, s.seg, s.off⟩

/-- The variables after the call.  The addition to `chs_lba` is one of 16 bits. -/
def Chs.advance (s : Chs) : Chs :=
  let ax := s.cnt
  let s := { s with
    lba := (s.lba &&& 0xFFFF0000) ||| (s.lba.toUInt16 + ax).toUInt32
    left := s.left - ax }
  let ax := ax <<< 9
  let off := s.off + ax
  let carry := off < ax
  let s := { s with off := off }
  if carry then { s with seg := s.seg + 0x1000 } else s

/-- One pass through the loop. -/
def readChsPass (s : Chs) : Pass :=
  let ax := s.left
  if ax = 0 then .done
  else
    -- `S2_DBG_CHS_LOOP`
    let ax := dbgPutcAx 0x49
    let cx := maxChsRead
    let cx := if cx.toInt16 ≤ ax.toInt16 then cx else ax
    match lba2chs { s with cnt := cx } with
    | none => .fault
    | some s => .read s.int13 s.advance

/-- The call with number `k` of the loop. -/
def readChsCall (s : Chs) : ℕ → Option Int13
  | 0 =>
    match readChsPass s with
    | .read call _ => some call
    | _ => none
  | k + 1 =>
    match readChsPass s with
    | .read _ s => readChsCall s k
    | _ => none

/-- `read_chs` before its loop. -/
def readChsStart (kernelSectors : UInt16) (s : Chs) : Chs :=
  { s with lba := 18, left := kernelSectors, seg := 0xFFFF, off := 0x0010 }

/-- The calls of `read_chs`. -/
def readChs (kernelSectors : UInt16) (s : Chs) : ℕ → Option Int13 :=
  readChsCall (readChsStart kernelSectors s)

/-! ## What is asked for -/

/-- The geometry of a drive, as `INT 13h` AH=08h can report it. -/
structure Geometry where
  heads : ℕ
  secsTrk : ℕ
  heads_pos : 0 < heads
  heads_le : heads ≤ 256
  secsTrk_pos : 0 < secsTrk
  secsTrk_le : secsTrk ≤ 63

/-- `get_drive_params` with this reply, or with its defaults. -/
def Chs.setGeometry (g : Geometry) (s : Chs) : Chs :=
  { s with heads := .ofNat g.heads, secsTrk := .ofNat g.secsTrk }

/-- The sector a call begins at.  The two highest bits of CL belong to the cylinder. -/
def Int13.lba (c : Int13) (g : Geometry) : ℕ :=
  ((c.ch.toNat + 256 * (c.cl.toNat / 64)) * g.heads + c.dh.toNat) * g.secsTrk +
    (c.cl.toNat % 64 - 1)

/-- The address a call begins to store at. -/
def Int13.address (c : Int13) : ℕ := 16 * c.es.toNat + c.bx.toNat

/-- The LBA packet. -/
structure Dap where
  count : UInt16
  offset : UInt16
  segment : UInt16
  lba : UInt64

/-- `dap` of stage 2. -/
def dap (kernelSectors : UInt16) : Dap := ⟨kernelSectors, 0x0010, 0xFFFF, 18⟩

/-- Where the packet puts its sector `i`. -/
def Dap.address (d : Dap) (i : ℕ) : ℕ := 16 * d.segment.toNat + d.offset.toNat + 512 * i

/-- The calls do what the packet asks for: each of its sectors is read by exactly one of them, as
one of its sectors, and goes to the same place; and nothing is written to the sixteen sectors of
stage 2. -/
def LoadsLike (calls : ℕ → Option Int13) (g : Geometry) (d : Dap) : Prop :=
  (∀ i < d.count.toNat, ∃! p : ℕ × ℕ, ∃ c, calls p.1 = some c ∧ p.2 < c.al.toNat ∧
    c.lba g + p.2 = d.lba.toNat + i) ∧
  (∀ k c, calls k = some c → ∀ j < c.al.toNat, ∀ i < d.count.toNat,
    c.lba g + j = d.lba.toNat + i → c.address + 512 * j = d.address i) ∧
  ∀ k c, calls k = some c → c.address + 512 * c.al.toNat ≤ 0x10000 ∨ 0x12000 ≤ c.address

/-! ## Cylinder, head and sector -/

section
variable {s : Chs} {g : Geometry}

theorem divWord_zero {ax d : UInt16} (hd : 0 < d.toNat) :
    divWord 0 ax d = some (.ofNat (ax.toNat / d.toNat), .ofNat (ax.toNat % d.toNat)) := by
  have hax := ax.toNat_lt
  have hquot : ax.toNat / d.toNat ≤ ax.toNat := Nat.div_le_self ..
  have hne : d ≠ 0 := by
    rintro rfl
    exact absurd hd (by decide)
  rw [divWord, show 65536 * UInt16.toNat 0 + ax.toNat = ax.toNat by simp,
    if_neg (by simp only [hne, false_or]; omega)]

/-- `lba2chs` for a small sector number. -/
theorem lba2chs_eq (hlba : s.lba.toNat < 65536) (hheads : s.heads.toNat = g.heads)
    (hsecs : s.secsTrk.toNat = g.secsTrk) :
    lba2chs s = some { s with
      sec := .ofNat (s.lba.toNat % g.secsTrk + 1)
      hd := .ofNat (s.lba.toNat / g.secsTrk % g.heads)
      cyl := .ofNat (s.lba.toNat / g.secsTrk / g.heads) } := by
  have hlow : s.lba.toUInt16.toNat = s.lba.toNat := by
    rw [UInt32.toNat_toUInt16, Nat.mod_eq_of_lt hlba]
  have hquot : (UInt16.ofNat (s.lba.toNat / g.secsTrk)).toNat = s.lba.toNat / g.secsTrk := by
    rw [UInt16.toNat_ofNat', Nat.mod_eq_of_lt (Nat.lt_of_le_of_lt (Nat.div_le_self ..) hlba)]
  rw [lba2chs, divWord_zero (hsecs ▸ g.secsTrk_pos), hlow, hsecs]
  simp only [Option.bind_eq_bind, Option.bind_some]
  rw [divWord_zero (hheads ▸ g.heads_pos), hquot, hheads]
  simp only [Option.bind_some]
  congr 2
  · exact UInt16.toUInt8_ofNat' _
  · rw [← UInt16.toUInt8_ofNat', UInt16.ofNat_add]
    rfl

/-- A number, from its two quotients and remainders. -/
theorem Geometry.join (g : Geometry) (n : ℕ) :
    (n / g.secsTrk / g.heads * g.heads + n / g.secsTrk % g.heads) * g.secsTrk + n % g.secsTrk =
      n := by
  rw [Nat.div_add_mod', Nat.div_add_mod']

/-- **The sector a call begins at** is the one it was meant to begin at, as long as the cylinder is
small. -/
theorem lba_eq {c : Int13} {n : ℕ} (hch : c.ch.toNat = n / g.secsTrk / g.heads)
    (hdh : c.dh.toNat = n / g.secsTrk % g.heads)
    (hcl : c.cl.toNat = n % g.secsTrk + 1) : c.lba g = n := by
  have hsec : n % g.secsTrk < g.secsTrk := Nat.mod_lt _ g.secsTrk_pos
  have hle := g.secsTrk_le
  rw [Int13.lba, hch, hdh, hcl, show (n % g.secsTrk + 1) / 64 = 0 by omega,
    show (n % g.secsTrk + 1) % 64 - 1 = n % g.secsTrk by omega, Nat.mul_zero, Nat.add_zero, g.join]

end

/-! ## Chunk after chunk -/

/-- The lower half of a variable replaced whose upper half is zero. -/
theorem toNat_replace_low {x : UInt32} (hx : x.toNat < 65536) (v : UInt16) :
    ((x &&& 0xFFFF0000) ||| v.toUInt32).toNat = v.toNat := by
  have hhigh : x.toNat &&& 0xFFFF0000 = 0 := by
    rw [Nat.and_comm, show 0xFFFF0000 = 2 ^ 16 * 0xFFFF from rfl]
    refine Nat.eq_of_testBit_eq fun i ↦ ?_
    rw [Nat.testBit_and, Nat.testBit_two_pow_mul, Nat.zero_testBit]
    rcases Nat.lt_or_ge i 16 with hlt | hge
    · simp [hlt]
    · rw [Nat.testBit_lt_two_pow (x := x.toNat), Bool.and_false]
      exact Nat.lt_of_lt_of_le (show x.toNat < 2 ^ 16 from hx)
        (Nat.pow_le_pow_right Nat.two_pos hge)
  rw [UInt32.toNat_or, UInt32.toNat_and, show UInt32.toNat 0xFFFF0000 = 0xFFFF0000 from rfl, hhigh,
    Nat.zero_or, UInt16.toNat_toUInt32]

/-- A 16-bit addition to the lower half. -/
theorem toNat_add_low {x : UInt32} (hx : x.toNat < 65536) (v : UInt16) :
    ((x &&& 0xFFFF0000) ||| (x.toUInt16 + v).toUInt32).toNat = (x.toNat + v.toNat) % 65536 := by
  rw [toNat_replace_low hx, UInt16.toNat_add, UInt32.toNat_toUInt16, Nat.mod_eq_of_lt hx]

/-- The variables before chunk `k`. -/
structure AtChunk (kernelSectors : UInt16) (g : Geometry) (k : ℕ) (s : Chs) : Prop where
  lba : s.lba.toNat = 18 + 16 * k
  left : s.left = kernelSectors - .ofNat (16 * k)
  off : s.off = .ofNat (0x10 + 0x2000 * k)
  seg : s.seg.toNat = if k < 8 then 0xFFFF else 0x0FFF
  heads : s.heads.toNat = g.heads
  secsTrk : s.secsTrk.toNat = g.secsTrk

/-- The call for chunk `k`. -/
structure IsChunk (g : Geometry) (k : ℕ) (c : Int13) : Prop where
  count : c.al.toNat = 16
  lba : c.lba g = 18 + 16 * k
  address : c.address = if k < 8 then 0x100000 + 0x2000 * k else 0x10000

variable {kernelSectors : UInt16} {g : Geometry} {k : ℕ} {s : Chs}

/-- A pass with something left reads a chunk, and always one of 16 sectors. -/
theorem readChsPass_eq {t : Chs} (hleft : s.left ≠ 0) (ht : lba2chs { s with cnt := 16 } = some t) :
    readChsPass s = .read t.int13 t.advance := by
  have hsize : (if maxChsRead.toInt16 ≤ (dbgPutcAx 0x49).toInt16 then maxChsRead
      else dbgPutcAx 0x49) = 16 := by decide
  rw [readChsPass, if_neg hleft]
  simp only [hsize, ht]

/-- The variables move on by one chunk, and after the eighth to another segment. -/
theorem AtChunk.advance (h : AtChunk kernelSectors g k s) (hk : k < 8) (hcnt : s.cnt = 16) :
    AtChunk kernelSectors g (k + 1) s.advance := by
  have hoff : s.off + (16 : UInt16) <<< 9 = .ofNat (0x10 + 0x2000 * (k + 1)) := by
    rw [h.off, Nat.mul_succ, ← Nat.add_assoc, UInt16.ofNat_add (0x10 + 0x2000 * k)]
    rfl
  have hcarry : s.off + (16 : UInt16) <<< 9 < (16 : UInt16) <<< 9 ↔ k = 7 := by
    rw [hoff, UInt16.lt_iff_toNat_lt, UInt16.toNat_ofNat',
      show ((16 : UInt16) <<< 9).toNat = 0x2000 from rfl]
    omega
  have hlba : ((s.lba &&& 0xFFFF0000) ||| (s.lba.toUInt16 + 16).toUInt32).toNat =
      18 + 16 * (k + 1) := by
    have hlow := h.lba
    rw [toNat_add_low (by omega), hlow, show UInt16.toNat 16 = 16 from rfl]
    omega
  have hleft : s.left - 16 = kernelSectors - .ofNat (16 * (k + 1)) := by
    rw [h.left, Nat.mul_succ, UInt16.ofNat_add, show UInt16.ofNat 16 = 16 from rfl]
    grind
  have hseg := h.seg
  rw [if_pos hk] at hseg
  rw [Chs.advance, hcnt]
  simp only [hcarry]
  split
  · refine ⟨hlba, hleft, hoff, ?_, h.heads, h.secsTrk⟩
    rw [if_neg (by omega), UInt16.toNat_add, hseg]
    rfl
  · refine ⟨hlba, hleft, hoff, ?_, h.heads, h.secsTrk⟩
    rw [if_pos (by omega)]
    exact hseg

/-- **One chunk.** -/
theorem AtChunk.pass (h : AtChunk kernelSectors g k s) (hk : k ≤ 8)
    (hleft : kernelSectors ≠ .ofNat (16 * k)) :
    ∃ c s', readChsPass s = .read c s' ∧ IsChunk g k c ∧
      (k < 8 → AtChunk kernelSectors g (k + 1) s') := by
  have hne : s.left ≠ 0 := by
    rw [h.left, Ne, UInt16.sub_eq_iff_eq_add, UInt16.zero_add]
    exact hleft
  have hchs := lba2chs_eq (s := { s with cnt := 16 }) (g := g) (by rw [h.lba]; omega) h.heads
    h.secsTrk
  have htrack : (18 + 16 * k) / g.secsTrk ≤ 18 + 16 * k := Nat.div_le_self ..
  have hcyl : (18 + 16 * k) / g.secsTrk / g.heads ≤ (18 + 16 * k) / g.secsTrk := Nat.div_le_self ..
  have hhead : (18 + 16 * k) / g.secsTrk % g.heads < g.heads := Nat.mod_lt _ g.heads_pos
  have hsec : (18 + 16 * k) % g.secsTrk < g.secsTrk := Nat.mod_lt _ g.secsTrk_pos
  have hheads := g.heads_le
  have hsecs := g.secsTrk_le
  refine ⟨_, _, readChsPass_eq hne hchs, ⟨rfl, lba_eq ?_ ?_ ?_, ?_⟩, fun hlt ↦ ?_⟩
  · simp only [Chs.int13, h.lba]
    rw [UInt16.toUInt8_ofNat', UInt8.toNat_ofNat', Nat.mod_eq_of_lt (by omega)]
  · simp only [Chs.int13, h.lba]
    rw [UInt8.toNat_ofNat', Nat.mod_eq_of_lt (by omega)]
  · simp only [Chs.int13, h.lba]
    rw [UInt8.toNat_ofNat', Nat.mod_eq_of_lt (by omega)]
  · simp only [Int13.address, Chs.int13, h.seg, h.off, UInt16.toNat_ofNat']
    split <;> omega
  · exact AtChunk.advance ⟨h.lba, h.left, h.off, h.seg, h.heads, h.secsTrk⟩ hlt rfl

/-- A number of sectors that eight chunks can hold. -/
theorem ofNat_mul_eq_iff (hk : k ≤ 8) :
    kernelSectors = .ofNat (16 * k) ↔ kernelSectors.toNat = 16 * k := by
  rw [← UInt16.toNat_inj, UInt16.toNat_ofNat', Nat.mod_eq_of_lt (by omega)]

/-- **The calls that are made**, as long as something is left before each of them. -/
theorem AtChunk.call {i : ℕ} (h : AtChunk kernelSectors g i s) (hik : i + k ≤ 8)
    (hleft : ∀ j, i ≤ j → j ≤ i + k → kernelSectors.toNat ≠ 16 * j) :
    ∃ c, readChsCall s k = some c ∧ IsChunk g (i + k) c := by
  induction k generalizing i s with
  | zero =>
    have hne := mt (ofNat_mul_eq_iff hik).mp (hleft i le_rfl le_rfl)
    obtain ⟨c, s', hpass, hc, -⟩ := h.pass hik hne
    exact ⟨c, by rw [readChsCall, hpass], hc⟩
  | succ k ih =>
    have hne := mt (ofNat_mul_eq_iff (by omega)).mp (hleft i le_rfl (by omega))
    obtain ⟨c, s', hpass, -, hnext⟩ := h.pass (by omega) hne
    obtain ⟨c', hcall, hc'⟩ := ih (hnext (by omega)) (by omega)
      fun j hij hjk ↦ hleft j (by omega) (by omega)
    refine ⟨c', by rw [readChsCall, hpass]; exact hcall, ?_⟩
    rwa [show i + (k + 1) = i + 1 + k by omega]

/-- When nothing is left, there are no more calls. -/
theorem AtChunk.done (h : AtChunk kernelSectors g k s) (hk : k ≤ 8)
    (hleft : kernelSectors.toNat = 16 * k) (n : ℕ) : readChsCall s n = none := by
  have hzero : s.left = 0 := by
    rw [h.left, UInt16.sub_eq_iff_eq_add, UInt16.zero_add]
    exact (ofNat_mul_eq_iff hk).mpr hleft
  cases n <;> rw [readChsCall, readChsPass, if_pos hzero]

/-- **The calls that are not made**, since nothing is left. -/
theorem AtChunk.over {i m : ℕ} (h : AtChunk kernelSectors g i s) (him : i ≤ m) (hm : m ≤ 8)
    (hleft : kernelSectors.toNat = 16 * m) (hmk : m ≤ i + k) : readChsCall s k = none := by
  induction k generalizing i s with
  | zero =>
    obtain rfl : i = m := by omega
    exact h.done hm hleft 0
  | succ k ih =>
    rcases Nat.eq_or_lt_of_le him with rfl | hlt
    · exact h.done hm hleft (k + 1)
    · have hne := mt (ofNat_mul_eq_iff (by omega)).mp
        (show kernelSectors.toNat ≠ 16 * i by omega)
      obtain ⟨c, s', hpass, -, hnext⟩ := h.pass (by omega) hne
      rw [readChsCall, hpass]
      exact ih (hnext (by omega)) hlt (by omega)

theorem atChunk_start (kernelSectors : UInt16) (g : Geometry) (s : Chs) :
    AtChunk kernelSectors g 0 (readChsStart kernelSectors (s.setGeometry g)) := by
  have hheads := g.heads_le
  have hsecs := g.secsTrk_le
  refine ⟨rfl, by simp [readChsStart], rfl, rfl, ?_, ?_⟩
  · exact (UInt16.toNat_ofNat' ..).trans (Nat.mod_eq_of_lt (by omega))
  · exact (UInt16.toNat_ofNat' ..).trans (Nat.mod_eq_of_lt (by omega))

/-! ## Whether the kernel is loaded -/

/-- What the chunks of a kernel of `16 * m` sectors do. -/
theorem loadsLike_of_chunks {calls : ℕ → Option Int13} {m : ℕ} (hm : m ≤ 8)
    (hleft : kernelSectors.toNat = 16 * m) (hmade : ∀ k < m, ∃ c, calls k = some c ∧ IsChunk g k c)
    (hnone : ∀ k, m ≤ k → calls k = none) : LoadsLike calls g (dap kernelSectors) := by
  have hchunk {k : ℕ} {c : Int13} (hc : calls k = some c) : k < m ∧ IsChunk g k c := by
    rcases Nat.lt_or_ge k m with hlt | hge
    · obtain ⟨c', hc', his⟩ := hmade k hlt
      rw [hc'] at hc
      exact ⟨hlt, Option.some_inj.mp hc ▸ his⟩
    · rw [hnone k hge] at hc
      cases hc
  have hlba : (dap kernelSectors).lba.toNat = 18 := rfl
  have hcount : (dap kernelSectors).count.toNat = 16 * m := hleft
  have haddress (i : ℕ) : (dap kernelSectors).address i = 0x100000 + 512 * i := rfl
  refine ⟨fun i hi ↦ ?_, fun k c hc j hj i hi hij ↦ ?_, fun k c hc ↦ .inr ?_⟩
  · rw [hcount] at hi
    obtain ⟨c, hc, his⟩ := hmade (i / 16) (by omega)
    refine ⟨(i / 16, i % 16), ⟨c, hc, by rw [his.count]; omega, ?_⟩, fun p hp ↦ ?_⟩
    · rw [his.lba, hlba]
      omega
    · obtain ⟨c', hc', hlt, hsector⟩ := hp
      obtain ⟨-, his'⟩ := hchunk hc'
      rw [his'.count] at hlt
      rw [his'.lba, hlba] at hsector
      exact Prod.ext (by simp only; omega) (by simp only; omega)
  · obtain ⟨hk, his⟩ := hchunk hc
    rw [his.lba, hlba] at hij
    rw [his.address, if_pos (by omega), haddress]
    omega
  · obtain ⟨hk, his⟩ := hchunk hc
    rw [his.address, if_pos (by omega)]
    omega

/-- **The kernel is loaded without LBA** like with it, and stage 2 stays what it is, exactly if its
size is a multiple of 16 sectors and at most 128. -/
theorem loadsLike_iff (kernelSectors : UInt16) (g : Geometry) (s : Chs) :
    LoadsLike (readChs kernelSectors (s.setGeometry g)) g (dap kernelSectors) ↔
      kernelSectors.toNat % 16 = 0 ∧ kernelSectors.toNat ≤ 128 := by
  have hstart := atChunk_start kernelSectors g s
  constructor
  · rintro ⟨-, -, hstage2⟩
    by_contra hn
    -- so something is left before each of the first nine chunks
    obtain ⟨c, hcall, hc⟩ := hstart.call (k := 8) (by omega) fun j _ hj ↦ by omega
    have hclear := hstage2 8 c hcall
    rw [hc.address, hc.count] at hclear
    exact absurd hclear (by decide)
  · rintro ⟨hmod, hle⟩
    obtain ⟨m, hm⟩ : ∃ m, kernelSectors.toNat = 16 * m := ⟨kernelSectors.toNat / 16, by omega⟩
    refine loadsLike_of_chunks (by omega) hm (fun k hk ↦ ?_) fun k hk ↦ ?_
    · obtain ⟨c, hcall, hc⟩ := hstart.call (k := k) (by omega) fun j _ hj ↦ by omega
      exact ⟨c, hcall, by rwa [Nat.zero_add] at hc⟩
    · exact hstart.over (Nat.zero_le m) (by omega) hm (by omega)

/-- A floppy disk. -/
def floppy : Geometry := ⟨2, 18, by decide, by decide, by decide, by decide⟩

/-- Stage 2 with nothing in its variables. -/
def blankChs : Chs := ⟨0, 0, 0, 0, 0, 0, 0, 0, 0, 0, 0⟩

/-- A kernel of five sectors: the ninth call stores to `0x10000`. -/
theorem five_sectors_overwrite_stage2 :
    (readChs 5 (blankChs.setGeometry floppy) 8).map Int13.address = some 0x10000 ∧
      ¬LoadsLike (readChs 5 (blankChs.setGeometry floppy)) floppy (dap 5) := by
  obtain ⟨c, hcall, hc⟩ := (atChunk_start 5 floppy blankChs).call (k := 8) (by decide)
    fun j _ _ ↦ by rw [show UInt16.toNat 5 = 5 from rfl]; omega
  have hcall' : readChs 5 (blankChs.setGeometry floppy) 8 = some c := hcall
  refine ⟨by rw [hcall', Option.map_some, hc.address]; rfl, fun hloads ↦ ?_⟩
  have hclear := hloads.2.2 8 c hcall'
  rw [hc.address, hc.count] at hclear
  exact absurd hclear (by decide)

end Aetherion.Boot
