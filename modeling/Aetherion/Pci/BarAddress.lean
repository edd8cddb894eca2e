import Aetherion.Pci.BarSize
import Aetherion.Pci.Capacity

/-!
# Where the regions are

The six base address registers of a function hold the addresses of its regions, with the type of a
region in the lowest bits of its register; the address of a region of 64-bit memory takes up two
registers.  `pci_get_bar_address` gets the address back from the copy of the registers that
`pci_init` has made.

It does so for every region of every function in the table, however regions of one and two
registers follow each other (`bar_addresses`).
-/

set_option autoImplicit false

namespace Aetherion.Pci

open Driver Driver.Prog

def pciGetBarAddress (dev : PciDevice) (barIndex : ℤ) : UInt64 :=
  if barIndex < 0 ∨ 6 ≤ barIndex then 0
  else
    let bar := dev.bar[barIndex.toNat]!
    if bar = 0 then 0
    else if bar &&& 0x1 ≠ 0 then (bar &&& ~~~0x3).toUInt64
    else
      let addr := (bar &&& ~~~0xF).toUInt64
      if bar &&& 0x4 ≠ 0 ∧ barIndex + 1 < 6 then
        addr ||| dev.bar[barIndex.toNat + 1]!.toUInt64 <<< 32
      else addr

/-! ## Regions -/

/-- The region has a 64-bit address. -/
def BarKind.is64 : BarKind → Bool
  | .memory is64 _ => is64
  | .io _ => false

/-- The lower half of an address. -/
def lowerHalf (addr : UInt64) : UInt32 := addr.toUInt32

/-- The upper half of an address. -/
def upperHalf (addr : UInt64) : UInt32 := (addr >>> 32).toUInt32

/-- A region, and where it is.  Memory at address 0 that is not prefetchable stands for a register
that is not in use. -/
structure Region where
  kind : BarKind
  /-- The address. -/
  addr : UInt64
  /-- The lowest bits are left to the type. -/
  aligned : lowerHalf addr &&& kind.lowBits = 0
  /-- The address fits in its registers. -/
  fits : kind.is64 = false → upperHalf addr = 0

/-- What the lower register of a region holds. -/
def Region.register (r : Region) : UInt32 := lowerHalf r.addr ||| r.kind.typeBits

/-- The registers of a region. -/
def Region.registers (r : Region) : List UInt32 :=
  r.register :: if r.kind.is64 then [upperHalf r.addr] else []

/-- The registers of some regions, one after the other. -/
def registers (layout : List Region) : List UInt32 := layout.flatMap Region.registers

/-- These are the regions of a function. -/
def ConfigSpace.Shows (cs : ConfigSpace) (a : PciAddress) (layout : List Region) : Prop :=
  (cs.entry a).bar.toList = registers layout

/-! ## A register -/

section
variable (r : Region)

theorem BarKind.and_typeBits (kind : BarKind) : kind.typeBits &&& kind.lowBits = kind.typeBits := by
  cases kind with
  | memory is64 prefetch => cases is64 <;> cases prefetch <;> decide
  | io wide => cases wide <;> decide

/-- The type is in the lowest bits. -/
theorem Region.register_and : r.register &&& r.kind.lowBits = r.kind.typeBits := by
  have haligned := congrArg UInt32.toBitVec r.aligned
  have htype := congrArg UInt32.toBitVec r.kind.and_typeBits
  rw [← UInt32.toBitVec_inj]
  change (lowerHalf r.addr).toBitVec &&& r.kind.lowBits.toBitVec = 0#32 at haligned
  change r.kind.typeBits.toBitVec &&& r.kind.lowBits.toBitVec = r.kind.typeBits.toBitVec at htype
  change ((lowerHalf r.addr).toBitVec ||| r.kind.typeBits.toBitVec) &&& _ = _
  rw [BitVec.and_or_distrib_right, haligned, htype, BitVec.zero_or]

/-- The address is in the others. -/
theorem Region.register_and_not : r.register &&& ~~~r.kind.lowBits = lowerHalf r.addr := by
  have haligned := congrArg UInt32.toBitVec r.aligned
  have htype := congrArg UInt32.toBitVec r.kind.typeBits_and
  rw [← UInt32.toBitVec_inj]
  change (lowerHalf r.addr).toBitVec &&& r.kind.lowBits.toBitVec = 0#32 at haligned
  change r.kind.typeBits.toBitVec &&& ~~~r.kind.lowBits.toBitVec = 0#32 at htype
  change ((lowerHalf r.addr).toBitVec ||| r.kind.typeBits.toBitVec) &&& ~~~_ = _
  rw [BitVec.and_or_distrib_right, htype, BitVec.or_zero]
  ext i hi
  have hbit := congrArg (·[i]) haligned
  simp only [BitVec.getElem_and, BitVec.getElem_not, BitVec.getElem_zero] at hbit ⊢
  revert hbit
  cases (lowerHalf r.addr).toBitVec[i] <;> cases r.kind.lowBits.toBitVec[i] <;> decide

/-- What a test of some of the lowest bits sees. -/
theorem Region.register_test {mask : UInt32} (hmask : r.kind.lowBits &&& mask = mask) :
    r.register &&& mask = r.kind.typeBits &&& mask := by
  rw [← r.register_and, UInt32.and_assoc, hmask]

variable {r}

theorem Region.register_io {wide : Bool} (h : r.kind = .io wide) : r.register &&& 1 = 1 := by
  rw [r.register_test (h ▸ show (0x3 : UInt32) &&& 1 = 1 by decide), h]
  exact show (1 : UInt32) &&& 1 = 1 by decide

theorem Region.register_memory {is64 prefetch : Bool} (h : r.kind = .memory is64 prefetch) :
    r.register &&& 1 = 0 ∧ r.register &&& 4 = if is64 then 4 else 0 := by
  rw [r.register_test (h ▸ show (0xF : UInt32) &&& 1 = 1 by decide),
    r.register_test (h ▸ show (0xF : UInt32) &&& 4 = 4 by decide), h]
  cases is64 <;> cases prefetch <;> decide

end

/-- **An address is put together from its halves.** -/
theorem halves (addr : UInt64) :
    (lowerHalf addr).toUInt64 ||| (upperHalf addr).toUInt64 <<< 32 = addr := by
  have hlt := addr.toNat_lt
  rw [← UInt64.toNat_inj, UInt64.toNat_or, UInt64.toNat_shiftLeft, UInt32.toNat_toUInt64,
    UInt32.toNat_toUInt64, lowerHalf, upperHalf, UInt64.toNat_toUInt32, UInt64.toNat_toUInt32,
    UInt64.toNat_shiftRight, Nat.shiftRight_eq_div_pow, Nat.shiftLeft_eq,
    show UInt64.toNat 32 % 64 = 32 from rfl, Nat.or_comm,
    Words.or_eq_add 32 (by omega) (Nat.mod_lt _ (by decide))]
  omega

/-- Without an upper half the lower half is all of it. -/
theorem lower_eq {addr : UInt64} (h : upperHalf addr = 0) : (lowerHalf addr).toUInt64 = addr := by
  have hjoined := halves addr
  rwa [h, show (0 : UInt32).toUInt64 <<< 32 = 0 from rfl, UInt64.or_zero] at hjoined

/-- So one register is enough for an address that is not a 64-bit one. -/
theorem Region.addr_of_register (r : Region) (h : r.kind.is64 = false) :
    (r.register &&& ~~~r.kind.lowBits).toUInt64 = r.addr := by
  rw [r.register_and_not, lower_eq (r.fits h)]

/-! ## The function -/

section
variable {d : PciDevice} {pre post : List UInt32} {x : UInt32}

/-- The register after some others. -/
theorem bar_after (h : d.bar.toList = pre ++ x :: post) : d.bar[pre.length]! = x := by
  have hlen := congrArg List.length h
  rw [Vector.length_toList, List.length_append, List.length_cons] at hlen
  rw [getElem!_pos d.bar pre.length (by omega), ← Vector.getElem_toList (by simp; omega)]
  simp [h]

/-- **A region is found** in the register that it begins in. -/
theorem pciGetBarAddress_eq {r : Region} (h : d.bar.toList = pre ++ (r.registers ++ post)) :
    pciGetBarAddress d (pre.length : ℤ) = r.addr := by
  have hlen := congrArg List.length h
  rw [Vector.length_toList, List.length_append, List.length_append, Region.registers,
    List.length_cons] at hlen
  have hbar : d.bar[pre.length]! = r.register := bar_after h
  have hindex : ¬((pre.length : ℤ) < 0 ∨ 6 ≤ (pre.length : ℤ)) := by omega
  have hnot := r.register_and_not
  have hone := r.addr_of_register
  rw [pciGetBarAddress, if_neg hindex, Int.toNat_natCast, hbar]
  rcases hkind : r.kind with ⟨_ | _, prefetch⟩ | wide
  · obtain ⟨hio, h64⟩ := Region.register_memory hkind
    rw [hkind] at hone
    have haddr : (r.register &&& ~~~0xF).toUInt64 = r.addr := hone rfl
    by_cases hzero : r.register = 0
    · rw [← haddr, hzero]
      exact if_pos rfl
    · simp only [if_neg hzero, hio, h64, ne_eq, not_true_eq_false, if_false]
      exact haddr
  · rw [hkind] at hnot
    obtain ⟨hio, h64⟩ := Region.register_memory hkind
    have hzero : r.register ≠ 0 := fun h ↦ absurd (h ▸ h64) (by decide)
    have hlow : r.register &&& ~~~0xF = lowerHalf r.addr := hnot
    -- the upper half is in the next register, and that one is there
    have hregs : r.registers = [r.register, upperHalf r.addr] := by
      rw [Region.registers, hkind]
      rfl
    have hnext : d.bar[pre.length + 1]! = upperHalf r.addr := by
      rw [hregs] at h
      have hafter := @bar_after d (pre ++ [r.register]) post (upperHalf r.addr) (by simpa using h)
      simpa using hafter
    have hroom : (pre.length : ℤ) + 1 < 6 := by
      rw [hkind] at hlen
      simp [BarKind.is64] at hlen
      omega
    simp only [if_neg hzero, hio, h64, hroom, hnext, hlow, ne_eq, not_true_eq_false, if_false,
      and_true]
    exact halves r.addr
  · have hio := Region.register_io hkind
    have hzero : r.register ≠ 0 := fun h ↦ absurd (h ▸ hio) (by decide)
    rw [hkind] at hone
    have haddr : (r.register &&& ~~~0x3).toUInt64 = r.addr := hone rfl
    simp only [if_neg hzero, hio]
    exact haddr

end

/-! ## The table -/

/-- Every place of the table is blank or has the entry of a function that exists. -/
def PciTable.Copies (cs : ConfigSpace) (t : PciTable) : Prop :=
  ∀ d ∈ t.devices, d = .blank ∨ ∃ a, cs.Exists a ∧ d = cs.entry a

section
variable {cs : ConfigSpace} {t : PciTable} {s s' : ScanState}

theorem copies_empty (cs : ConfigSpace) : PciTable.empty.Copies cs := by
  intro d hd
  rw [PciTable.empty, Vector.mem_replicate] at hd
  exact .inl hd.2

theorem PciTable.Copies.put (h : t.Copies cs) {a : PciAddress} (ha : cs.Exists a) {slot : ℕ}
    (hslot : slot < maxPciDevices) : (t.put slot hslot (cs.entry a)).Copies cs := by
  intro d hd
  have hset : d ∈ t.devices.set slot (cs.entry a) hslot := hd
  rcases Vector.mem_or_eq_of_mem_set hset with hold | rfl
  · exact h d hold
  · exact .inr ⟨a, ha, rfl⟩

theorem PciTable.Copies.passEnd (h : t.Copies cs) (calls : List ScanCall) :
    (passEnd calls t).table.Copies cs := by
  cases calls with
  | nil => exact h
  | cons c calls => exact h

/-- **A step of the scan** writes only entries of functions that exist. -/
theorem PciTable.Copies.step (h : s.table.Copies cs) (hstep : scanStep cs s = some s') :
    s'.table.Copies cs := by
  obtain ⟨_ | ⟨c, calls⟩, t⟩ := s
  · cases hstep
  obtain rfl := Option.some.inj hstep
  rw [scanPass]
  split_ifs with hend hexists hslot hbridge
  · exact h.passEnd calls
  · exact h.put hexists hslot
  · exact (h.put hexists hslot).passEnd _
  · exact h.passEnd calls
  · exact h

theorem Reaches.copies (hway : Reaches cs s s') (h : s.table.Copies cs) : s'.table.Copies cs := by
  induction hway with
  | refl => exact h
  | tail _ hstep ih => exact ih.step hstep

end

/-- **The regions of every function in the table are where the table says.** -/
theorem bar_addresses {dev : Device machine} {cs : ConfigSpace} {h : Trace machine}
    (hs : Serves dev cs h) {t : PciTable} (ht : PciInitReturns dev h t) :
    ∀ d ∈ t.devices, d = .blank ∨ ∃ a, cs.Exists a ∧ d = cs.entry a ∧
      ∀ layout, cs.Shows a layout → ∀ pre r post, layout = pre ++ r :: post →
        pciGetBarAddress d ((registers pre).length : ℤ) = r.addr := by
  intro d hd
  refine ((reaches_of_returns hs ht).copies (copies_empty cs) d hd).imp id ?_
  rintro ⟨a, ha, rfl⟩
  refine ⟨a, ha, rfl, fun layout hshows pre r post hlayout ↦ ?_⟩
  rw [ConfigSpace.Shows, hlayout, registers, List.flatMap_append, List.flatMap_cons] at hshows
  exact pciGetBarAddress_eq hshows

/-- One function, with 64-bit memory at 32 GiB and ports from `0xC000` on. -/
def oneCard : ConfigSpace := fun address ↦
  if address = 0x80000000 then 0x100E8086
  else if address = 0x80000010 then 0x0000000C
  else if address = 0x80000014 then 0x00000008
  else if address = 0x80000018 then 0x0000C001
  else 0

theorem eq_of_exists_oneCard {a : PciAddress} (ha : oneCard.Exists a) : a = ⟨0, 0, 0⟩ := by
  obtain ⟨-, hne⟩ := ha
  have haddress := toNat_pciMakeAddress a 0
  rw [show ((0 : UInt8) &&& 0xFC).toNat = 0 from rfl] at haddress
  rw [ConfigSpace.dword, oneCard] at hne
  obtain ⟨bus, device, function⟩ := a
  simp only at hne haddress
  split_ifs at hne with h h h h
  · simp only [h, UInt32.reduceToNat] at haddress
    rw [PciAddress.mk.injEq, Fin.ext_iff, Fin.ext_iff, ← UInt8.toNat_inj]
    exact ⟨by simp; omega, by simp; omega, by simp; omega⟩
  · simp only [h, UInt32.reduceToNat] at haddress
    omega
  · simp only [h, UInt32.reduceToNat] at haddress
    omega
  · simp only [h, UInt32.reduceToNat] at haddress
    omega
  · exact absurd rfl hne

/-- Its regions. -/
def cardRegions : List Region :=
  [⟨.memory true true, 0x800000000, by decide, by decide⟩,
    ⟨.io true, 0xC000, by decide, by decide⟩] ++
  .replicate 3 ⟨.memory false false, 0, by decide, by decide⟩

theorem shows_cardRegions : oneCard.Shows ⟨0, 0, 0⟩ cardRegions := by
  rw [ConfigSpace.Shows]
  decide +kernel

/-- They are found. -/
theorem bar_addresses_card : ∃ t, PciInitReturns (configMachine oneCard) [] t ∧
    ∀ d ∈ t.devices, d = .blank ∨
      pciGetBarAddress d 0 = 0x800000000 ∧ pciGetBarAddress d 2 = 0xC000 := by
  obtain ⟨t, ht⟩ := exists_pciInitReturns (serves_configMachine oneCard []) (fun _ ↦ 0)
    fun a ha hbridge ↦ absurd (eq_of_exists_oneCard ha ▸ hbridge) (by decide)
  refine ⟨t, ht, fun d hd ↦ (bar_addresses (serves_configMachine oneCard []) ht d hd).imp id ?_⟩
  rintro ⟨a, ha, -, hregions⟩
  have hshows : oneCard.Shows a cardRegions := eq_of_exists_oneCard ha ▸ shows_cardRegions
  exact ⟨hregions _ hshows [] _ _ rfl, hregions _ hshows [_] _ _ rfl⟩

end Aetherion.Pci
