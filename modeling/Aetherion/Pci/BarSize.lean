import Aetherion.Pci.Enable

/-!
# The size of a region

A base address register keeps the address bits above the size of its region, and shows its type in
the lowest bits whatever is written.  `pci_get_bar_size` writes all ones to it, reads back which
bits it keeps, restores it, and computes the size from the bits that are not kept.

The size is returned as an `int`, in which `2 ^ 31` is negative, and an I/O register that keeps
only the lower 16 address bits looks as if its region reached over all the bits above them.  For
all other registers the size is right (`bar_size_iff`).
-/

set_option autoImplicit false

namespace Aetherion.Pci

open Driver Driver.Prog Driver.Peripheral

/-! ## Base address registers -/

/-- The kinds of base address registers. -/
inductive BarKind where
  /-- Memory, with a 32-bit or a 64-bit address, prefetchable or not. -/
  | memory (is64 prefetch : Bool)
  /-- I/O, with all the upper address bits, or with the upper 16 hard-wired to 0. -/
  | io (wide : Bool)
  deriving DecidableEq

/-- The type bits. -/
def BarKind.typeBits : BarKind → UInt32
  | .memory is64 prefetch => (if is64 then 0x4 else 0) ||| (if prefetch then 0x8 else 0)
  | .io _ => 0x1

/-- The mask of the bits that are no address bits. -/
def BarKind.lowBits : BarKind → UInt32
  | .memory _ _ => 0xF
  | .io _ => 0x3

/-- How many they are. -/
def BarKind.lowWidth : BarKind → ℕ
  | .memory _ _ => 4
  | .io _ => 2

/-- How many address bits there are in the register. -/
def BarKind.width : BarKind → ℕ
  | .memory _ _ | .io true => 32
  | .io false => 16

/-- A base address register for a region of `2 ^ order` bytes. -/
structure Bar where
  /-- What it is for. -/
  kind : BarKind
  /-- The size of the region, as a power of two. -/
  order : ℕ
  /-- A region of memory has 16 bytes or more, one of I/O ports 4. -/
  least : kind.lowWidth ≤ order

/-- The bits that can be written. -/
def Bar.writable (bar : Bar) : UInt32 := .ofNat (2 ^ bar.kind.width - 2 ^ bar.order)

/-- What the register shows when this has been written. -/
def Bar.shown (bar : Bar) (val : UInt32) : UInt32 :=
  (val &&& bar.writable) ||| bar.kind.typeBits

/-- Where a base address register is. -/
def barRegister (i : Fin 6) : UInt8 := .ofNat (0x10 + i * 4)

/-- Configuration space in which one register is this base address register. -/
def barBank (a : PciAddress) (i : Fin 6) (bar : Bar) : Bank Dwords where
  read s a' reg := s a' reg
  write s a' reg val :=
    s.set a' reg (if a' = a ∧ reg = barRegister i then bar.shown val else val)

/-- The register holds the address of a region, and the entry has the same value, not `0`. -/
structure Cached (d : PciDevice) (a : PciAddress) (i : Fin 6) (bar : Bar) (s : Dwords) : Prop where
  address : d.At a
  aligned : bar.shown (s a (barRegister i)) = s a (barRegister i)
  cached : d.bar[i] = s a (barRegister i)
  nonzero : d.bar[i] ≠ 0

/-- **The size is reported**: it is the result, up to `2 ^ 31`, and configuration space is left as
it was. -/
structure SizeReported (d : PciDevice) (a : PciAddress) (i : Fin 6) (bar : Bar)
    (s₀ : UInt32 × Dwords) (h : Trace machine) : Prop where
  size : bar.order ≤ 31 →
    (pciGetBarSize d (i.val : ℤ)).value ((barBank a i bar).ports.device s₀) h = 2 ^ bar.order
  restored :
    ((barBank a i bar).ports.after s₀
      (h ++ (pciGetBarSize d (i.val : ℤ)).trace ((barBank a i bar).ports.device s₀) h)).2 =
    ((barBank a i bar).ports.after s₀ h).2

/-! ## The bits of a register -/

section
variable (bar : Bar)

theorem BarKind.typeBits_and (kind : BarKind) : kind.typeBits &&& ~~~kind.lowBits = 0 := by
  cases kind with
  | memory is64 prefetch => cases is64 <;> cases prefetch <;> decide
  | io wide => cases wide <;> decide

theorem BarKind.lowBits_toNat (kind : BarKind) :
    kind.lowBits.toNat = 2 ^ kind.lowWidth - 1 := by
  cases kind <;> rfl

theorem BarKind.width_le (kind : BarKind) : kind.lowWidth ≤ kind.width ∧ kind.width ≤ 32 := by
  rcases kind with ⟨_ | _, _ | _⟩ | ⟨_ | _⟩ <;> decide

theorem Bar.toNat_writable : bar.writable.toNat = 2 ^ bar.kind.width - 2 ^ bar.order := by
  have hwidth : 2 ^ bar.kind.width ≤ 2 ^ 32 := Nat.pow_le_pow_right (by decide) bar.kind.width_le.2
  have hpos := Nat.two_pow_pos bar.order
  rw [writable, UInt32.toNat_ofNat', Nat.mod_eq_of_lt (by omega)]

/-- The bits that can be written are address bits. -/
theorem Bar.writable_and : bar.writable &&& bar.kind.lowBits = 0 := by
  rw [← UInt32.toNat_inj, UInt32.toNat_and, bar.toNat_writable, bar.kind.lowBits_toNat,
    Nat.and_two_pow_sub_one_eq_mod]
  refine Nat.mod_eq_zero_of_dvd (Nat.dvd_sub ?_ ?_)
  · exact Nat.pow_dvd_pow 2 bar.kind.width_le.1
  · exact Nat.pow_dvd_pow 2 bar.least

/-- With all ones written, the bits above the type bits are those that can be written. -/
theorem Bar.shown_ones : bar.shown 0xFFFFFFFF &&& ~~~bar.kind.lowBits = bar.writable := by
  have hwritable := congrArg UInt32.toBitVec bar.writable_and
  have htype := congrArg UInt32.toBitVec bar.kind.typeBits_and
  rw [← UInt32.toBitVec_inj]
  change (BitVec.allOnes 32 &&& bar.writable.toBitVec ||| bar.kind.typeBits.toBitVec) &&&
    ~~~bar.kind.lowBits.toBitVec = _
  change bar.writable.toBitVec &&& bar.kind.lowBits.toBitVec = 0#32 at hwritable
  change bar.kind.typeBits.toBitVec &&& ~~~bar.kind.lowBits.toBitVec = 0#32 at htype
  ext i hi
  have hwritableI := congrArg (·[i]) hwritable
  have htypeI := congrArg (·[i]) htype
  simp only [BitVec.getElem_and, BitVec.getElem_or, BitVec.getElem_not, BitVec.getElem_zero,
    BitVec.getElem_allOnes] at hwritableI htypeI ⊢
  revert hwritableI htypeI
  cases bar.writable.toBitVec[i] <;> cases bar.kind.typeBits.toBitVec[i] <;>
    cases bar.kind.lowBits.toBitVec[i] <;> decide

/-- The lowest bit tells I/O from memory. -/
theorem Bar.shown_and_one (val : UInt32) : bar.shown val &&& 1 = bar.kind.typeBits &&& 1 := by
  have hone : bar.kind.lowBits &&& 1 = 1 := by
    rcases bar.kind with ⟨_ | _, _ | _⟩ | ⟨_ | _⟩ <;> decide
  have hzero : bar.writable &&& 1 = 0 := by
    rw [← hone, ← UInt32.and_assoc, bar.writable_and, UInt32.zero_and]
  have hval := congrArg UInt32.toBitVec hzero
  change bar.writable.toBitVec &&& 1#32 = 0#32 at hval
  rw [← UInt32.toBitVec_inj]
  change ((val.toBitVec &&& bar.writable.toBitVec) ||| bar.kind.typeBits.toBitVec) &&& 1#32 = _
  rw [BitVec.and_or_distrib_right, BitVec.and_assoc, hval, BitVec.and_zero, BitVec.zero_or]
  rfl

/-- So the mask is chosen by the kind of the register. -/
theorem Bar.mask_eq {val : UInt32} (hval : bar.shown val = val) :
    (if val &&& 1 ≠ 0 then 0x3 else 0xF : UInt32) = bar.kind.lowBits := by
  rw [← hval, bar.shown_and_one]
  rcases bar.kind with ⟨is64, prefetch⟩ | wide
  · cases is64 <;> cases prefetch <;> decide
  · cases wide <;> decide

/-! ## The size -/

/-- What is computed from the bits that can be written. -/
def Bar.size : ℤ := if bar.writable = 0 then 0 else (~~~bar.writable + 1).toInt32.toInt

/-- The bits that cannot be written, as a number. -/
theorem Bar.toNat_not_writable (hwritable : bar.writable ≠ 0) :
    (~~~bar.writable + 1).toNat = 2 ^ 32 - bar.writable.toNat := by
  have hpos : bar.writable.toNat ≠ 0 := fun h ↦ hwritable (UInt32.toNat_inj.mp h)
  rw [← UInt32.neg_eq_not_add, UInt32.toNat_neg]
  exact Nat.mod_eq_of_lt (by simp only [UInt32.size]; omega)

theorem Bar.size_eq (hwritable : bar.writable ≠ 0) : bar.size =
    if bar.writable.toNat ≤ 2 ^ 31 then (-bar.writable.toNat : ℤ)
    else 2 ^ 32 - bar.writable.toNat := by
  have hlt := bar.writable.toNat_lt
  rw [size, if_neg hwritable]
  change (~~~bar.writable + 1).toBitVec.toInt = _
  rw [BitVec.toInt_eq_toNat_cond]
  change (if 2 * (~~~bar.writable + 1).toNat < 2 ^ 32 then ((~~~bar.writable + 1).toNat : ℤ) else
    ((~~~bar.writable + 1).toNat : ℤ) - (2 ^ 32 : ℕ)) = _
  rw [bar.toNat_not_writable hwritable]
  split <;> split <;> omega

/-- **The size of a region of `2 ^ 31` bytes at most is right** for the smaller ones of these, if
all of the upper address bits are there. -/
theorem Bar.size_eq_iff (horder : bar.order ≤ 31) :
    bar.size = 2 ^ bar.order ↔ bar.order < 31 ∧ bar.kind ≠ .io false := by
  have hpos := Nat.two_pow_pos bar.order
  have hle : 2 ^ bar.order ≤ 2 ^ 31 := Nat.pow_le_pow_right (by decide) horder
  have hcast : ((2 ^ bar.order : ℕ) : ℤ) = 2 ^ bar.order := Int.natCast_pow 2 bar.order
  have hwritable := bar.toNat_writable
  by_cases hkind : bar.kind = .io false
  · -- the bits above the lower 16 look as if the region reached over them
    refine iff_of_false ?_ fun h ↦ h.2 hkind
    rw [hkind] at hwritable
    change _ = 2 ^ 16 - 2 ^ bar.order at hwritable
    by_cases hzero : bar.writable = 0
    · rw [size, if_pos hzero]
      omega
    · have hne : bar.writable.toNat ≠ 0 := fun h ↦ hzero (UInt32.toNat_inj.mp h)
      rw [bar.size_eq hzero, if_pos (by omega)]
      omega
  · have hwidth : bar.kind.width = 32 := by
      rcases hk : bar.kind with ⟨_, _⟩ | ⟨_ | _⟩
      · rfl
      · exact absurd hk hkind
      · rfl
    rw [hwidth] at hwritable
    have hzero : bar.writable ≠ 0 := by
      intro h
      rw [h, UInt32.toNat_zero] at hwritable
      omega
    rw [bar.size_eq hzero]
    by_cases htop : bar.order = 31
    · rw [htop] at hwritable ⊢
      exact iff_of_false (by omega) fun h ↦ absurd h.1 (lt_irrefl 31)
    · have hlt : 2 ^ bar.order < 2 ^ 31 := Nat.pow_lt_pow_right (by decide) (by omega)
      refine iff_of_true ?_ ⟨by omega, hkind⟩
      rw [if_neg (by omega)]
      omega

end

/-! ## The function -/

/-- A register written twice holds what was written last. -/
theorem Dwords.set_set (s : Dwords) (a : PciAddress) (reg : UInt8) (v w : UInt32) :
    (s.set a reg v).set a reg w = s.set a reg w := by
  rw [set, set, set, Function.update_idem, Function.update_self, Function.update_idem]

theorem Dwords.set_self (s : Dwords) (a : PciAddress) (reg : UInt8) :
    s.set a reg (s a reg) = s := by
  rw [set, Function.update_eq_self, Function.update_eq_self]

theorem barRegister_aligned (i : Fin 6) : barRegister i &&& 0xFC = barRegister i := by
  revert i
  decide

section
variable {a : PciAddress} {d : PciDevice} {i : Fin 6} {bar : Bar} {s₀ : UInt32 × Dwords}
  {x : UInt32} {s : Dwords}

/-- The register is written. -/
theorem runs_writeBar (hd : d.At a) (value : UInt32) :
    (barBank a i bar).ports.Runs s₀ (pciWriteConfig d (barRegister i) value) (x, s) ()
      (a.dwordAddress (barRegister i), s.set a (barRegister i) (bar.shown value)) := by
  refine (runs_pciWriteConfig hd _ _).of_eq rfl ?_
  rw [barRegister_aligned]
  exact congrArg (fun v ↦ (_, s.set a (barRegister i) v)) (if_pos ⟨rfl, rfl⟩)

/-- The register is read. -/
theorem runs_readBar (hd : d.At a) :
    (barBank a i bar).ports.Runs s₀ (pciReadConfig d (barRegister i)) (x, s)
      (s a (barRegister i)) (a.dwordAddress (barRegister i), s) := by
  refine (runs_pciReadConfig hd _).of_eq ?_ rfl
  rw [barRegister_aligned]
  rfl

/-- **The register is probed and restored.** -/
theorem runs_pciGetBarSize (hs : Cached d a i bar s) :
    (barBank a i bar).ports.Runs s₀ (pciGetBarSize d (i.val : ℤ)) (x, s) bar.size
      (a.dwordAddress (barRegister i), s) := by
  obtain ⟨haddress, haligned, hcached, hnonzero⟩ := hs
  have hindex : ¬((i.val : ℤ) < 0 ∨ 6 ≤ (i.val : ℤ)) := by omega
  have hbar : d.bar[(i.val : ℤ).toNat]! = d.bar[i] := getElem!_pos d.bar i.val i.isLt
  rw [pciGetBarSize, if_neg hindex, hbar, if_neg hnonzero]
  refine (runs_writeBar haddress 0xFFFFFFFF).bind ?_
  refine (runs_readBar haddress).bind ?_
  refine (runs_writeBar haddress d.bar[i]).bind ?_
  have hback : ((s.set a (barRegister i) (bar.shown 0xFFFFFFFF)).set a (barRegister i)
      (bar.shown d.bar[i])) = s := by
    rw [s.set_set, hcached, haligned, s.set_self]
  rw [hback, s.set_apply, bar.mask_eq (hcached ▸ haligned), bar.shown_ones, Bar.size]
  by_cases hzero : bar.writable = 0
  · simp only [if_pos hzero]
    exact runs_pure 0
  · simp only [if_neg hzero]
    exact runs_pure _

end

/-- **The size is reported**, and configuration space is left as it was, exactly when the size is
not `2 ^ 31` and the register is not one that keeps only the lower 16 bits of an I/O address. -/
theorem bar_size_iff (a : PciAddress) (d : PciDevice) (i : Fin 6) (bar : Bar)
    (s₀ : UInt32 × Dwords) (h : Trace machine)
    (hs : Cached d a i bar ((barBank a i bar).ports.after s₀ h).2) :
    SizeReported d a i bar s₀ h ↔
      (bar.order ≤ 31 → bar.order < 31 ∧ bar.kind ≠ .io false) := by
  obtain ⟨⟨x, s⟩, hstate⟩ : ∃ xs, (barBank a i bar).ports.after s₀ h = xs := ⟨_, rfl⟩
  rw [hstate] at hs
  obtain ⟨hvalue, hafter⟩ := runs_pciGetBarSize hs h hstate
  constructor
  · intro hreported horder
    rw [← bar.size_eq_iff horder, ← hvalue]
    exact hreported.size horder
  · intro hcondition
    refine ⟨fun horder ↦ ?_, ?_⟩
    · rw [hvalue, bar.size_eq_iff horder]
      exact hcondition horder
    · rw [hafter, hstate]

/-- A register for `2 ^ order` bytes of 32-bit memory. -/
def memoryBar (order : ℕ) (h : 4 ≤ order) : Bar := ⟨.memory false false, order, h⟩

/-- The entry of the first function, with this in its base address registers. -/
def barEntry (val : UInt32) : PciDevice :=
  { firstFunction.blankEntry with bar := .replicate 6 val }

/-- Four KiB. -/
theorem bar_size_page :
    SizeReported (barEntry 0xFEB00000) firstFunction ⟨0, by decide⟩ (memoryBar 12 (by decide))
      (0, fun _ _ ↦ 0xFEB00000) [] :=
  (bar_size_iff firstFunction (barEntry 0xFEB00000) ⟨0, by decide⟩ (memoryBar 12 (by decide))
    (0, fun _ _ ↦ 0xFEB00000) [] ⟨⟨rfl, rfl, rfl⟩, by decide, by decide, by decide⟩).mpr
      fun _ ↦ ⟨by decide, by decide⟩

/-- Two GiB are reported as a negative size. -/
theorem bar_size_negative :
    ¬SizeReported (barEntry 0x80000000) firstFunction ⟨0, by decide⟩ (memoryBar 31 (by decide))
      (0, fun _ _ ↦ 0x80000000) [] := by
  intro hreported
  have hs : Cached (barEntry 0x80000000) firstFunction ⟨0, by decide⟩ (memoryBar 31 (by decide))
      (fun _ _ ↦ 0x80000000) := ⟨⟨rfl, rfl, rfl⟩, by decide, by decide, by decide⟩
  have hsize := hreported.size (le_refl 31)
  rw [(runs_pciGetBarSize hs [] rfl).1] at hsize
  exact absurd ((Bar.size_eq_iff _ (le_refl 31)).mp hsize).1 (lt_irrefl 31)

end Aetherion.Pci
