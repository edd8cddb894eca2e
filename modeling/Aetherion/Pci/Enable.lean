import Aetherion.Pci.Registers

/-!
# Enabling a device

The command register shares its double word with the status register, and some of the bits of that
one are cleared by writing a one to them.  `pci_enable_device` and `pci_enable_bus_master` set bits
of the command register with `pci_write_config16`, which reads the double word, replaces the lower
half and writes all of it back.  So every error that the status register shows is acknowledged in
passing, and nothing but the command bits changes only if it shows none
(`enable_sets_command_iff`).
-/

set_option autoImplicit false

namespace Aetherion.Pci

open Driver Driver.Prog Driver.Peripheral

/-! ## The registers -/

/-- The double words of every function. -/
abbrev Dwords := PciAddress → UInt8 → UInt32

/-- One of them replaced. -/
def Dwords.set (s : Dwords) (a : PciAddress) (reg : UInt8) (val : UInt32) : Dwords :=
  Function.update s a (Function.update (s a) reg val)

theorem Dwords.set_apply (s : Dwords) (a : PciAddress) (reg : UInt8) (val : UInt32) :
    s.set a reg val a reg = val := by
  rw [set, Function.update_self, Function.update_self]

theorem Dwords.set_injective (s : Dwords) (a : PciAddress) (reg : UInt8) :
    Function.Injective (s.set a reg) := by
  intro v w h
  rw [← s.set_apply a reg v, h, s.set_apply]

/-- The error bits of the status register, in the double word at `0x04`: detected parity error,
signaled system error, received and signaled aborts, and master data parity error. -/
def statusErrors : UInt32 := 0xF9000000

/-- What a write to the double word at `0x04` makes of it: the command register takes what is
written, and in the status register the error bits that are written as ones are cleared. -/
def commandStatus (old val : UInt32) : UInt32 :=
  (val &&& 0xFFFF) ||| (old &&& ~~~(val &&& statusErrors) &&& ~~~0xFFFF)

/-- Configuration space in which only the status register does not keep what is written. -/
def commandBank : Bank Dwords where
  read s a reg := s a reg
  write s a reg val := s.set a reg (if reg = 0x04 then commandStatus (s a reg) val else val)

/-- Started after a history, the program sets these bits of the command register of a function, and
changes no other bit of configuration space. -/
def SetsCommand (p : Kernel Unit) (bits : UInt16) (a : PciAddress) (s₀ : UInt32 × Dwords)
    (h : Trace machine) : Prop :=
  let s := (commandBank.ports.after s₀ h).2
  (commandBank.ports.after s₀ (h ++ p.trace (commandBank.ports.device s₀) h)).2 =
    s.set a 0x04 (s a 0x04 ||| bits.toUInt32)

/-- Before the program, the status register of the function shows no error. -/
def NoErrors (a : PciAddress) (s₀ : UInt32 × Dwords) (h : Trace machine) : Prop :=
  (commandBank.ports.after s₀ h).2 a 0x04 &&& statusErrors = 0

/-! ## What is written back -/

/-- A register with the bits `M` that keep what is written, and bits `E` outside of them that are
cleared by ones: read, joined with `b` inside of `M` and written back, it has only changed in `b`
if no bit of `E` was set. -/
theorem writeBack_iff {old b E M : BitVec 32} (hE : E &&& M = 0#32) (hb : b &&& M = b) :
    ((((old &&& ~~~M) ||| (old &&& M ||| b)) &&& M) |||
        (old &&& ~~~(((old &&& ~~~M) ||| (old &&& M ||| b)) &&& E) &&& ~~~M)) = old ||| b ↔
      old &&& E = 0#32 := by
  have hbit (i : ℕ) (hi : i < 32) :
      ((((old &&& ~~~M) ||| (old &&& M ||| b)) &&& M) |||
        (old &&& ~~~(((old &&& ~~~M) ||| (old &&& M ||| b)) &&& E) &&& ~~~M))[i] = (old ||| b)[i] ↔
      (old &&& E)[i] = (0#32)[i] := by
    have hEI := congrArg (·[i]) hE
    have hbI := congrArg (·[i]) hb
    simp only [BitVec.getElem_and, BitVec.getElem_or, BitVec.getElem_not, BitVec.getElem_zero]
      at hEI hbI ⊢
    revert hEI hbI
    cases old[i] <;> cases b[i] <;> cases E[i] <;> cases M[i] <;> decide
  constructor
  · intro hback
    ext i hi
    exact (hbit i hi).mp (congrArg (·[i]) hback)
  · intro hclear
    ext i hi
    exact (hbit i hi).mpr (congrArg (·[i]) hclear)

/-- The double word that `pci_write_config16` writes back. -/
theorem mergeAt_command (old : UInt32) (bits : UInt16) :
    mergeAt old 0xFFFF (((old >>> regShift 0x04) &&& 0xFFFF).toUInt16 ||| bits).toUInt32 0x04 =
      (old &&& ~~~0xFFFF) ||| ((old &&& 0xFFFF) ||| bits.toUInt32) := by
  have hlow : ((old &&& 0xFFFF).toUInt16).toUInt32 = old &&& 0xFFFF := by
    rw [UInt32.toUInt32_toUInt16, ← UInt32.toNat_inj, UInt32.toNat_mod, UInt32.toNat_and]
    exact Nat.mod_eq_of_lt (Nat.lt_of_le_of_lt Nat.and_le_right (by decide))
  have hshift : regShift 0x04 = 0 := by decide
  rw [mergeAt, hshift, UInt32.shiftRight_zero, UInt32.shiftLeft_zero, UInt32.shiftLeft_zero,
    UInt16.toUInt32_or, hlow]

theorem commandStatus_iff (old : UInt32) (bits : UInt16) :
    commandStatus old ((old &&& ~~~0xFFFF) ||| ((old &&& 0xFFFF) ||| bits.toUInt32)) =
        old ||| bits.toUInt32 ↔ old &&& statusErrors = 0 := by
  have hbits : bits.toUInt32 &&& 0xFFFF = bits.toUInt32 := by
    rw [← UInt32.toNat_inj, UInt32.toNat_and, UInt16.toNat_toUInt32]
    exact (Nat.and_two_pow_sub_one_eq_mod _ 16).trans (Nat.mod_eq_of_lt bits.toNat_lt)
  rw [← UInt32.toBitVec_inj, ← UInt32.toBitVec_inj (b := 0)]
  exact writeBack_iff (by decide) (UInt32.toBitVec_inj.mpr hbits)

/-! ## The two functions -/

section
variable {a : PciAddress} {d : PciDevice} {s₀ : UInt32 × Dwords} {h : Trace machine}

/-- Bits of the command register are set, and nothing else changes, if there are no errors. -/
theorem sets_command_iff (hd : d.At a) (bits : UInt16) :
    SetsCommand (pciSetCommand d bits) bits a s₀ h ↔ NoErrors a s₀ h := by
  obtain ⟨⟨x, s⟩, hs⟩ : ∃ xs, commandBank.ports.after s₀ h = xs := ⟨_, rfl⟩
  have hread : commandBank.ports.Runs s₀ (pciReadConfig16 d 0x04) (x, s) _ _ :=
    runs_pciReadConfig16 hd 0x04
  have hrun : commandBank.ports.Runs s₀ (pciSetCommand d bits) (x, s) () _ :=
    hread.bind (runs_pciWriteConfig16 hd 0x04 _)
  rw [SetsCommand, NoErrors, hs, (hrun h hs).2]
  change s.set a 0x04 (commandStatus (s a 0x04) (mergeAt (s a 0x04) 0xFFFF _ 0x04)) = _ ↔ _
  rw [(s.set_injective a 0x04).eq_iff]
  refine Iff.trans ?_ (commandStatus_iff (s a 0x04) bits)
  rw [← mergeAt_command]
  exact Iff.rfl

end

/-- **The intended command bits are set, and no other bit changes**, exactly when the status
register shows no error. -/
theorem enable_sets_command_iff (a : PciAddress) (d : PciDevice) (hd : d.At a)
    (s₀ : UInt32 × Dwords) (h : Trace machine) :
    (SetsCommand (pciEnableDevice d) 7 a s₀ h ↔ NoErrors a s₀ h) ∧
      (SetsCommand (pciEnableBusMaster d) 4 a s₀ h ↔ NoErrors a s₀ h) :=
  ⟨sets_command_iff hd 7, sets_command_iff hd 4⟩

/-- The function at the start of bus 0. -/
def firstFunction : PciAddress := ⟨0, ⟨0, by decide⟩, ⟨0, by decide⟩⟩

/-- Without errors. -/
theorem enable_sets_command_clean :
    SetsCommand (pciEnableDevice firstFunction.blankEntry) 7 firstFunction (0, fun _ _ ↦ 0) [] :=
  (enable_sets_command_iff firstFunction firstFunction.blankEntry (blankEntry_at _) _ []).1.mpr
    (by rw [NoErrors]; exact UInt32.zero_and)

/-- A master abort that has been received is acknowledged when the bus master is enabled. -/
theorem enable_clears_an_error :
    ¬SetsCommand (pciEnableBusMaster firstFunction.blankEntry) 4 firstFunction
      (0, fun _ _ ↦ 0x20000000) [] := by
  intro hsets
  have hnone : NoErrors firstFunction (0, fun _ _ ↦ 0x20000000) [] :=
    (sets_command_iff (blankEntry_at _) 4).mp hsets
  rw [NoErrors] at hnone
  exact absurd hnone (by decide)

end Aetherion.Pci
