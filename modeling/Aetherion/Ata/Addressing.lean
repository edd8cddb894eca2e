import Aetherion.Ata.TaskFile

/-!
# Which sector a request reaches

A request names its sectors by `lba`, `lba + 1`, …, and the drive has to be given these numbers.
On a 28-bit drive it is.  On a 48-bit drive it is given `wireLba`, in which bits 24-31 and bits
40-47 have changed places, so a request goes where it should exactly as long as these two bytes of
every sector number are equal, as they are below sector `2 ^ 24`.
-/

set_option autoImplicit false

namespace Aetherion.Ata

open Driver Driver.Prog Storage

/-- The sectors of the request exist in the address space of the drive. -/
def Addressable (lba : UInt64) (count : UInt32) (lba48 : Bool) : Prop :=
  lba.toNat + count.toNat ≤ if lba48 then 2 ^ 48 else 2 ^ 28

/-- In every run of `p`, the command with number `k`, counted from `0`, is `code` for the one
sector `lba + k`. -/
def Addresses {α : Type} (base : UInt16) (p : Kernel α) (code : UInt8) (lba : UInt64)
    (count : UInt32) : Prop :=
  ∀ dev h t k c, ((transfers base).reports t (p.trace dev h))[k]? = some c →
    k < count.toNat ∧ c.code = code ∧ c.lbaMode = true ∧ c.lba = lba.toNat + k ∧ c.count = 1

/-- The two bytes that change places are equal in every sector number of the request. -/
def HighBytesAgree (lba : UInt64) (count : UInt32) : Prop :=
  ∀ k < count.toNat, (lba.toNat + k) / 2 ^ 24 % 256 = (lba.toNat + k) / 2 ^ 40 % 256

/-- The sector on the wire is the one that was meant. -/
theorem wireLba_eq_iff {lba : UInt64} {lba48 : Bool}
    (hlba : lba.toNat < if lba48 then 2 ^ 48 else 2 ^ 28) :
    wireLba lba lba48 = lba.toNat ↔
      (lba48 = true → lba.toNat / 2 ^ 24 % 256 = lba.toNat / 2 ^ 40 % 256) := by
  cases lba48 with
  | true =>
    simp only [if_true] at hlba
    simp only [wireLba, if_true, true_implies]
    have h24 : lba.toNat / 2 ^ 24 / 256 = lba.toNat / 2 ^ 32 := Nat.div_div_eq_div_mul ..
    have h32 : lba.toNat / 2 ^ 32 / 256 = lba.toNat / 2 ^ 40 := Nat.div_div_eq_div_mul ..
    omega
  | false =>
    simp only [Bool.false_eq_true, if_false] at hlba
    simp only [wireLba, Bool.false_eq_true, if_false, false_implies, iff_true]
    omega

variable {lba : UInt64} {count : UInt32} {lba48 : Bool}

/-- Adding a sector index to the address does not wrap around. -/
theorem Addressable.toNat_add (h : Addressable lba count lba48) {k : ℕ} (hk : k < count.toNat) :
    (lba + (UInt32.ofNat k).toUInt64).toNat = lba.toNat + k := by
  have hcount := count.toNat_lt
  have hsum : lba.toNat + count.toNat ≤ 2 ^ 48 :=
    Nat.le_trans h (by split <;> decide)
  rw [UInt64.toNat_add, UInt32.toNat_toUInt64, UInt32.toNat_ofNat',
    Nat.mod_eq_of_lt (show k < 2 ^ 32 by omega), Nat.mod_eq_of_lt (by omega)]

/-- The command of a sector is for the sector that was meant. -/
theorem sectorCommand_lba_iff (h : Addressable lba count lba48) (code : UInt8) {k : ℕ}
    (hk : k < count.toNat) :
    (sectorCommand code lba lba48 k).lba = lba.toNat + k ↔
      (lba48 = true → (lba.toNat + k) / 2 ^ 24 % 256 = (lba.toNat + k) / 2 ^ 40 % 256) := by
  have hadd := h.toNat_add hk
  have hlt : lba.toNat + k < if lba48 then 2 ^ 48 else 2 ^ 28 := Nat.lt_of_lt_of_le (by omega) h
  rw [← hadd] at hlt ⊢
  exact wireLba_eq_iff hlt

/-- A program that sends the commands of the request's sectors in order, all of them at least once,
addresses them exactly when the two bytes agree. -/
theorem addresses_iff {α : Type} {base : UInt16} {p : Kernel α} {code : UInt8}
    (h : Addressable lba count lba48)
    (hsent : ∀ dev h t, ∃ k ≤ count.toNat, (transfers base).reports t (p.trace dev h) =
      (List.range k).map (sectorCommand code lba lba48))
    (hall : ∃ dev h t, (transfers base).reports t (p.trace dev h) =
      (List.range count.toNat).map (sectorCommand code lba lba48)) :
    Addresses base p code lba count ↔ (lba48 = true → HighBytesAgree lba count) := by
  constructor
  · intro haddr hext k hk
    obtain ⟨dev, hist, t, hrep⟩ := hall
    have hget : ((transfers base).reports t (p.trace dev hist))[k]? =
        some (sectorCommand code lba lba48 k) := by
      rw [hrep, List.getElem?_map, List.getElem?_range hk, Option.map_some]
    exact (sectorCommand_lba_iff h code hk).mp (haddr dev hist t k _ hget).2.2.2.1 hext
  · intro hagree dev hist t k c hget
    obtain ⟨n, hn, hrep⟩ := hsent dev hist t
    rw [hrep, List.getElem?_map, Option.map_eq_some_iff] at hget
    obtain ⟨i, hi, rfl⟩ := hget
    obtain ⟨hkn, hik⟩ := List.getElem?_eq_some_iff.mp hi
    rw [List.length_range] at hkn
    rw [List.getElem_range] at hik
    subst hik
    exact ⟨by omega, rfl, rfl,
      (sectorCommand_lba_iff h code (by omega)).mpr fun hext ↦ hagree hext k (by omega), rfl⟩

/-! ## A drive that is always ready -/

/-- Every status read shows data requested and no error, and every data word is zero. -/
def readyDrive : Device machine := steadyMachine 0x58 0 0

theorem ataWaitDrq_readyDrive (base : UInt16) :
    Returns readyDrive (fun r ↦ r = 0) (ataWaitDrq base 500) := by
  intro h
  rw [ataWaitDrq, show ((500 : UInt32) * 1000).toNat = 499999 + 1 from rfl, forLoop]
  have hstatus : (inb (base + 7)).value readyDrive h = 0x58 := rfl
  simp only [value_bind, hstatus, if_neg (show ¬(0x58 : UInt8) &&& 0x01 ≠ 0 by decide),
    if_pos (show (0x58 : UInt8) &&& 0x08 ≠ 0 by decide), value_pure]

/-- Against such a drive a read goes through all its sectors. -/
theorem ataPioRead_readyDrive (base : UInt16) (lba : UInt64) (count : UInt32)
    (buffer : UInt32 → UInt16) (lba48 : Bool) :
    Returns readyDrive (fun r ↦ r.1 = 0) (ataPioRead base lba count buffer lba48) := by
  refine (returns_forLoop (fun _ _ ↦ True) (fun _ ↦ False) (fun i buf _ _ _ ↦ ?_) trivial).bind
    fun r hr ↦ ?_
  · refine returns_then fun _ ↦ (ataWaitDrq_readyDrive base).bind fun drq hdrq ↦ ?_
    rw [if_neg (by omega)]
    exact returns_then fun _ ↦ returns_pure trivial
  · cases r with
    | error buf => cases hr
    | ok buf => exact returns_pure rfl

/-- And so does a write. -/
theorem ataPioWrite_readyDrive (base : UInt16) (lba : UInt64) (count : UInt32)
    (buffer : UInt32 → UInt16) (lba48 : Bool) :
    Returns readyDrive (fun r ↦ r = 0) (ataPioWrite base lba count buffer lba48) := by
  refine (returns_forLoop (fun _ _ ↦ True) (fun _ ↦ False) (fun i _ _ _ _ ↦ ?_) trivial).bind
    fun r hr ↦ ?_
  · refine returns_then fun _ ↦ (ataWaitDrq_readyDrive base).bind fun drq hdrq ↦ ?_
    rw [if_neg (by omega)]
    exact returns_then fun _ ↦ returns_then fun _ ↦ returns_then fun _ ↦ returns_pure trivial
  · cases r with
    | error _ => cases hr
    | ok _ => exact returns_pure rfl

/-! ## The requests that are addressed rightly -/

/-- **A request reaches its own sectors** if the drive takes 28-bit addresses, and on a 48-bit
drive exactly when bits 24-31 and bits 40-47 are equal in every sector number. -/
theorem ata_addresses_iff (base : UInt16) (lba : UInt64) (count : UInt32)
    (buffer : UInt32 → UInt16) (lba48 : Bool) (h : Addressable lba count lba48) :
    (Addresses base (ataPioRead base lba count buffer lba48) (readCode lba48) lba count ↔
      (lba48 = true → HighBytesAgree lba count)) ∧
    (Addresses base (ataPioWrite base lba count buffer lba48) (writeCode lba48) lba count ↔
      (lba48 = true → HighBytesAgree lba count)) := by
  refine ⟨addresses_iff h (fun dev hist t ↦ ?_) ⟨readyDrive, [], default, ?_⟩,
    addresses_iff h (fun dev hist t ↦ ?_) ⟨readyDrive, [], default, ?_⟩⟩
  · obtain ⟨k, hk, -, hrep, -⟩ := reports_ataPioRead base dev hist t lba count buffer lba48
    exact ⟨k, hk, hrep⟩
  · obtain ⟨k, hk, -, hrep, hall⟩ := reports_ataPioRead base readyDrive [] default lba count buffer
      lba48
    rw [hrep, hall (ataPioRead_readyDrive base lba count buffer lba48 [])]
  · obtain ⟨k, hk, -, hrep, -⟩ := reports_ataPioWrite base dev hist t lba count buffer lba48
    exact ⟨k, hk, hrep⟩
  · obtain ⟨k, hk, -, hrep, hall⟩ :=
      reports_ataPioWrite base readyDrive [] default lba count buffer lba48
    rw [hrep, hall (ataPioWrite_readyDrive base lba count buffer lba48 [])]

/-- The last sectors below `2 ^ 24` are addressed rightly. -/
theorem ata_addresses_low :
    Addresses 0x1F0 (ataPioRead 0x1F0 0xFFFFFE 2 (fun _ ↦ 0) true) 0x24 0xFFFFFE 2 :=
  (ata_addresses_iff 0x1F0 0xFFFFFE 2 (fun _ ↦ 0) true (by unfold Addressable; decide)).1.mpr
    fun _ ↦ by unfold HighBytesAgree; decide

/-- Sector `2 ^ 24` is not: the drive is given sector `2 ^ 40`. -/
theorem ata_addresses_wrong_sector :
    Addressable 0x1000000 1 true ∧
      ¬Addresses 0x1F0 (ataPioRead 0x1F0 0x1000000 1 (fun _ ↦ 0) true) 0x24 0x1000000 1 ∧
      ¬Addresses 0x1F0 (ataPioWrite 0x1F0 0x1000000 1 (fun _ ↦ 0) true) 0x34 0x1000000 1 := by
  refine ⟨by unfold Addressable; decide, ?_, ?_⟩
  · intro haddr
    obtain ⟨k, -, hpos, hrep, -⟩ :=
      reports_ataPioRead 0x1F0 readyDrive [] default 0x1000000 1 (fun _ ↦ 0) true
    have hget := congrArg (·[0]?) hrep
    rw [List.getElem?_map, List.getElem?_range (hpos (by decide))] at hget
    exact absurd (haddr readyDrive [] default 0 _ hget).2.2.2.1 (by decide)
  · intro haddr
    obtain ⟨k, -, hpos, hrep, -⟩ :=
      reports_ataPioWrite 0x1F0 readyDrive [] default 0x1000000 1 (fun _ ↦ 0) true
    have hget := congrArg (·[0]?) hrep
    rw [List.getElem?_map, List.getElem?_range (hpos (by decide))] at hget
    exact absurd (haddr readyDrive [] default 0 _ hget).2.2.2.1 (by decide)

end Aetherion.Ata
