import Aetherion.Base.Words

/-!
# The command the AHCI driver sends

`ahci_build_reg_fis` writes an ATA command into a Register Host-to-Device FIS, and
`ahci_read_sectors` and `ahci_write_sectors` choose the command: the 28-bit one as long as
`lba + count` stays below `2 ^ 28`, the EXT one above.

`decode` reads the FIS the way the device does.  The driver and the device do not agree on where
the address goes: the device takes LBA bits 0-23 from bytes 4 to 6 and bits 24-47 from bytes 8 to
10, and the driver has the two groups the other way round, or leaves the first one empty.
`fis_arrives_iff` says for exactly which requests that makes no difference.
-/

set_option autoImplicit false

namespace Aetherion.Ahci

/-- A command FIS, padded to the 64 bytes of the command table's `cfis`. -/
abbrev Fis := Vector UInt8 64

/-- `AHCI_FIS_TYPE_REG_H2D`. -/
def fisTypeRegH2D : UInt8 := 0x27

def ahciBuildRegFis (command : UInt8) (lba : UInt64) (count : UInt32) (lba48 : Bool) : Fis :=
  let fis : Fis := Vector.replicate 64 0
  let fis := fis.set 0 fisTypeRegH2D
  let fis := fis.set 1 ((1 : UInt8) <<< 7)
  let fis := fis.set 2 command
  let fis := fis.set 3 0
  let fis :=
    if lba48 then
      let fis := fis.set 4 ((lba >>> 24) &&& 0xFF).toUInt8
      let fis := fis.set 5 ((lba >>> 32) &&& 0xFF).toUInt8
      let fis := fis.set 6 ((lba >>> 40) &&& 0xFF).toUInt8
      let fis := fis.set 7 0
      let fis := fis.set 8 (lba &&& 0xFF).toUInt8
      let fis := fis.set 9 ((lba >>> 8) &&& 0xFF).toUInt8
      let fis := fis.set 10 ((lba >>> 16) &&& 0xFF).toUInt8
      let fis := fis.set 11 ((count >>> 8) &&& 0xFF).toUInt8
      fis.set 12 (count &&& 0xFF).toUInt8
    else
      let fis := fis.set 4 0
      let fis := fis.set 5 0
      let fis := fis.set 6 0
      let fis := fis.set 7 ((0x40 : UInt64) ||| ((lba >>> 24) &&& 0x0F)).toUInt8
      let fis := fis.set 8 (lba &&& 0xFF).toUInt8
      let fis := fis.set 9 ((lba >>> 8) &&& 0xFF).toUInt8
      let fis := fis.set 10 ((lba >>> 16) &&& 0xFF).toUInt8
      let fis := fis.set 11 0
      fis.set 12 (count &&& 0xFF).toUInt8
  fis.set 13 0

/-- `lba48`, as `ahci_read_sectors` and `ahci_write_sectors` compute it. -/
def needsExt (lba : UInt64) (count : UInt32) : Bool := lba + count.toUInt64 > 0xFFFFFFF

/-- Which of the EXT command and the 28-bit one is chosen. -/
def chosenCommand (ext short : UInt8) (lba : UInt64) (count : UInt32) : UInt8 :=
  if needsExt lba count then ext else short

/-- The FIS of a request, given the EXT command and the 28-bit one. -/
def requestFis (ext short : UInt8) (lba : UInt64) (count : UInt32) : Fis :=
  if needsExt lba count then ahciBuildRegFis ext lba count true
  else ahciBuildRegFis short lba count false

/-- READ DMA EXT or READ DMA. -/
def readCommand (lba : UInt64) (count : UInt32) : UInt8 := chosenCommand 0x25 0xC8 lba count

/-- The FIS `ahci_read_sectors` builds. -/
def readFis (lba : UInt64) (count : UInt32) : Fis := requestFis 0x25 0xC8 lba count

/-- WRITE DMA EXT or WRITE DMA. -/
def writeCommand (lba : UInt64) (count : UInt32) : UInt8 := chosenCommand 0x35 0xCA lba count

/-- The FIS `ahci_write_sectors` builds. -/
def writeFis (lba : UInt64) (count : UInt32) : Fis := requestFis 0x35 0xCA lba count

/-! ## What the device reads -/

/-- An ATA command as the device understands it. -/
structure AtaCommand where
  /-- The command code. -/
  command : UInt8
  /-- Bit 6 of the device register: the address is an LBA. -/
  lbaMode : Bool
  /-- The first sector. -/
  lba : ℕ
  /-- How many sectors. -/
  count : ℕ
deriving DecidableEq, Repr

/-- READ DMA EXT and WRITE DMA EXT take 48-bit addresses. -/
def isExt (command : UInt8) : Bool := command = 0x25 ∨ command = 0x35

/-- The Register Host-to-Device FIS, decoded.  Bytes 4 to 6 and 8 to 10 are the two halves of the
address, byte 7 is the device register, bytes 12 and 13 are the count, where 0 stands for the
largest one. -/
def decode (fis : Fis) : Option AtaCommand :=
  if fis[0] = fisTypeRegH2D ∧ fis[1] &&& 0x80 ≠ 0 then
    let low := fis[4].toNat + 2 ^ 8 * fis[5].toNat + 2 ^ 16 * fis[6].toNat
    let high := fis[8].toNat + 2 ^ 8 * fis[9].toNat + 2 ^ 16 * fis[10].toNat
    let mode : Bool := fis[7] &&& 0x40 ≠ 0
    if isExt fis[2] then
      let n := fis[12].toNat + 2 ^ 8 * fis[13].toNat
      some ⟨fis[2], mode, low + 2 ^ 24 * high, if n = 0 then 65536 else n⟩
    else
      let n := fis[12].toNat
      some ⟨fis[2], mode, low + 2 ^ 24 * (fis[7].toNat % 16), if n = 0 then 256 else n⟩
  else none

/-! ## Encoding and decoding -/

variable {lba : UInt64} {count : UInt32}

theorem decode_of_ext {fis : Fis} (hfis : fis[0] = fisTypeRegH2D ∧ fis[1] &&& 0x80 ≠ 0)
    (hext : isExt fis[2] = true) :
    decode fis =
      some ⟨fis[2], fis[7] &&& 0x40 ≠ 0,
        fis[4].toNat + 2 ^ 8 * fis[5].toNat + 2 ^ 16 * fis[6].toNat +
          2 ^ 24 * (fis[8].toNat + 2 ^ 8 * fis[9].toNat + 2 ^ 16 * fis[10].toNat),
        if fis[12].toNat + 2 ^ 8 * fis[13].toNat = 0 then 65536
        else fis[12].toNat + 2 ^ 8 * fis[13].toNat⟩ := by
  rw [decode, if_pos hfis]
  exact if_pos hext

theorem decode_of_short {fis : Fis} (hfis : fis[0] = fisTypeRegH2D ∧ fis[1] &&& 0x80 ≠ 0)
    (hshort : isExt fis[2] = false) :
    decode fis =
      some ⟨fis[2], fis[7] &&& 0x40 ≠ 0,
        fis[4].toNat + 2 ^ 8 * fis[5].toNat + 2 ^ 16 * fis[6].toNat +
          2 ^ 24 * (fis[7].toNat % 16),
        if fis[12].toNat = 0 then 256 else fis[12].toNat⟩ := by
  rw [decode, if_pos hfis]
  exact if_neg (by rw [hshort]; decide)

/-- Both forms start with the type byte and the command bit. -/
theorem ahciBuildRegFis_head (command : UInt8) (lba : UInt64) (count : UInt32) (lba48 : Bool) :
    (ahciBuildRegFis command lba count lba48)[0] = fisTypeRegH2D ∧
      (ahciBuildRegFis command lba count lba48)[1] &&& 0x80 ≠ 0 := by
  have h1 : (ahciBuildRegFis command lba count lba48)[1] = (1 : UInt8) <<< 7 := by
    cases lba48 <;>
      simp only [ahciBuildRegFis, Bool.false_eq_true, if_true, if_false, Vector.getElem_set,
        Nat.reduceEqDiff]
  refine ⟨?_, by rw [h1]; decide⟩
  cases lba48 <;>
    simp only [ahciBuildRegFis, Bool.false_eq_true, if_true, if_false, Vector.getElem_set,
      Nat.reduceEqDiff, OfNat.ofNat_ne_zero]

/-- The bytes of the EXT form. -/
theorem ext_bytes (command : UInt8) (lba : UInt64) (count : UInt32) :
    let fis := ahciBuildRegFis command lba count true
    (fis[2] = command ∧ fis[7] = 0 ∧ fis[12] = (count &&& 0xFF).toUInt8 ∧ fis[13] = 0) ∧
    (fis[4] = ((lba >>> 24) &&& 0xFF).toUInt8 ∧ fis[5] = ((lba >>> 32) &&& 0xFF).toUInt8 ∧
      fis[6] = ((lba >>> 40) &&& 0xFF).toUInt8) ∧
    fis[8] = (lba &&& 0xFF).toUInt8 ∧ fis[9] = ((lba >>> 8) &&& 0xFF).toUInt8 ∧
      fis[10] = ((lba >>> 16) &&& 0xFF).toUInt8 := by
  simp only [ahciBuildRegFis, if_true, Vector.getElem_set, Nat.reduceEqDiff, if_false,
    and_self]

/-- Its count bytes. -/
theorem ext_count_bytes (command : UInt8) (lba : UInt64) (count : UInt32) :
    let fis := ahciBuildRegFis command lba count true
    fis[11] = ((count >>> 8) &&& 0xFF).toUInt8 ∧ fis[12] = (count &&& 0xFF).toUInt8 := by
  simp only [ahciBuildRegFis, if_true, Vector.getElem_set, Nat.reduceEqDiff, if_false, and_self]

/-- The bytes of the 28-bit form. -/
theorem short_bytes (command : UInt8) (lba : UInt64) (count : UInt32) :
    let fis := ahciBuildRegFis command lba count false
    (fis[2] = command ∧ fis[7] = ((0x40 : UInt64) ||| ((lba >>> 24) &&& 0x0F)).toUInt8 ∧
      fis[12] = (count &&& 0xFF).toUInt8) ∧
    fis[4] = 0 ∧ fis[5] = 0 ∧ fis[6] = 0 := by
  simp only [ahciBuildRegFis, Bool.false_eq_true, if_false, Vector.getElem_set, Nat.reduceEqDiff,
    if_true, and_self]

/-- The address bytes of the EXT form, as the device puts them together. -/
theorem ext_address (lba : UInt64) :
    ((lba >>> 24) &&& 0xFF).toUInt8.toNat + 2 ^ 8 * ((lba >>> 32) &&& 0xFF).toUInt8.toNat +
        2 ^ 16 * ((lba >>> 40) &&& 0xFF).toUInt8.toNat +
      2 ^ 24 * ((lba &&& 0xFF).toUInt8.toNat + 2 ^ 8 * ((lba >>> 8) &&& 0xFF).toUInt8.toNat +
        2 ^ 16 * ((lba >>> 16) &&& 0xFF).toUInt8.toNat) =
    lba.toNat / 2 ^ 24 % 2 ^ 24 + 2 ^ 24 * (lba.toNat % 2 ^ 24) := by
  obtain ⟨h0, h8, h16, h24, h32, h40⟩ := Words.toNat_bytes48 lba
  rw [h0, h8, h16, h24, h32, h40]
  omega

/-- **The EXT form**: the two halves of the address change places, the LBA mode bit is clear, and
of the count only the low byte arrives. -/
theorem decode_ext {command : UInt8} (hcommand : isExt command = true) :
    decode (ahciBuildRegFis command lba count true) =
      some ⟨command, false,
        lba.toNat / 2 ^ 24 % 2 ^ 24 + 2 ^ 24 * (lba.toNat % 2 ^ 24),
        if count.toNat % 256 = 0 then 65536 else count.toNat % 256⟩ := by
  obtain ⟨⟨h2, h7, h12, h13⟩, ⟨h4, h5, h6⟩, h8, h9, h10⟩ := ext_bytes command lba count
  have hn : (count &&& 0xFF).toUInt8.toNat + 2 ^ 8 * UInt8.toNat 0 = count.toNat % 256 :=
    Words.toNat_low32 count
  rw [decode_of_ext (ahciBuildRegFis_head command lba count true) (h2.symm ▸ hcommand),
    h2, h4, h5, h6, h7, h8, h9, h10, h12, h13, hn, ext_address]
  rfl

/-- The device register of the 28-bit form: the LBA mode bit, and bits 24-27 of the address. -/
theorem toNat_device (lba : UInt64) :
    ((0x40 : UInt64) ||| ((lba >>> 24) &&& 0x0F)).toUInt8.toNat = 64 + lba.toNat / 2 ^ 24 % 16 := by
  have hnibble : _ = lba.toNat / 2 ^ 24 % 16 := Words.toNat_nibble64 lba 24 (by decide)
  have hlt : lba.toNat / 2 ^ 24 % 16 < 2 ^ 6 := by omega
  rw [UInt64.toNat_toUInt8, UInt64.toNat_or, hnibble]
  change (2 ^ 6 * 1 ||| lba.toNat / 2 ^ 24 % 16) % 256 = _
  rw [← Nat.two_pow_add_eq_or_of_lt hlt]
  omega

/-- Its LBA mode bit is set. -/
theorem device_and_40 (lba : UInt64) :
    ((0x40 : UInt64) ||| ((lba >>> 24) &&& 0x0F)).toUInt8 &&& 0x40 ≠ 0 := by
  intro h
  have hbit := congrArg (fun x ↦ x.toBitVec[6]) h
  simp at hbit

/-- **The 28-bit form**: of the address only bits 24-27 arrive. -/
theorem decode_short {command : UInt8} (hcommand : isExt command = false) :
    decode (ahciBuildRegFis command lba count false) =
      some ⟨command, true, 2 ^ 24 * (lba.toNat / 2 ^ 24 % 16),
        if count.toNat % 256 = 0 then 256 else count.toNat % 256⟩ := by
  obtain ⟨⟨h2, h7, h12⟩, h4, h5, h6⟩ := short_bytes command lba count
  have hlba : UInt8.toNat 0 + 2 ^ 8 * UInt8.toNat 0 + 2 ^ 16 * UInt8.toNat 0 +
      2 ^ 24 * (((0x40 : UInt64) ||| ((lba >>> 24) &&& 0x0F)).toUInt8.toNat % 16) =
      2 ^ 24 * (lba.toNat / 2 ^ 24 % 16) := by
    rw [toNat_device, show UInt8.toNat 0 = 0 from rfl]
    omega
  rw [decode_of_short (ahciBuildRegFis_head command lba count false) (h2.symm ▸ hcommand),
    h2, h4, h5, h6, h7, h12, hlba, Words.toNat_low32, decide_eq_true (device_and_40 lba)]

/-! ## Which requests arrive -/

/-- The request fits the command that is chosen for it. -/
structure Fits (lba : UInt64) (count : UInt32) : Prop where
  count_pos : 0 < count.toNat
  short : needsExt lba count = false → lba.toNat < 2 ^ 28 ∧ count.toNat ≤ 256
  ext : needsExt lba count = true → lba.toNat < 2 ^ 48 ∧ count.toNat ≤ 65536

/-- The device takes the FIS for the request: this command, in LBA mode, for these sectors. -/
def Arrives (fis : Fis) (command : UInt8) (lba : UInt64) (count : UInt32) : Prop :=
  decode fis = some ⟨command, true, lba.toNat, count.toNat⟩

/-- The same for a device that does not look at the LBA mode bit. -/
def ArrivesAnyMode (fis : Fis) (command : UInt8) (lba : UInt64) (count : UInt32) : Prop :=
  ∃ mode, decode fis = some ⟨command, mode, lba.toNat, count.toNat⟩

/-- A request arrives when its address is all in bits 24-27. -/
def ShortAligned (lba : UInt64) (count : UInt32) : Prop :=
  needsExt lba count = false ∧ lba.toNat % 2 ^ 24 = 0

/-- An EXT request keeps its address when the two halves of it are equal, and its count when that
has one byte, or is the largest there is. -/
def ExtSymmetric (lba : UInt64) (count : UInt32) : Prop :=
  needsExt lba count = true ∧ lba.toNat % 2 ^ 24 = lba.toNat / 2 ^ 24 ∧
    (count.toNat < 256 ∨ count.toNat = 65536)

/-- One of the two drivers' request functions, for all requests. -/
theorem requestFis_arrives_iff (h : Fits lba count) (ext short : UInt8)
    (hext : isExt ext = true) (hshort : isExt short = false) :
    (Arrives (requestFis ext short lba count) (chosenCommand ext short lba count) lba count ↔
      ShortAligned lba count) ∧
    (ArrivesAnyMode (requestFis ext short lba count) (chosenCommand ext short lba count)
        lba count ↔
      ShortAligned lba count ∨ ExtSymmetric lba count) := by
  have hpos := h.count_pos
  rw [Arrives, ArrivesAnyMode, requestFis, chosenCommand, ShortAligned, ExtSymmetric]
  cases hn : needsExt lba count with
  | true =>
    obtain ⟨hlba, hcount⟩ := h.ext hn
    have hnum : (if count.toNat % 256 = 0 then 65536 else count.toNat % 256) = count.toNat ↔
        count.toNat < 256 ∨ count.toNat = 65536 := by
      split_ifs <;> omega
    simp only [if_true, decode_ext hext, Option.some_inj, AtaCommand.mk.injEq, true_and,
      exists_and_right, exists_eq', Bool.false_eq_true, false_and, Bool.true_eq_false, hnum,
      false_or]
    omega
  | false =>
    obtain ⟨hlba, hcount⟩ := h.short hn
    have hnum : (if count.toNat % 256 = 0 then 256 else count.toNat % 256) = count.toNat := by
      split_ifs <;> omega
    simp only [Bool.false_eq_true, if_false, decode_short hshort, Option.some_inj,
      AtaCommand.mk.injEq, true_and, exists_and_right, exists_eq', hnum, and_true, false_and,
      or_false]
    omega

/-- **The requests that arrive**: reading or writing, the device is asked for the command, sectors
and count the driver was asked for exactly when the request goes the 28-bit way and its address is
a multiple of `2 ^ 24`; or, if the device does not insist on the LBA mode bit, also when it goes
the EXT way and is symmetric. -/
theorem fis_arrives_iff (lba : UInt64) (count : UInt32) (h : Fits lba count) :
    (Arrives (readFis lba count) (readCommand lba count) lba count ↔ ShortAligned lba count) ∧
    (Arrives (writeFis lba count) (writeCommand lba count) lba count ↔ ShortAligned lba count) ∧
    (ArrivesAnyMode (readFis lba count) (readCommand lba count) lba count ↔
      ShortAligned lba count ∨ ExtSymmetric lba count) ∧
    (ArrivesAnyMode (writeFis lba count) (writeCommand lba count) lba count ↔
      ShortAligned lba count ∨ ExtSymmetric lba count) := by
  have hread := requestFis_arrives_iff h 0x25 0xC8 (by decide) (by decide)
  have hwrite := requestFis_arrives_iff h 0x35 0xCA (by decide) (by decide)
  exact ⟨hread.1, hwrite.1, hread.2, hwrite.2⟩

/-- Sector `2 ^ 24` can be read. -/
theorem fis_arrives_aligned :
    Arrives (readFis 0x1000000 8) (readCommand 0x1000000 8) 0x1000000 8 :=
  (fis_arrives_iff 0x1000000 8 ⟨by decide, by decide, by decide⟩).1.mpr
    ⟨by decide, by decide⟩

/-- A request for sector 1 is taken for one for sector 0. -/
theorem fis_one_is_taken_for_zero :
    Fits 1 1 ∧ decode (readFis 1 1) = some ⟨0xC8, true, 0, 1⟩ ∧
      decode (writeFis 1 1) = some ⟨0xCA, true, 0, 1⟩ ∧
      ¬ArrivesAnyMode (readFis 1 1) (readCommand 1 1) 1 1 ∧
      ¬ArrivesAnyMode (writeFis 1 1) (writeCommand 1 1) 1 1 := by
  refine ⟨⟨by decide, by decide, by decide⟩, by decide, by decide, ?_, ?_⟩
  · rintro ⟨mode, h⟩
    revert h
    cases mode <;> decide
  · rintro ⟨mode, h⟩
    revert h
    cases mode <;> decide

end Aetherion.Ahci
