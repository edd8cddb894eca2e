import Aetherion.Ahci.Fetch

/-!
# The size of a transfer

The number of sectors of a request is sent twice: in the FIS, as a count of sectors, and in the
data region of the command table, as a count of bytes.  Each of the fields has a limit of its own,
256 sectors for the 28-bit commands, 65536 for the EXT ones and `2 ^ 22` bytes for the region, and
none of them is compared with the request.  The choice of the command looks at the address of the
last sector only.

`sizes_agree_iff` says for which requests the fields agree with the number of sectors.  No request
is refused, so for all others the device is started with fields that do not.
-/

set_option autoImplicit false

namespace Aetherion.Ahci

open Driver Driver.Prog Storage

/-! ## What the fields say -/

/-- The sector count in the FIS of a table: byte 12, and for the EXT commands byte 11 above it,
where `0` stands for the largest count. -/
def fisSectors (m : Mem) (tbl : UInt64) : ℕ :=
  let low := (m (tbl + .ofNat 12)).toNat
  let high := (m (tbl + .ofNat 11)).toNat
  if isExt (m (tbl + .ofNat 2)) then
    if low + 256 * high = 0 then 65536 else low + 256 * high
  else if low = 0 then 256 else low

/-- The byte count of a table's data region: a field of 22 bits that holds one less. -/
def dataBytes (m : Mem) (tbl : UInt64) : ℕ :=
  (m.read32 (tbl + .ofNat 0x8C) &&& 0x3FFFFF).toNat + 1

/-- The fields of a table agree with a request. -/
structure SizesAgree (m : Mem) (tbl : UInt64) (count : UInt32) : Prop where
  sectors : fisSectors m tbl = count.toNat
  bytes : dataBytes m tbl = 512 * count.toNat

/-- Whenever the program sets the bit of the slot, the table agrees with the request; a request
that is refused sets no bit. -/
def SizesSent {α : Type} (p : Kernel α) (hba : Hba) (port : AhciPort) (count : UInt32)
    (dev : Device machine) (h : Trace machine) (m : Mem) : Prop :=
  ∀ m' ∈ (adapter hba port).reports m (p.trace dev h), SizesAgree m' port.cmdTableBase count

/-- The request fits the command that is chosen for it and the data region. -/
def SizeFits (lba : UInt64) (count : UInt32) : Prop :=
  0 < count.toNat ∧ count.toNat ≤ if needsExt lba count then 8192 else 256

/-! ## What is written into them -/

variable {hba : Hba} {lba : UInt64} {count : UInt32} {m : Mem} {tbl : UInt64}

/-- The FIS in a table that has been written. -/
theorem tableWritten_fis (m : Mem) (tbl : UInt64) (dba dbau dw3 : UInt32) (fis : Fis) {j : ℕ}
    (hj : j < 64) : tableWritten m tbl dba dbau dw3 fis (tbl + .ofNat j) = fis[j] := by
  rw [tableWritten, Mem.write_ofNat_zero _ _ (by simp) (by omega),
    List.getElem?_eq_getElem (by simpa using hj), Option.getD_some, Vector.getElem_toList]

/-- Of the byte count, the 22 bits of its field are kept. -/
theorem dataFlags_count (old count : UInt32) :
    dataFlags old count &&& 0x3FFFFF = (count - 1) &&& 0x3FFFFF := by
  have hold : (~~~0x3FFFFF : BitVec 32) &&& 0x3FFFFF = 0#32 := by decide
  have hflag : (0x80000000 : BitVec 32) &&& 0x3FFFFF = 0#32 := by decide
  apply UInt32.toBitVec_inj.mp
  change ((old.toBitVec &&& ~~~0x3FFFFF) ||| ((count - 1).toBitVec &&& 0x3FFFFF) ||| 0x80000000) &&&
    (0x3FFFFF : BitVec 32) = (count - 1).toBitVec &&& 0x3FFFFF
  rw [BitVec.and_or_distrib_right, BitVec.and_or_distrib_right, BitVec.and_assoc, hold, hflag,
    BitVec.and_assoc, BitVec.and_self, BitVec.and_zero, BitVec.zero_or, BitVec.or_zero]

theorem dataBytes_tableWritten (dba dbau old : UInt32) (fis : Fis) :
    dataBytes (tableWritten m tbl dba dbau (dataFlags old (count * 512)) fis) tbl =
      (count * 512 - 1).toNat % 2 ^ 22 + 1 := by
  rw [dataBytes, (tableWritten_data m tbl dba dbau _ fis).2.2, dataFlags_count, UInt32.toNat_and,
    ← Nat.and_two_pow_sub_one_eq_mod]
  rfl

/-- The byte count is right up to 8192 sectors. -/
theorem dataBytes_eq_iff :
    (count * 512 - 1).toNat % 2 ^ 22 + 1 = 512 * count.toNat ↔
      0 < count.toNat ∧ count.toNat ≤ 8192 := by
  have hlt := count.toNat_lt
  have hbytes : (count * 512 - 1).toNat = (2 ^ 32 - 1 + count.toNat * 512 % 2 ^ 32) % 2 ^ 32 := by
    rw [UInt32.toNat_sub, UInt32.toNat_mul]
    rfl
  rw [hbytes]
  omega

section
variable {ext short : UInt8} (dba dbau dw3 : UInt32)

theorem fisSectors_ext (hext : isExt ext = true) :
    fisSectors (tableWritten m tbl dba dbau dw3 (ahciBuildRegFis ext lba count true)) tbl =
      if count.toNat % 65536 = 0 then 65536 else count.toNat % 65536 := by
  obtain ⟨⟨h2, -, -, -⟩, -⟩ := ext_bytes ext lba count
  obtain ⟨h11, h12⟩ := ext_count_bytes ext lba count
  have hlow := Words.toNat_low32 count
  have hhigh : _ = count.toNat / 2 ^ 8 % 256 := Words.toNat_byte32 count 8 (by decide)
  have hsum : (count &&& 0xFF).toUInt8.toNat + 256 * ((count >>> 8) &&& 0xFF).toUInt8.toNat =
      count.toNat % 65536 := by
    rw [hlow, hhigh]
    omega
  rw [fisSectors, tableWritten_fis m tbl dba dbau dw3 _ (j := 12) (by decide),
    tableWritten_fis m tbl dba dbau dw3 _ (j := 11) (by decide),
    tableWritten_fis m tbl dba dbau dw3 _ (j := 2) (by decide), h2, h11, h12, hext, hsum]
  rfl

theorem fisSectors_short (hshort : isExt short = false) :
    fisSectors (tableWritten m tbl dba dbau dw3 (ahciBuildRegFis short lba count false)) tbl =
      if count.toNat % 256 = 0 then 256 else count.toNat % 256 := by
  obtain ⟨⟨h2, -, h12⟩, -⟩ := short_bytes short lba count
  rw [fisSectors, tableWritten_fis m tbl dba dbau dw3 _ (j := 12) (by decide),
    tableWritten_fis m tbl dba dbau dw3 _ (j := 11) (by decide),
    tableWritten_fis m tbl dba dbau dw3 _ (j := 2) (by decide), h2, h12, hshort,
    Words.toNat_low32]
  rfl

/-- **The fields of a request's table.** -/
theorem sizesAgree_iff (hext : isExt ext = true) (hshort : isExt short = false) (old : UInt32) :
    SizesAgree (tableWritten m tbl dba dbau (dataFlags old (count * 512))
      (requestFis ext short lba count)) tbl count ↔ SizeFits lba count := by
  have hbytes : dataBytes (tableWritten m tbl dba dbau (dataFlags old (count * 512))
      (requestFis ext short lba count)) tbl = _ := dataBytes_tableWritten dba dbau old _
  have hsectors : fisSectors (tableWritten m tbl dba dbau (dataFlags old (count * 512))
      (requestFis ext short lba count)) tbl = count.toNat ↔
      0 < count.toNat ∧ count.toNat ≤ if needsExt lba count then 65536 else 256 := by
    rw [requestFis]
    cases needsExt lba count with
    | true =>
      rw [if_pos rfl, fisSectors_ext _ _ _ hext, if_pos rfl]
      split_ifs <;> omega
    | false =>
      rw [if_neg Bool.false_ne_true, fisSectors_short _ _ _ hshort, if_neg Bool.false_ne_true]
      split_ifs <;> omega
  have hfits : SizeFits lba count ↔
      (0 < count.toNat ∧ count.toNat ≤ if needsExt lba count then 65536 else 256) ∧
        0 < count.toNat ∧ count.toNat ≤ 8192 := by
    rw [SizeFits]
    split_ifs <;> omega
  rw [hfits, ← hsectors, ← dataBytes_eq_iff, ← hbytes]
  exact ⟨fun hagree ↦ ⟨hagree.sectors, hagree.bytes⟩, fun hboth ↦ ⟨hboth.1, hboth.2⟩⟩

end

/-! ## What is sent -/

/-- The table that is sent for a request. -/
theorem sizes_ahciExecCmd_iff {port : AhciPort} {ext short : UInt8} (hext : isExt ext = true)
    (hshort : isExt short = false) (buffer : UInt64) (isWrite : Bool) (dev : Device machine)
    (h : Trace machine) :
    SizesSent (ahciExecCmd hba port (requestFis ext short lba count) buffer (count * 512) isWrite)
      hba port count dev h m ↔ SizeFits lba count := by
  obtain ⟨old, hrep⟩ := reports_ahciExecCmd hba port (requestFis ext short lba count) buffer
    (count * 512) isWrite dev h m
  rw [SizesSent, hrep, List.forall_mem_singleton]
  exact sizesAgree_iff _ _ hext hshort old

/-- After a read the driver only looks at the buffer. -/
theorem sizes_ahciReadSectors_iff (port : Fin 32) (buffer : Buffer) (dev : Device machine)
    (h : Trace machine) :
    SizesSent (ahciReadSectors hba port lba count buffer) hba (hba.port port) count dev h m ↔
      SizesSent (ahciExecCmd hba (hba.port port) (readFis lba count) buffer.addr (count * 512)
        false) hba (hba.port port) count dev h m := by
  have hdma (t : Trace machine) (m' : Mem) (r : ℤ) : (adapter hba (hba.port port)).reports m'
      (trace (do
        let words ← dma buffer.addr
        pure (r, ({ buffer with words := fun i ↦ words i.toNat } : Buffer))) dev t) = [] := rfl
  rw [SizesSent, ahciReadSectors, trace_bind, Observer.reports_append, hdma, List.append_nil]
  rfl

/-- **The size fields agree with the request** exactly when it is for at least one sector, and for
at most 256 with a 28-bit command and 8192 with an EXT command. -/
theorem sizes_agree_iff (hba : Hba) (port : Fin 32) (lba : UInt64) (count : UInt32)
    (buffer : Buffer) (dev : Device machine) (h : Trace machine) (m : Mem) :
    (SizesSent (ahciReadSectors hba port lba count buffer) hba (hba.port port) count dev h m ↔
      SizeFits lba count) ∧
    (SizesSent (ahciWriteSectors hba port lba count buffer) hba (hba.port port) count dev h m ↔
      SizeFits lba count) := by
  constructor
  · rw [sizes_ahciReadSectors_iff]
    exact sizes_ahciExecCmd_iff (by decide) (by decide) _ _ dev h
  · exact sizes_ahciExecCmd_iff (by decide) (by decide) _ _ dev h

/-- 257 sectors from the start of the drive are asked for with the 28-bit command, which cannot
say so. -/
theorem many_sectors_disagree :
    ¬SizesSent (ahciReadSectors AhciState.initial.hba ⟨0, by decide⟩ 0 257 ⟨0x2000, fun _ ↦ 0⟩)
      AhciState.initial.hba (AhciState.initial.hba.port ⟨0, by decide⟩) 257
      (steadyMachine 0 0 0) [] fun _ ↦ 0 := by
  rw [sizes_ahciReadSectors_iff]
  intro hsent
  have hfits := (sizes_ahciExecCmd_iff (show isExt 0x25 = true by decide)
    (show isExt 0xC8 = false by decide) _ _ _ _).mp hsent
  exact absurd hfits.2 (by decide)

end Aetherion.Ahci
