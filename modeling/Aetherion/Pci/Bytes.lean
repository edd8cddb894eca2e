import Aetherion.Base.Ram
import Aetherion.Pci.Registers

/-!
# Bytes of configuration space

The data port moves double words, and the smaller accesses are cut out of them.  Over plain memory
that is the access it stands for: `pci_write_config16` and `pci_write_config8` replace the bytes
they are given a register for and no others, and the readers return the bytes that are there
(`bytewise_of_at`).
-/

set_option autoImplicit false

namespace Aetherion.Pci

open Driver Driver.Prog Driver.Peripheral

/-- The bytes of every function's configuration space. -/
abbrev ConfigBytes := PciAddress → Ram

namespace ConfigBytes

variable (m : ConfigBytes) (a : PciAddress) (reg : ℕ)

/-- The `n` bytes at a register replaced by those of a number, lowest first. -/
def put (n value : ℕ) : ConfigBytes :=
  Function.update m a ((m a).store reg (Ram.bytes value n))

/-- The byte at a register. -/
def byte : UInt8 := m a reg

/-- The 16-bit word at a register, lower byte first. -/
def word : UInt16 := .ofNat ((m a).word reg 2)

/-- The 32-bit word at a register, lowest byte first. -/
def dword : UInt32 := .ofNat ((m a).word reg 4)

/-- A device entry with the fields that are filled from the bytes at their registers. -/
def info (d : PciDevice) : PciDevice :=
  { d with
    vendorId := m.word a 0x00
    deviceId := m.word a 0x02
    command := m.word a 0x04
    status := m.word a 0x06
    revisionId := m.byte a 0x08
    progIf := m.byte a 0x09
    subclass := m.byte a 0x0A
    classCode := m.byte a 0x0B
    cacheLineSize := m.byte a 0x0C
    latencyTimer := m.byte a 0x0D
    headerType := m.byte a 0x0E
    bist := m.byte a 0x0F
    bar := .ofFn fun i ↦ m.dword a (0x10 + i * 4)
    cardbusCis := m.dword a 0x28
    subsystemVendorId := m.word a 0x2C
    subsystemId := m.word a 0x2E
    expansionRom := m.dword a 0x30
    capabilitiesPtr := m.byte a 0x34
    interruptLine := m.byte a 0x3C
    interruptPin := m.byte a 0x3D
    minGrant := m.byte a 0x3E
    maxLatency := m.byte a 0x3F }

end ConfigBytes

/-- Plain memory behind accesses to double words. -/
def bytesBank : Bank ConfigBytes where
  read m a reg := m.dword a reg.toNat
  write m a reg val := m.put a reg.toNat 4 val.toNat

/-- What a program returns, from the bytes. -/
abbrev ReadsBytes {α : Type} (p : Kernel α) (f : ConfigBytes → α) : Prop :=
  bytesBank.ports.Reads Prod.snd p f

/-- What a program makes of the bytes. -/
abbrev WritesBytes (p : Kernel Unit) (g : ConfigBytes → ConfigBytes) : Prop :=
  bytesBank.ports.Writes Prod.snd p g

/-- After the first program, the second one returns what it would have returned without it. -/
def Unaffected {α : Type} (p : Kernel Unit) (q : Kernel α) : Prop :=
  ∀ s₀ h, (p >>= fun _ ↦ q).value (bytesBank.ports.device s₀) h =
    q.value (bytesBank.ports.device s₀) h

/-- The `k` bytes at a register of one function are none of the `n` bytes at one of another. -/
def Elsewhere (a : PciAddress) (reg n : ℕ) (a' : PciAddress) (reg' k : ℕ) : Prop :=
  a' ≠ a ∨ reg' + k ≤ reg ∨ reg + n ≤ reg'

/-- **The accesses to a function are those to its bytes.**  The 16-bit accesses are to registers
that are not the last byte of their double word, as are all even ones. -/
structure Bytewise (a : PciAddress) (d : PciDevice) : Prop where
  write16 (reg : UInt8) (value : UInt16) : reg.toNat % 4 ≠ 3 →
    WritesBytes (pciWriteConfig16 d reg value) (·.put a reg.toNat 2 value.toNat)
  write8 (reg value : UInt8) :
    WritesBytes (pciWriteConfig8 d reg value) (·.put a reg.toNat 1 value.toNat)
  read16 (reg : UInt8) : reg.toNat % 4 ≠ 3 →
    ReadsBytes (pciReadConfig16 d reg) (·.word a reg.toNat)
  read8 (reg : UInt8) : ReadsBytes (pciReadConfig8 d reg) (·.byte a reg.toNat)
  /-- A value that is written is read back. -/
  reread16 (reg : UInt8) (value : UInt16) : reg.toNat % 4 ≠ 3 → ∀ s₀ h,
    (pciWriteConfig16 d reg value >>= fun _ ↦ pciReadConfig16 d reg).value
      (bytesBank.ports.device s₀) h = value
  reread8 (reg value : UInt8) : ∀ s₀ h,
    (pciWriteConfig8 d reg value >>= fun _ ↦ pciReadConfig8 d reg).value
      (bytesBank.ports.device s₀) h = value
  /-- Reads elsewhere, also of other functions, are not affected. -/
  elsewhere16 (reg : UInt8) (value : UInt16) : reg.toNat % 4 ≠ 3 → ∀ a' d', d'.At a' →
    ∀ reg' : UInt8,
      (reg'.toNat % 4 ≠ 3 → Elsewhere a reg.toNat 2 a' reg'.toNat 2 →
        Unaffected (pciWriteConfig16 d reg value) (pciReadConfig16 d' reg')) ∧
      (Elsewhere a reg.toNat 2 a' reg'.toNat 1 →
        Unaffected (pciWriteConfig16 d reg value) (pciReadConfig8 d' reg'))
  elsewhere8 (reg value : UInt8) : ∀ a' d', d'.At a' → ∀ reg' : UInt8,
    (reg'.toNat % 4 ≠ 3 → Elsewhere a reg.toNat 1 a' reg'.toNat 2 →
      Unaffected (pciWriteConfig8 d reg value) (pciReadConfig16 d' reg')) ∧
    (Elsewhere a reg.toNat 1 a' reg'.toNat 1 →
      Unaffected (pciWriteConfig8 d reg value) (pciReadConfig8 d' reg'))
  /-- The fields of a device entry are the bytes at their registers. -/
  info : ReadsBytes (pciReadDeviceInfo d) (·.info a d)

/-! ## Bytes that are put -/

section
variable (m : ConfigBytes) {a a' : PciAddress} {reg reg' n k : ℕ} (value : ℕ)

namespace ConfigBytes

theorem put_self : m.put a reg n value a = (m a).store reg (Ram.bytes value n) :=
  Function.update_self ..

/-- The bytes elsewhere are kept. -/
theorem word_put (h : Elsewhere a reg n a' reg' k) :
    (m.put a reg n value a').word reg' k = (m a').word reg' k := by
  by_cases ha : a' = a
  · rw [ha, m.put_self]
    exact Ram.word_store_bytes _ _ (h.resolve_left (not_not_intro ha))
  · rw [put, Function.update_of_ne ha]

theorem byte_put (h : Elsewhere a reg n a' reg' 1) :
    (m.put a reg n value).byte a' reg' = m.byte a' reg' := by
  have hword := m.word_put value h
  rw [Ram.word, Ram.word, Ram.word, Ram.word] at hword
  exact UInt8.toNat_inj.mp hword

end ConfigBytes

theorem Unaffected.of_writes {α : Type} {p : Kernel Unit} {q : Kernel α}
    {g : ConfigBytes → ConfigBytes} {f : ConfigBytes → α} (hp : WritesBytes p g)
    (hq : ReadsBytes q f) (hfg : ∀ m, f (g m) = f m) : Unaffected p q := by
  intro s₀ h
  rw [hp.value_bind_reads hq, hfg, (hq s₀ h).1]

end

/-! ## The bytes of a double word -/

section
variable (m : ConfigBytes) (a : PciAddress) (reg : UInt8)

theorem toNat_and_three : (reg &&& 3).toNat = reg.toNat % 4 := by
  rw [UInt8.toNat_and]
  exact Nat.and_two_pow_sub_one_eq_mod reg.toNat 2

/-- A register lies in its double word. -/
theorem toNat_dwordOf : (dwordOf reg).toNat + reg.toNat % 4 = reg.toNat := by
  have hsplit : dwordOf reg ||| (reg &&& 3) = reg := by
    rw [← UInt8.toBitVec_inj]
    change reg.toBitVec &&& 0xFC#8 ||| reg.toBitVec &&& 3#8 = reg.toBitVec
    rw [← BitVec.and_or_distrib_left]
    exact BitVec.and_allOnes
  have hdisjoint : (dwordOf reg).toBitVec &&& (reg &&& 3).toBitVec = 0#8 := by
    change reg.toBitVec &&& 0xFC#8 &&& (reg.toBitVec &&& 3#8) = 0#8
    rw [BitVec.and_comm reg.toBitVec 3#8, BitVec.and_assoc, ← BitVec.and_assoc 0xFC#8]
    exact (congrArg _ BitVec.zero_and).trans BitVec.and_zero
  have hsum := BitVec.toNat_add_of_and_eq_zero hdisjoint
  rw [BitVec.add_eq_or_of_and_eq_zero _ _ hdisjoint] at hsum
  rw [← toNat_and_three]
  exact hsum.symm.trans (congrArg UInt8.toNat hsplit)

theorem toNat_regShift : (regShift reg).toNat = 8 * (reg.toNat % 4) := by
  rw [regShift, UInt32.toNat_mul, UInt8.toNat_toUInt32, toNat_and_three]
  change reg.toNat % 4 * 8 % 2 ^ 32 = _
  omega

theorem pow_256 (n : ℕ) : 2 ^ (8 * n) = 256 ^ n := Nat.pow_mul 2 8 n

theorem ConfigBytes.toNat_dword (reg : ℕ) : (m.dword a reg).toNat = (m a).word reg 4 :=
  UInt32.toNat_ofNat_of_lt' (m a).word_lt

/-- **What is cut out of a double word** are the bytes at the register. -/
theorem toNat_cut {mask : UInt32} {n : ℕ} (hmask : mask.toNat = 2 ^ (8 * n) - 1)
    (hn : reg.toNat % 4 + n ≤ 4) :
    ((m.dword a (dwordOf reg).toNat >>> regShift reg) &&& mask).toNat =
      (m a).word reg.toNat n := by
  obtain ⟨j, hj⟩ : ∃ j, 4 = reg.toNat % 4 + (n + j) := ⟨4 - reg.toNat % 4 - n, by omega⟩
  have hshift : (regShift reg).toNat % 32 = 8 * (reg.toNat % 4) := by
    rw [toNat_regShift]
    omega
  rw [UInt32.toNat_and, hmask, Nat.and_two_pow_sub_one_eq_mod, UInt32.toNat_shiftRight, hshift,
    Nat.shiftRight_eq_div_pow, m.toNat_dword, pow_256, pow_256]
  calc (m a).word (dwordOf reg).toNat 4 / 256 ^ (reg.toNat % 4) % 256 ^ n
      = (m a).word (dwordOf reg).toNat (reg.toNat % 4 + (n + j)) / 256 ^ (reg.toNat % 4) %
          256 ^ n := by rw [← hj]
    _ = (m a).word reg.toNat (n + j) % 256 ^ n := by rw [Ram.word_div, toNat_dwordOf]
    _ = (m a).word reg.toNat n := Ram.word_mod _

/-- **What is merged into a double word** replaces the bytes at the register. -/
theorem put_mergeAt {mask v : UInt32} {n : ℕ} (hmask : mask.toNat = 2 ^ (8 * n) - 1)
    (hn : reg.toNat % 4 + n ≤ 4) (hv : v.toNat < 2 ^ (8 * n)) :
    m.put a (dwordOf reg).toNat 4 (mergeAt (m.dword a (dwordOf reg).toNat) mask v reg).toNat =
      m.put a reg.toNat n v.toNat := by
  obtain ⟨j, hj⟩ : ∃ j, 4 = reg.toNat % 4 + n + j := ⟨4 - reg.toNat % 4 - n, by omega⟩
  have hmerge := Words.toNat_replace (x := m.dword a (dwordOf reg).toNat) (v := v)
    (toNat_regShift reg) hmask (by omega) (by omega) hv
  rw [m.toNat_dword, ← Nat.mul_add, pow_256, pow_256, pow_256] at hmerge
  have hstore := (m a).store_middle (a := (dwordOf reg).toNat) (i := reg.toNat % 4) (j := j)
    (v := v.toNat) (n := n) (by rwa [← pow_256])
  rw [← hj, ← hmerge, toNat_dwordOf] at hstore
  exact congrArg (Function.update m a) hstore

end

/-! ## The accesses -/

section
variable {a : PciAddress} {d : PciDevice}

theorem reads_pciReadConfig (hd : d.At a) (reg : UInt8) :
    ReadsBytes (pciReadConfig d reg) (·.dword a (dwordOf reg).toNat) :=
  reads_of_runs (fun _ _ ↦ runs_pciReadConfig hd reg) fun _ ↦ rfl

theorem reads_pciReadConfig16 (hd : d.At a) (reg : UInt8) (hreg : reg.toNat % 4 ≠ 3) :
    ReadsBytes (pciReadConfig16 d reg) (·.word a reg.toNat) := by
  have hread : ReadsBytes (pciReadConfig16 d reg) fun m ↦
      ((m.dword a (dwordOf reg).toNat >>> regShift reg) &&& 0xFFFF).toUInt16 :=
    reads_of_runs (fun _ _ ↦ runs_pciReadConfig16 hd reg) fun _ ↦ rfl
  refine hread.of_eq fun m ↦ ?_
  rw [← UInt16.ofNat_uInt32ToNat, toNat_cut m a reg (n := 2) rfl (by omega)]
  rfl

theorem reads_pciReadConfig8 (hd : d.At a) (reg : UInt8) :
    ReadsBytes (pciReadConfig8 d reg) (·.byte a reg.toNat) := by
  have hread : ReadsBytes (pciReadConfig8 d reg) fun m ↦
      ((m.dword a (dwordOf reg).toNat >>> regShift reg) &&& 0xFF).toUInt8 :=
    reads_of_runs (fun _ _ ↦ runs_pciReadConfig8 hd reg) fun _ ↦ rfl
  refine hread.of_eq fun m ↦ ?_
  rw [← UInt8.ofNat_uInt32ToNat, toNat_cut m a reg (n := 1) rfl (by omega)]
  exact UInt8.ofNat_toNat

theorem writes_pciWriteConfig16 (hd : d.At a) (reg : UInt8) (hreg : reg.toNat % 4 ≠ 3)
    (value : UInt16) :
    WritesBytes (pciWriteConfig16 d reg value) (·.put a reg.toNat 2 value.toNat) := by
  refine writes_of_runs (fun _ _ ↦ runs_pciWriteConfig16 hd reg value) fun s ↦ ?_
  exact put_mergeAt s.2 a reg rfl (by omega) value.toNat_lt

theorem writes_pciWriteConfig8 (hd : d.At a) (reg value : UInt8) :
    WritesBytes (pciWriteConfig8 d reg value) (·.put a reg.toNat 1 value.toNat) := by
  refine writes_of_runs (fun _ _ ↦ runs_pciWriteConfig8 hd reg value) fun s ↦ ?_
  exact put_mergeAt s.2 a reg rfl (by omega) value.toNat_lt

theorem reads_pciReadBars (hd : d.At a) :
    ReadsBytes (pciReadBars d) fun m ↦ .ofFn fun i ↦ m.dword a (0x10 + i * 4) := by
  have hbody (i : ℕ) (bar : Vector UInt32 6) : ReadsBytes (do
      let val ← pciReadConfig d (.ofNat (0x10 + i * 4))
      pure (bar.setIfInBounds i val)) _ :=
    (reads_pciReadConfig hd _).bind fun val ↦ reads_pure (bar.setIfInBounds i val)
  refine (reads_forEach hbody 6 0 d.bar).of_eq fun m ↦ Vector.ext fun i hi ↦ ?_
  simp only [List.range', List.foldl, Vector.getElem_setIfInBounds, Vector.getElem_ofFn]
  split_ifs <;> first | (subst_vars; rfl) | omega

theorem reads_pciReadDeviceInfo (hd : d.At a) :
    ReadsBytes (pciReadDeviceInfo d) (·.info a d) := by
  have h8 := reads_pciReadConfig8 hd
  have h16 (reg : UInt8) (hreg : reg.toNat % 4 ≠ 3) := reads_pciReadConfig16 hd reg hreg
  have h32 := reads_pciReadConfig hd
  refine Reads.of_eq (.bind (h16 0x00 (by decide)) fun vendorId ↦
    .bind (h16 0x02 (by decide)) fun deviceId ↦ .bind (h16 0x04 (by decide)) fun command ↦
    .bind (h16 0x06 (by decide)) fun status ↦ .bind (h8 0x08) fun revisionId ↦
    .bind (h8 0x09) fun progIf ↦ .bind (h8 0x0A) fun subclass ↦ .bind (h8 0x0B) fun classCode ↦
    .bind (h8 0x0C) fun cacheLineSize ↦ .bind (h8 0x0D) fun latencyTimer ↦
    .bind (h8 0x0E) fun headerType ↦ .bind (h8 0x0F) fun bist ↦
    .bind (reads_pciReadBars hd) fun bar ↦ .bind (h32 0x28) fun cardbusCis ↦
    .bind (h16 0x2C (by decide)) fun subsystemVendorId ↦
    .bind (h16 0x2E (by decide)) fun subsystemId ↦ .bind (h32 0x30) fun expansionRom ↦
    .bind (h8 0x34) fun capabilitiesPtr ↦ .bind (h8 0x3C) fun interruptLine ↦
    .bind (h8 0x3D) fun interruptPin ↦ .bind (h8 0x3E) fun minGrant ↦
    .bind (h8 0x3F) fun maxLatency ↦ reads_pure _) fun m ↦ ?_
  rfl

/-- Reads elsewhere. -/
theorem reads_elsewhere {a' : PciAddress} {d' : PciDevice} {p : Kernel Unit} {reg n value : ℕ}
    (hp : WritesBytes p (·.put a reg n value)) (hd' : d'.At a') (reg' : UInt8) :
    (reg'.toNat % 4 ≠ 3 → Elsewhere a reg n a' reg'.toNat 2 →
      Unaffected p (pciReadConfig16 d' reg')) ∧
    (Elsewhere a reg n a' reg'.toNat 1 → Unaffected p (pciReadConfig8 d' reg')) := by
  constructor
  · intro hreg' hapart
    exact .of_writes hp (reads_pciReadConfig16 hd' reg' hreg') fun m ↦
      congrArg UInt16.ofNat (m.word_put _ hapart)
  · intro hapart
    exact .of_writes hp (reads_pciReadConfig8 hd' reg') fun m ↦ m.byte_put _ hapart

end

/-- **The accesses are bytewise.** -/
theorem bytewise_of_at (a : PciAddress) (d : PciDevice) (hd : d.At a) : Bytewise a d where
  write16 reg value hreg := writes_pciWriteConfig16 hd reg hreg value
  write8 reg value := writes_pciWriteConfig8 hd reg value
  read16 reg hreg := reads_pciReadConfig16 hd reg hreg
  read8 reg := reads_pciReadConfig8 hd reg
  reread16 reg value hreg s₀ h := by
    have hread := reads_pciReadConfig16 hd reg hreg
    have hvalue : value.toNat % 256 ^ 2 = value.toNat := Nat.mod_eq_of_lt value.toNat_lt
    rw [(writes_pciWriteConfig16 hd reg hreg value).value_bind_reads hread, ConfigBytes.word,
      ConfigBytes.put_self, Ram.word_store, hvalue]
    exact UInt16.ofNat_toNat
  reread8 reg value s₀ h := by
    have hread := reads_pciReadConfig8 hd reg
    rw [(writes_pciWriteConfig8 hd reg value).value_bind_reads hread, ConfigBytes.byte,
      ConfigBytes.put_self, Ram.bytes, Ram.store_head]
    exact UInt8.ofNat_toNat
  elsewhere16 reg value hreg _ _ hd' :=
    reads_elsewhere (writes_pciWriteConfig16 hd reg hreg value) hd'
  elsewhere8 reg value _ _ hd' := reads_elsewhere (writes_pciWriteConfig8 hd reg value) hd'
  info := reads_pciReadDeviceInfo hd

/-- For the entry of the second function of a device. -/
theorem bytewise_second_function :
    Bytewise ⟨0, ⟨3, by decide⟩, ⟨1, by decide⟩⟩
      (PciAddress.blankEntry ⟨0, ⟨3, by decide⟩, ⟨1, by decide⟩⟩) :=
  bytewise_of_at _ _ (blankEntry_at _)

end Aetherion.Pci
