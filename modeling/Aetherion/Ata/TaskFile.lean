import Aetherion.Base.Words
import Aetherion.Ata.Driver

/-!
# What a drive makes of the task file

The drives of a channel see every write to the channel's eight ports.  Four of the registers are
two deep: a write pushes the byte that was there into second place, and the 48-bit commands take
the upper half of the address from there.  `TaskFile` is these registers, and `commands` is the
drives' view of a run: it walks along the exchanges and reports each command byte of the kind
asked for, with the unit, the sector and the count the registers held at that moment.

The driver writes the upper half of a 48-bit address with its first and last byte the wrong way
round, so the sector on the wire is `wireLba`, and not always the one that was meant
(`reports_ataCommand`).
-/

set_option autoImplicit false

namespace Aetherion.Ata

open Driver Driver.Prog Storage

/-- A register two bytes deep. -/
structure Latch where
  /-- The byte written last. -/
  current : UInt8
  /-- The byte written before it. -/
  previous : UInt8
  deriving Inhabited

def Latch.push (l : Latch) (v : UInt8) : Latch := ⟨v, l.current⟩

/-- The registers of a channel that address a command. -/
structure TaskFile where
  /-- SECCOUNT. -/
  seccount : Latch
  /-- LBA_LOW. -/
  low : Latch
  /-- LBA_MID. -/
  mid : Latch
  /-- LBA_HIGH. -/
  high : Latch
  /-- DEVICE. -/
  device : UInt8
  deriving Inhabited

/-- A command as the drives see it. -/
structure Command where
  /-- The command code. -/
  code : UInt8
  /-- Bit 4 of the device register: the command is for the slave. -/
  slave : Bool
  /-- Bit 6 of the device register: the address is an LBA. -/
  lbaMode : Bool
  /-- The first sector. -/
  lba : ℕ
  /-- How many sectors. -/
  count : ℕ
  deriving DecidableEq, Repr

/-- READ SECTORS EXT and WRITE SECTORS EXT. -/
def isExt (code : UInt8) : Bool := code = 0x24 ∨ code = 0x34

/-- The commands that read or write sectors. -/
def isTransfer (code : UInt8) : Bool := code ∈ ([0x20, 0x24, 0x30, 0x34] : List UInt8)

/-- IDENTIFY. -/
def isIdentify (code : UInt8) : Bool := code = 0xEC

/-- The command a code stands for when the registers hold `t`. -/
def TaskFile.command (t : TaskFile) (code : UInt8) : Command where
  code := code
  slave := t.device &&& 0x10 ≠ 0
  lbaMode := t.device &&& 0x40 ≠ 0
  lba := t.low.current.toNat + 2 ^ 8 * t.mid.current.toNat + 2 ^ 16 * t.high.current.toNat +
    2 ^ 24 * (if isExt code then
      t.low.previous.toNat + 2 ^ 8 * t.mid.previous.toNat + 2 ^ 16 * t.high.previous.toNat
    else t.device.toNat % 16)
  count :=
    if isExt code then
      let n := t.seccount.current.toNat + 2 ^ 8 * t.seccount.previous.toNat
      if n = 0 then 65536 else n
    else if t.seccount.current.toNat = 0 then 256 else t.seccount.current.toNat

/-- A write to one of the registers. -/
def TaskFile.write (t : TaskFile) (reg : UInt16) (v : UInt8) : TaskFile :=
  if reg = 2 then { t with seccount := t.seccount.push v }
  else if reg = 3 then { t with low := t.low.push v }
  else if reg = 4 then { t with mid := t.mid.push v }
  else if reg = 5 then { t with high := t.high.push v }
  else if reg = 6 then { t with device := v }
  else t

/-- The drives of the channel at `base`, reporting the commands whose code `keep` picks out. -/
def commands (keep : UInt8 → Bool) (base : UInt16) : Observer machine TaskFile Command where
  step t e :=
    match e with
    | .out (.outb p v) =>
      if p - base = 7 then (t, if keep v then [t.command v] else [])
      else (t.write (p - base) v, [])
    | _ => (t, [])

/-! ## The device register -/

/-- The unit bit and the LBA bit come from `deviceBits`, the low nibble from the address. -/
theorem deviceBits_or (isMaster : Bool) {n : UInt8} (hn : n.toNat < 16) :
    decide ((deviceBits isMaster ||| n) &&& 0x10 ≠ 0) = !isMaster ∧
      decide ((deviceBits isMaster ||| n) &&& 0x40 ≠ 0) = true ∧
      (deviceBits isMaster ||| n).toNat % 16 = n.toNat := by
  refine Words.of_lt n hn ?_
  cases isMaster <;> decide

theorem toNat_nibble (lba : UInt64) :
    ((lba >>> 24) &&& 0x0F).toUInt8.toNat = lba.toNat / 2 ^ 24 % 16 := by
  have h : _ = lba.toNat / 2 ^ 24 % 16 := Words.toNat_nibble64 lba 24 (by decide)
  rw [UInt64.toNat_toUInt8, h]
  omega

/-! ## The command of one sector -/

/-- The sector the drive is given when `lba` is meant. -/
def wireLba (lba : UInt64) (lba48 : Bool) : ℕ :=
  lba.toNat % 2 ^ 24 + 2 ^ 24 *
    (if lba48 then
      lba.toNat / 2 ^ 40 % 256 + 2 ^ 8 * (lba.toNat / 2 ^ 32 % 256) +
        2 ^ 16 * (lba.toNat / 2 ^ 24 % 256)
    else lba.toNat / 2 ^ 24 % 16)

variable (keep : UInt8 → Bool) (base : UInt16) (dev : Device machine) (h : Trace machine)
  (t : TaskFile) (v : UInt8)

@[simp] theorem commands_step_register (reg : UInt16) :
    (commands keep base).step t (.out (.outb (base + reg) v)) =
      if reg = 7 then (t, if keep v then [t.command v] else []) else (t.write reg v, []) := by
  simp only [commands, register_of_port]

@[simp] theorem write_features : t.write 1 v = t := rfl
@[simp] theorem write_seccount : t.write 2 v = { t with seccount := t.seccount.push v } := rfl
@[simp] theorem write_low : t.write 3 v = { t with low := t.low.push v } := rfl
@[simp] theorem write_mid : t.write 4 v = { t with mid := t.mid.push v } := rfl
@[simp] theorem write_high : t.write 5 v = { t with high := t.high.push v } := rfl
@[simp] theorem write_device : t.write 6 v = { t with device := v } := rfl

/-- A command is reported for a write to the command register. -/
theorem eq_outb_of_mem_step {keep : UInt8 → Bool} {base : UInt16} {t : TaskFile} {e : Exchange}
    {c : Command} (hc : c ∈ ((commands keep base).step t e).2) :
    ∃ v, e = .out (.outb (base + 7) v) ∧ keep v = true := by
  cases e with
  | inp i r => cases hc
  | out o =>
    cases o with
    | outb p v =>
      simp only [commands] at hc
      split at hc
      · rename_i hp
        refine ⟨v, ?_, ?_⟩
        · rw [← hp, UInt16.add_comm, UInt16.sub_add_cancel]
        · by_contra hv
          simp [hv] at hc
      · cases hc
    | outw | outl | mmio | store | free | print | color => cases hc

/-- What `ata_select_drive` leaves in the task file. -/
def TaskFile.select (t : TaskFile) (isMaster : Bool) (lba : UInt64) (lba48 : Bool) : TaskFile :=
  let device := deviceBits isMaster ||| ((lba >>> 24) &&& 0x0F).toUInt8
  if lba48 then
    { seccount := t.seccount.push 0
      low := t.low.push ((lba >>> 40) &&& 0xFF).toUInt8
      mid := t.mid.push ((lba >>> 32) &&& 0xFF).toUInt8
      high := t.high.push ((lba >>> 24) &&& 0xFF).toUInt8
      device := device }
  else { t with device := device }

theorem after_ataSelectDrive (isMaster : Bool) (lba : UInt64) (lba48 : Bool) :
    (commands keep base).after t ((ataSelectDrive base isMaster lba lba48).trace dev h) =
      t.select isMaster lba lba48 := by
  cases lba48 <;> simp [ataSelectDrive, ataSelectUpper, outb, TaskFile.select]

theorem reports_ataSelectDrive (isMaster : Bool) (lba : UInt64) (lba48 : Bool) :
    (commands keep base).reports t ((ataSelectDrive base isMaster lba lba48).trace dev h) = [] := by
  cases lba48 <;> simp [ataSelectDrive, ataSelectUpper, outb]

/-- The registers when the command byte of a sector is written. -/
def TaskFile.addressed (t : TaskFile) (lba : UInt64) (lba48 : Bool) : TaskFile :=
  let s := t.select false lba lba48
  { s with
    seccount := s.seccount.push 1
    low := s.low.push (lba &&& 0xFF).toUInt8
    mid := s.mid.push ((lba >>> 8) &&& 0xFF).toUInt8
    high := s.high.push ((lba >>> 16) &&& 0xFF).toUInt8 }

theorem reports_ataCommand (lba : UInt64) (lba48 : Bool) (ext short : UInt8) :
    (commands keep base).reports t ((ataCommand base lba lba48 ext short).trace dev h) =
      if keep (if lba48 then ext else short) then
        [(t.addressed lba lba48).command (if lba48 then ext else short)]
      else [] := by
  rw [ataCommand, trace_bind, Observer.reports_append, reports_ataSelectDrive,
    after_ataSelectDrive, List.nil_append]
  cases lba48 <;> simp [outb, TaskFile.addressed]

/-- **The command of a sector** is for the slave, in LBA mode, for one sector, and that sector is
the one on the wire. -/
theorem command_addressed (lba : UInt64) (lba48 : Bool) {code : UInt8}
    (hcode : isExt code = lba48) :
    (t.addressed lba lba48).command code = ⟨code, true, true, wireLba lba lba48, 1⟩ := by
  obtain ⟨h0, h8, h16, h24, h32, h40⟩ := Words.toNat_bytes48 lba
  have hnibble := toNat_nibble lba
  obtain ⟨hslave, hmode, hlow⟩ := deviceBits_or false
    (n := ((lba >>> 24) &&& 0x0F).toUInt8) (by omega)
  rw [hnibble] at hlow
  cases lba48 with
  | true =>
    simp only [TaskFile.command, TaskFile.addressed, TaskFile.select, if_true, hcode, Latch.push,
      hslave, hmode, h0, h8, h16, h24, h32, h40, wireLba, Command.mk.injEq, true_and]
    refine ⟨rfl, ?_, rfl⟩
    omega
  | false =>
    simp only [TaskFile.command, TaskFile.addressed, TaskFile.select, hcode, Latch.push,
      Bool.false_eq_true, if_false, hslave, hmode, hlow, h0, h8, h16, wireLba, Command.mk.injEq,
      true_and]
    refine ⟨rfl, ?_, rfl⟩
    omega

/-! ## Everything else on the ports

Status reads and data words are no commands, and neither is FLUSH one of those looked for. -/

section
variable {keep base}

theorem ignores_inp (i : In) (r : Reply i) : (commands keep base).Ignores (.inp i r) :=
  fun _ ↦ rfl

theorem ignores_outw (port val : UInt16) : (commands keep base).Ignores (.out (.outw port val)) :=
  fun _ ↦ rfl

theorem ignores_flush (hflush : keep 0xE7 = false) :
    (commands keep base).Ignores (.out (.outb (base + 7) 0xE7)) := by
  intro t
  simp [hflush]

theorem emits_ataWaitReady (basePort : UInt16) (timeoutMs : UInt32) :
    Emits (commands keep base).Ignores (ataWaitReady basePort timeoutMs) := by
  refine (emits_forLoop (fun _ _ ↦ ?_) _ _ _).bind fun r ↦ ?_
  · exact (emits_ask fun _ ↦ ignores_inp _ _).bind fun _ ↦ .ite (emits_pure _) (emits_pure _)
  · cases r <;> exact emits_pure _

theorem emits_ataWaitDrq (basePort : UInt16) (timeoutMs : UInt32) :
    Emits (commands keep base).Ignores (ataWaitDrq basePort timeoutMs) := by
  refine (emits_forLoop (fun _ _ ↦ ?_) _ _ _).bind fun r ↦ ?_
  · exact (emits_ask fun _ ↦ ignores_inp _ _).bind fun _ ↦
      .ite (emits_pure _) (.ite (emits_pure _) (emits_pure _))
  · cases r <;> exact emits_pure _

end

/-! ## Sectors and requests -/

/-- The command of sector `i` of a request, as the drives see it. -/
def sectorCommand (code : UInt8) (lba : UInt64) (lba48 : Bool) (i : ℕ) : Command :=
  ⟨code, true, true, wireLba (lba + (UInt32.ofNat i).toUInt64) lba48, 1⟩

/-- The drives of the channel at `base`, reporting the commands that read or write sectors. -/
abbrev transfers (base : UInt16) : Observer machine TaskFile Command := commands isTransfer base

/-- The code that is sent is of the form that is meant, and one for a transfer. -/
theorem isTransfer_code (lba48 : Bool) {ext short : UInt8}
    (hext : isExt ext = true ∧ isTransfer ext = true)
    (hshort : isExt short = false ∧ isTransfer short = true) :
    isExt (if lba48 then ext else short) = lba48 ∧
      isTransfer (if lba48 then ext else short) = true := by
  cases lba48
  · exact hshort
  · exact hext

/-- A program that starts with a sector's command, and then sends nothing else that counts. -/
theorem reports_sector {α : Type} (lba : UInt64) (lba48 : Bool) {ext short : UInt8}
    (hext : isExt ext = true ∧ isTransfer ext = true)
    (hshort : isExt short = false ∧ isTransfer short = true)
    {rest : Kernel α} (hrest : Emits (transfers base).Ignores rest) :
    (transfers base).reports t
        ((ataCommand base lba lba48 ext short >>= fun _ ↦ rest).trace dev h) =
      [⟨if lba48 then ext else short, true, true, wireLba lba lba48, 1⟩] := by
  have hcode := isTransfer_code lba48 hext hshort
  rw [trace_bind, Observer.reports_append, reports_ataCommand, if_pos hcode.2,
    command_addressed t lba lba48 hcode.1, Observer.reports_of_ignores _ (hrest dev _),
    List.append_nil]

/-- READ SECTORS EXT or READ SECTORS. -/
def readCode (lba48 : Bool) : UInt8 := if lba48 then 0x24 else 0x20

/-- WRITE SECTORS EXT or WRITE SECTORS. -/
def writeCode (lba48 : Bool) : UInt8 := if lba48 then 0x34 else 0x30

theorem reports_ataReadSector (lba : UInt64) (lba48 : Bool) (i : ℕ) (buf : UInt32 → UInt16) :
    (transfers base).reports t ((ataReadSector base lba lba48 (.ofNat i) buf).trace dev h) =
      [sectorCommand (readCode lba48) lba lba48 i] := by
  refine reports_sector base dev h t _ lba48 ⟨rfl, rfl⟩ ⟨rfl, rfl⟩ ?_
  refine (emits_ataWaitDrq base 500).bind fun drq ↦ .ite (emits_pure _) ?_
  refine (emits_forEach (fun _ _ ↦ ?_) _ _ _).bind fun _ ↦ emits_pure _
  exact (emits_ask fun _ ↦ ignores_inp _ _).bind fun _ ↦ emits_pure _

theorem reports_ataWriteSector (lba : UInt64) (lba48 : Bool) (i : ℕ) (buf : UInt32 → UInt16) :
    (transfers base).reports t ((ataWriteSector base lba lba48 buf (.ofNat i)).trace dev h) =
      [sectorCommand (writeCode lba48) lba lba48 i] := by
  refine reports_sector base dev h t _ lba48 ⟨rfl, rfl⟩ ⟨rfl, rfl⟩ ?_
  refine (emits_ataWaitDrq base 500).bind fun drq ↦ .ite (emits_pure _) ?_
  refine (emits_forEach (fun _ _ ↦ emits_emit (ignores_outw _ _)) _ _ _).bind fun _ ↦ ?_
  refine (emits_emit (ignores_flush rfl)).bind fun _ ↦ ?_
  exact (emits_ataWaitReady base 1000).bind fun _ ↦ emits_pure _

/-- A loop over the sectors of a request reports their commands, from sector `0` on. -/
theorem reports_sectors {σ ε : Type} {body : ℕ → σ → Kernel (Except ε σ)} {f : ℕ → Command}
    (hbody : ∀ i a h t, (transfers base).reports t ((body i a).trace dev h) = [f i]) (n : ℕ)
    (a : σ) :
    ∃ k ≤ n, (0 < n → 0 < k) ∧
      (transfers base).reports t ((forLoop body n 0 a).trace dev h) = (List.range k).map f ∧
      ∀ b, (forLoop body n 0 a).value dev h = .ok b → k = n := by
  obtain ⟨-, k, hk, hpos, hrep, hall⟩ := (transfers base).reports_forLoop body
    (fun _ ↦ True) (fun i ↦ [f i]) dev n 0
    (fun i a h t _ _ _ ↦ ⟨trivial, hbody i a h t⟩) a h (s := t) trivial
  refine ⟨k, hk, hpos, ?_, hall⟩
  rw [hrep, ← List.range_eq_range', List.map_eq_flatMap]

/-- **What `ata_pio_read` sends**: the commands of the first `k` sectors, all of them if it
returns `0`, and at least the first. -/
theorem reports_ataPioRead (lba : UInt64) (count : UInt32) (buffer : UInt32 → UInt16)
    (lba48 : Bool) :
    ∃ k ≤ count.toNat, (0 < count.toNat → 0 < k) ∧
      (transfers base).reports t ((ataPioRead base lba count buffer lba48).trace dev h) =
        (List.range k).map (sectorCommand (readCode lba48) lba lba48) ∧
      (((ataPioRead base lba count buffer lba48).value dev h).1 = 0 → k = count.toNat) := by
  obtain ⟨k, hk, hpos, hrep, hall⟩ := reports_sectors base dev h t
    (fun i buf h t ↦ reports_ataReadSector base dev h t lba lba48 i buf) count.toNat buffer
  refine ⟨k, hk, hpos, ?_, ?_⟩
  · rw [← hrep, ataPioRead, trace_bind]
    split <;> simp
  · intro hv
    rw [ataPioRead, value_bind] at hv
    split at hv
    · cases hv
    · exact hall _ ‹_›

/-- **What `ata_pio_write` sends**, likewise. -/
theorem reports_ataPioWrite (lba : UInt64) (count : UInt32) (buffer : UInt32 → UInt16)
    (lba48 : Bool) :
    ∃ k ≤ count.toNat, (0 < count.toNat → 0 < k) ∧
      (transfers base).reports t ((ataPioWrite base lba count buffer lba48).trace dev h) =
        (List.range k).map (sectorCommand (writeCode lba48) lba lba48) ∧
      ((ataPioWrite base lba count buffer lba48).value dev h = 0 → k = count.toNat) := by
  obtain ⟨k, hk, hpos, hrep, hall⟩ := reports_sectors base dev h t
    (fun i (_ : Unit) h t ↦ reports_ataWriteSector base dev h t lba lba48 i buffer)
    count.toNat ()
  refine ⟨k, hk, hpos, ?_, ?_⟩
  · rw [← hrep, ataPioWrite, trace_bind]
    split <;> simp
  · intro hv
    rw [ataPioWrite, value_bind] at hv
    split at hv
    · cases hv
    · exact hall _ ‹_›

end Aetherion.Ata
