import Aetherion.Ahci.Driver
import Aetherion.Base.Memory

/-!
# What the adapter fetches

Once the driver has set a slot's bit in PxCI, the adapter finds the command by itself: from the
command list to the header of the slot, and from the header's table address, and only from there,
to the command table with the FIS and the data address.

`adapter` is the adapter's view of a run.  It keeps the memory as the driver's stores have left it
and reports it whenever the bit is set, and `FetchesBuilt` says that what it then finds is what the
driver built.  The driver writes a right header and a right table and never puts the address of the
table into the header, so that is hardly ever so: `fetch_iff`.
-/

set_option autoImplicit false

namespace Aetherion.Ahci

open Driver Driver.Prog

/-- The adapter: it sees the memory, and starts to fetch when the slot's bit is set in PxCI. -/
def adapter (hba : Hba) (port : AhciPort) : Observer machine Mem Mem where
  step m e :=
    match e with
    | .out (.store a bs) => (m.write a bs, [])
    | .out (.mmio a v) =>
      (m, if a = portAddr hba port 0x38 ∧ v &&& slotBit port ≠ 0 then [m] else [])
    | _ => (m, [])

/-- The adapter's way to the header of the slot. -/
def fetchHeader (port : AhciPort) : UInt64 := port.cmdListBase + port.cmdSlot.toUInt64 * 32

/-- The table address in a header. -/
def fetchTable (m : Mem) (hdr : UInt64) : UInt64 :=
  Words.ofHalves (m.read32 (hdr + 8)) (m.read32 (hdr + 12))

/-- The header says: a FIS of five words, one data region, this direction. -/
structure HeaderBuilt (m : Mem) (hdr : UInt64) (isWrite : Bool) : Prop where
  cfl : m hdr &&& 0x1F = 5
  write : decide (m hdr &&& 0x40 ≠ 0) = isWrite
  prdtl : m.read16 (hdr + 2) = 1

/-- The table holds the FIS and one data region at `buffer`, with the interrupt flag set. -/
structure TableBuilt (m : Mem) (tbl : UInt64) (fis : Fis) (buffer : UInt64) : Prop where
  fis : m.readBytes tbl 64 = fis.toList
  data : Words.ofHalves (m.read32 (tbl + 0x80)) (m.read32 (tbl + 0x84)) = buffer
  interrupt : m.read32 (tbl + 0x8C) &&& 0x80000000 ≠ 0

/-- What the adapter fetches is what the driver built. -/
structure FetchesBuilt (m : Mem) (port : AhciPort) (fis : Fis) (buffer : UInt64)
    (isWrite : Bool) : Prop where
  header : HeaderBuilt m (fetchHeader port) isWrite
  table : fetchTable m (fetchHeader port) = port.cmdTableBase
  built : TableBuilt m (fetchTable m (fetchHeader port)) fis buffer

/-- Run from the memory `m`, the command is fetched as it was built. -/
def CmdFetched (hba : Hba) (port : AhciPort) (fis : Fis) (buffer : UInt64) (count : UInt32)
    (isWrite : Bool) (dev : Device machine) (h : Trace machine) (m : Mem) : Prop :=
  ∀ m' ∈ (adapter hba port).reports m
      ((ahciExecCmd hba port fis buffer count isWrite).trace dev h),
    FetchesBuilt m' port fis buffer isWrite

/-- A port as `ahci_detect_ports` sets it up: the driver's pointer to the headers is the base of
the command list, and the header of the slot and the table do not overlap. -/
structure WellPlaced (port : AhciPort) : Prop where
  headers : port.cmdHeaders = port.cmdListBase
  apart : Mem.Apart (cmdHeader port) 32 port.cmdTableBase 0x90

/-! ## Building the command -/

/-- The first byte of a header: CFL and W. -/
def headerByte (isWrite : Bool) : UInt8 :=
  (5 : UInt8) ||| (if isWrite then (1 : UInt8) <<< 6 else 0)

/-- The memory with a header written. -/
def headerWritten (m : Mem) (hdr : UInt64) (isWrite : Bool) : Mem :=
  ((m.write hdr (List.replicate 32 0)).write hdr [headerByte isWrite]).write
    (hdr + .ofNat 2) (Words.bytes16 1)

/-- The memory with a table written. -/
def tableWritten (m : Mem) (tbl : UInt64) (dba dbau dw3 : UInt32) (fis : Fis) : Mem :=
  (((m.write (tbl + .ofNat 0x80) (Words.bytes32 dba)).write
    (tbl + .ofNat 0x84) (Words.bytes32 dbau)).write
      (tbl + .ofNat 0x8C) (Words.bytes32 dw3)).write tbl fis.toList

/-- The upper half of the data address as it is written: nothing, without 64-bit addressing. -/
def dataUpper (hba : Hba) (buffer : UInt64) : UInt32 :=
  if hba.cap64bit then (buffer >>> 32).toUInt32 else 0

/-- The last word of the data region: byte count and interrupt flag over what was there. -/
def dataFlags (old count : UInt32) : UInt32 :=
  (old &&& ~~~0x3FFFFF) ||| ((count - 1) &&& 0x3FFFFF) ||| 0x80000000

section
variable (hba : Hba) (port : AhciPort) (fis : Fis) (buffer : UInt64) (count : UInt32)
  (isWrite : Bool) (dev : Device machine) (h : Trace machine) (m : Mem)

/-- The memory when the command has been built. -/
theorem after_buildCommand :
    ∃ old, (adapter hba port).after m
        ((buildCommand hba port fis buffer count isWrite).trace dev h) =
      tableWritten (headerWritten m (cmdHeader port) isWrite) port.cmdTableBase buffer.toUInt32
        (dataUpper hba buffer) (dataFlags old count) fis := ⟨_, rfl⟩

theorem reports_buildCommand :
    (adapter hba port).reports m ((buildCommand hba port fis buffer count isWrite).trace dev h) =
      [] := rfl

theorem slotBit_ne_zero : slotBit port ≠ 0 := by
  intro h
  have hn := congrArg UInt32.toNat h
  have hpow : 2 ^ (port.cmdSlot.toNat % 32) < 2 ^ 32 :=
    Nat.pow_lt_pow_right (by decide) (Nat.mod_lt _ (by decide))
  rw [slotBit, UInt32.toNat_shiftLeft, show UInt32.toNat 1 = 1 from rfl, Nat.one_shiftLeft,
    Nat.mod_eq_of_lt hpow] at hn
  exact Nat.two_pow_pos _ |>.ne' hn

end

/-! ## Reading it back -/

section
variable {hba : Hba} {port : AhciPort} {fis : Fis} {buffer : UInt64} {count : UInt32}
  {isWrite : Bool} {m : Mem}

/-- The table's stores leave everything apart from the table as it was. -/
theorem tableWritten_apart {a tbl : UInt64} {n : ℕ} (hapart : Mem.Apart a n tbl 0x90)
    (dba dbau dw3 : UInt32) {i : ℕ} (hi : i < n) :
    tableWritten m tbl dba dbau dw3 fis (a + .ofNat i) = m (a + .ofNat i) := by
  have hfis := Mem.write_apart hapart (((m.write (tbl + .ofNat 0x80) (Words.bytes32 dba)).write
    (tbl + .ofNat 0x84) (Words.bytes32 dbau)).write (tbl + .ofNat 0x8C) (Words.bytes32 dw3))
    (show 0 + fis.toList.length ≤ 0x90 by simp) hi
  rw [show UInt64.ofNat 0 = 0 from rfl, UInt64.add_zero] at hfis
  rw [tableWritten, hfis, Mem.write_apart hapart _ (by simp) hi,
    Mem.write_apart hapart _ (by simp) hi, Mem.write_apart hapart _ (by simp) hi]

/-- The bytes of a header that has been written. -/
theorem headerWritten_ofNat (m : Mem) (hdr : UInt64) (isWrite : Bool) {i : ℕ} (hi : i < 32) :
    headerWritten m hdr isWrite (hdr + .ofNat i) =
      if i = 0 then headerByte isWrite else if i = 2 then 1 else 0 := by
  rw [headerWritten, Mem.write_ofNat _ _ (by simp) (by omega),
    Mem.write_ofNat_zero _ _ (by simp) (by omega), Mem.write_ofNat_zero _ _ (by simp) (by omega),
    List.getElem?_replicate, if_pos hi]
  rcases i with _ | _ | _ | _ | i
  · rfl
  · rfl
  · rfl
  · rfl
  · rw [if_pos (by omega), List.getElem?_eq_none (by simp), List.getElem?_eq_none (by simp)]
    rfl

/-- The data words of a table that has been written. -/
theorem tableWritten_data (m : Mem) (tbl : UInt64) (dba dbau dw3 : UInt32) (fis : Fis) :
    (tableWritten m tbl dba dbau dw3 fis).read32 (tbl + .ofNat 0x80) = dba ∧
      (tableWritten m tbl dba dbau dw3 fis).read32 (tbl + .ofNat 0x84) = dbau ∧
      (tableWritten m tbl dba dbau dw3 fis).read32 (tbl + .ofNat 0x8C) = dw3 := by
  refine ⟨Mem.read32_eq _ _ _ _ fun k hk ↦ ?_, Mem.read32_eq _ _ _ _ fun k hk ↦ ?_,
    Mem.read32_eq _ _ _ _ fun k hk ↦ ?_⟩
  all_goals
    rw [tableWritten, Mem.write_ofNat_zero _ _ (by simp) (by omega),
      Mem.write_ofNat _ _ (by simp) (by omega), Mem.write_ofNat _ _ (by simp) (by omega),
      Mem.write_ofNat _ _ (by simp) (by omega), List.getElem?_eq_none (by simp; omega)]
    rcases k with _ | _ | _ | _ | k
    · rfl
    · rfl
    · rfl
    · rfl
    · omega

/-- The FIS in it. -/
theorem readBytes_tableWritten (m : Mem) (tbl : UInt64) (dba dbau dw3 : UInt32) (fis : Fis) :
    (tableWritten m tbl dba dbau dw3 fis).readBytes tbl 64 = fis.toList := by
  have hfis := Mem.readBytes_write (((m.write (tbl + .ofNat 0x80) (Words.bytes32 dba)).write
    (tbl + .ofNat 0x84) (Words.bytes32 dbau)).write (tbl + .ofNat 0x8C) (Words.bytes32 dw3)) tbl
    fis.toList (by simp)
  rwa [Vector.length_toList] at hfis

/-- The two halves of the data address give it back, unless the upper one had to be dropped. -/
theorem ofHalves_buffer_iff :
    Words.ofHalves buffer.toUInt32 (dataUpper hba buffer) = buffer ↔
      hba.cap64bit = true ∨ buffer.toNat < 2 ^ 32 := by
  have hb := buffer.toNat_lt
  have hhigh : (buffer >>> 32).toUInt32.toNat = buffer.toNat / 2 ^ 32 := by
    rw [UInt64.toNat_toUInt32, UInt64.toNat_shiftRight, Nat.shiftRight_eq_div_pow]
    change buffer.toNat / 2 ^ 32 % 2 ^ 32 = _
    omega
  rw [← UInt64.toNat_inj, Words.toNat_ofHalves, UInt64.toNat_toUInt32, dataUpper]
  cases hba.cap64bit with
  | true =>
    simp only [if_true, hhigh, true_or, iff_true]
    omega
  | false =>
    simp only [Bool.false_eq_true, if_false, false_or, show UInt32.toNat 0 = 0 from rfl]
    omega

theorem dataFlags_interrupt (old count : UInt32) : dataFlags old count &&& 0x80000000 ≠ 0 := by
  intro h
  have hbit := congrArg (fun x ↦ x.toBitVec[31]) h
  simp [dataFlags] at hbit

/-! ## What is fetched -/

theorem emits_awaitCmd (hba : Hba) (port : AhciPort) :
    Emits (adapter hba port).Ignores (awaitCmd hba port) := by
  have hpoll : ∀ timeout, Emits (adapter hba port).Ignores (pollCi hba port timeout) := by
    intro timeout
    induction timeout with
    | zero => exact emits_pure _
    | succ timeout ih => exact (emits_ask fun _ _ ↦ rfl).bind fun _ ↦ .ite (emits_pure _) ih
  refine (hpoll _).bind fun timeout ↦ .ite (emits_pure _) ?_
  refine (emits_ask fun _ _ ↦ rfl).bind fun is ↦ .ite ?_ (emits_pure _)
  exact (emits_emit fun _ ↦ rfl).bind fun _ ↦ emits_pure _

/-- The adapter starts when the driver writes PxCI. -/
theorem adapter_step_start (hba : Hba) (port : AhciPort) (m : Mem) :
    (adapter hba port).step m (.out (.mmio (portAddr hba port 0x38) (slotBit port))) =
      (m, [m]) := by
  have hbit : slotBit port &&& slotBit port ≠ 0 := by
    rw [UInt32.and_self]
    exact slotBit_ne_zero port
  have hstart : (if portAddr hba port 0x38 = portAddr hba port 0x38 ∧
      slotBit port &&& slotBit port ≠ 0 then [m] else []) = [m] := if_pos ⟨rfl, hbit⟩
  exact congrArg (m, ·) hstart

/-- The memory the adapter starts from, for some earlier contents of the reserved bits. -/
theorem reports_ahciExecCmd (hba : Hba) (port : AhciPort) (fis : Fis) (buffer : UInt64)
    (count : UInt32) (isWrite : Bool) (dev : Device machine) (h : Trace machine) (m : Mem) :
    ∃ old, (adapter hba port).reports m
        ((ahciExecCmd hba port fis buffer count isWrite).trace dev h) =
      [tableWritten (headerWritten m (cmdHeader port) isWrite) port.cmdTableBase buffer.toUInt32
        (dataUpper hba buffer) (dataFlags old count) fis] := by
  obtain ⟨old, hafter⟩ := after_buildCommand hba port fis buffer count isWrite dev h m
  refine ⟨old, ?_⟩
  rw [ahciExecCmd, trace_bind, Observer.reports_append, reports_buildCommand, hafter,
    List.nil_append, trace_bind, Observer.reports_append, portWrite, mmioWrite, trace_emit,
    Observer.reports_cons, adapter_step_start, Observer.reports_nil,
    Observer.reports_of_ignores _ (emits_awaitCmd hba port dev _)]
  rfl

section
variable {dba dbau dw3 : UInt32}

/-- The header the adapter reads is the one the driver wrote. -/
theorem headerBuilt (hport : WellPlaced port) :
    HeaderBuilt (tableWritten (headerWritten m (cmdHeader port) isWrite) port.cmdTableBase
      dba dbau dw3 fis) (cmdHeader port) isWrite := by
  have hbyte {i : ℕ} (hi : i < 32) :
      tableWritten (headerWritten m (cmdHeader port) isWrite) port.cmdTableBase dba dbau dw3 fis
          (cmdHeader port + .ofNat i) =
        if i = 0 then headerByte isWrite else if i = 2 then 1 else 0 := by
    rw [tableWritten_apart hport.apart dba dbau dw3 hi, headerWritten_ofNat m _ isWrite hi]
  have h0 := hbyte (i := 0) (by decide)
  have h2 := hbyte (i := 2) (by decide)
  have h3 := hbyte (i := 3) (by decide)
  rw [show UInt64.ofNat 0 = 0 from rfl, UInt64.add_zero, if_pos rfl] at h0
  rw [if_neg (by decide), if_pos rfl, show UInt64.ofNat 2 = 2 from rfl] at h2
  rw [if_neg (by decide), if_neg (by decide), show UInt64.ofNat 3 = 2 + 1 from rfl,
    ← UInt64.add_assoc] at h3
  refine ⟨?_, ?_, ?_⟩
  · rw [h0]
    cases isWrite <;> decide
  · rw [h0]
    cases isWrite <;> decide
  · rw [Mem.read16, h2, h3]
    decide

/-- The table address in it is `0`. -/
theorem fetchTable_eq_zero (hport : WellPlaced port) :
    fetchTable (tableWritten (headerWritten m (cmdHeader port) isWrite) port.cmdTableBase
      dba dbau dw3 fis) (cmdHeader port) = 0 := by
  have hword (off : ℕ) (hoff : 4 ≤ off ∧ off + 4 ≤ 32) :
      (tableWritten (headerWritten m (cmdHeader port) isWrite) port.cmdTableBase
        dba dbau dw3 fis).read32 (cmdHeader port + .ofNat off) = 0 := by
    refine Mem.read32_eq _ _ _ _ fun k hk ↦ ?_
    rw [tableWritten_apart hport.apart dba dbau dw3 (by omega),
      headerWritten_ofNat _ _ _ (by omega), if_neg (by omega), if_neg (by omega)]
    rcases k with _ | _ | _ | _ | k
    · rfl
    · rfl
    · rfl
    · rfl
    · omega
  have h8 := hword 8 (by decide)
  have h12 := hword 12 (by decide)
  exact (congrArg₂ Words.ofHalves h8 h12).trans (by decide)

/-- The table is as the driver meant it, up to the upper half of the data address. -/
theorem tableBuilt_iff {tbl : UInt64} {old : UInt32} :
    TableBuilt (tableWritten m tbl buffer.toUInt32 (dataUpper hba buffer) (dataFlags old count)
      fis) tbl fis buffer ↔ hba.cap64bit = true ∨ buffer.toNat < 2 ^ 32 := by
  obtain ⟨hdba, hdbau, hdw3⟩ := tableWritten_data m tbl buffer.toUInt32 (dataUpper hba buffer)
    (dataFlags old count) fis
  rw [← ofHalves_buffer_iff]
  constructor
  · intro hbuilt
    exact (congrArg₂ Words.ofHalves hdba hdbau).symm.trans hbuilt.data
  · intro hbuffer
    refine ⟨readBytes_tableWritten .., (congrArg₂ Words.ofHalves hdba hdbau).trans hbuffer, ?_⟩
    have hinterrupt := dataFlags_interrupt old count
    rwa [← hdw3] at hinterrupt

end

/-- The one memory the adapter can start from is right under these two conditions. -/
theorem fetchesBuilt_iff (hport : WellPlaced port) {old : UInt32} :
    FetchesBuilt (tableWritten (headerWritten m (cmdHeader port) isWrite) port.cmdTableBase
        buffer.toUInt32 (dataUpper hba buffer) (dataFlags old count) fis) port fis buffer isWrite ↔
      port.cmdTableBase = 0 ∧ (hba.cap64bit = true ∨ buffer.toNat < 2 ^ 32) := by
  have hhdr : fetchHeader port = cmdHeader port := by rw [fetchHeader, cmdHeader, hport.headers]
  constructor
  · intro hfetch
    have htable := hfetch.table
    have hbuilt := hfetch.built
    rw [hhdr, fetchTable_eq_zero hport] at htable hbuilt
    rw [← htable] at hbuilt ⊢
    exact ⟨rfl, tableBuilt_iff.mp hbuilt⟩
  · rintro ⟨hzero, hbuffer⟩
    have htable : fetchTable (tableWritten (headerWritten m (cmdHeader port) isWrite)
        port.cmdTableBase buffer.toUInt32 (dataUpper hba buffer) (dataFlags old count) fis)
        (cmdHeader port) = 0 := fetchTable_eq_zero hport
    refine ⟨?_, ?_, ?_⟩
    · rw [hhdr]
      exact headerBuilt hport
    · rw [hhdr, htable, hzero]
    · rw [hhdr, htable, ← hzero]
      exact tableBuilt_iff.mpr hbuffer

end

/-- **Of what the driver built, the adapter finds the header**, and the FIS is where the driver put
it. -/
theorem header_fetched (hba : Hba) {port : AhciPort} (hport : WellPlaced port) (fis : Fis)
    (buffer : UInt64) (count : UInt32) (isWrite : Bool) (dev : Device machine) (h : Trace machine)
    (m : Mem) :
    ∀ m' ∈ (adapter hba port).reports m
        ((ahciExecCmd hba port fis buffer count isWrite).trace dev h),
      HeaderBuilt m' (fetchHeader port) isWrite ∧
        m'.readBytes port.cmdTableBase 64 = fis.toList := by
  obtain ⟨old, hrep⟩ := reports_ahciExecCmd hba port fis buffer count isWrite dev h m
  have hhdr : fetchHeader port = cmdHeader port := by rw [fetchHeader, cmdHeader, hport.headers]
  rw [hrep, List.forall_mem_singleton, hhdr]
  exact ⟨headerBuilt hport, readBytes_tableWritten ..⟩

/-- **What the adapter fetches is what the driver built** exactly when the table is at address
`0`, the only place that a header without a table address leads to, and the data address has no
upper half that would be lost. -/
theorem fetch_iff (hba : Hba) (port : AhciPort) (hport : WellPlaced port) (fis : Fis)
    (buffer : UInt64) (count : UInt32) (isWrite : Bool) (dev : Device machine) (h : Trace machine)
    (m : Mem) :
    CmdFetched hba port fis buffer count isWrite dev h m ↔
      port.cmdTableBase = 0 ∧ (hba.cap64bit = true ∨ buffer.toNat < 2 ^ 32) := by
  obtain ⟨old, hrep⟩ := reports_ahciExecCmd hba port fis buffer count isWrite dev h m
  rw [CmdFetched, hrep, List.forall_mem_singleton]
  exact fetchesBuilt_iff hport

/-- A port with its table at address `0`, and its command list behind it. -/
def portAtZero : AhciPort := ⟨0, 0, 0x400, 0x800, 0, 0x400⟩

/-- On it, IDENTIFY is fetched as it is built. -/
theorem fetch_iff_portAtZero :
    CmdFetched AhciState.initial.hba portAtZero identifyFis 0x2000 512 false (steadyMachine 0 0 0)
      [] fun _ ↦ 0 :=
  (fetch_iff AhciState.initial.hba portAtZero
    ⟨rfl, (Mem.apart_of_le (a := 0) (b := 0x400) (by decide) (by decide)).symm⟩ identifyFis 0x2000
    512 false _ [] _).mpr ⟨rfl, Or.inr (by decide)⟩

/-- The first port that detection sets up. -/
def firstPort : AhciPort := ⟨0, 0, 0x1000000, 0x1000400, 0x1001000, 0x1000000⟩

/-- On it, it is not. -/
theorem firstPort_not_fetched :
    WellPlaced firstPort ∧
      ¬CmdFetched AhciState.initial.hba firstPort identifyFis 0x2000 512 false
        (steadyMachine 0 0 0) [] fun _ ↦ 0 := by
  have hplaced : WellPlaced firstPort :=
    ⟨rfl, Mem.apart_of_le (a := 0x1000000) (b := 0x1001000) (by decide) (by decide)⟩
  refine ⟨hplaced, ?_⟩
  intro hall
  obtain ⟨old, hrep⟩ := reports_ahciExecCmd AhciState.initial.hba firstPort identifyFis 0x2000 512
    false (steadyMachine 0 0 0) [] fun _ ↦ 0
  rw [CmdFetched, hrep, List.forall_mem_singleton, fetchesBuilt_iff hplaced] at hall
  exact absurd hall.1 (by decide)

end Aetherion.Ahci
