import Aetherion.Base.Confined
import Aetherion.Ahci.Ports

/-!
# What belongs to a port

A port has its registers, the memory that detection has cut off for it, and the buffers that its
device fills.  Everything a request exchanges belongs to the port that it is for
(`confined_ahciReadSectors`, `confined_ahciWriteSectors`), and after detection no other port notices
any of it (`not_has_portPart`): the registers are `0x80` bytes apart, and the memory of a port ends
before that of the next one begins (`portsLaid_findDisks`).
-/

set_option autoImplicit false

namespace Aetherion.Ahci

open Driver Driver.Prog Storage

/-- A register of the port. -/
def IsRegister (hba : Hba) (i : Fin 32) (a : UInt64) : Prop :=
  ∃ offset : UInt32, offset.toNat < 0x80 ∧ a = portAddr hba (hba.port i) offset

/-- A register of the controller itself. -/
def IsHbaRegister (hba : Hba) (a : UInt64) : Prop :=
  ∃ offset : UInt32, offset.toNat < 0x100 ∧ a = hba.abar + offset.toUInt64

/-- The bytes are in the memory of the port. -/
def InMemory (port : AhciPort) (a : UInt64) (n : ℕ) : Prop :=
  port.cmdListBase.toNat ≤ a.toNat ∧ a.toNat + n ≤ port.cmdTableBase.toNat + 4096

/-- Some of the bytes are. -/
def Touches (port : AhciPort) (a : UInt64) (n : ℕ) : Prop :=
  ∃ k < n, InMemory port (a + .ofNat k) 1

/-- What a request for the port exchanges: with the port, and messages.  `owner` says whose device
fills the buffer at an address. -/
def requestPart (hba : Hba) (owner : UInt64 → Fin 32) (i : Fin 32) : Part machine where
  reads
    | .mmio a => IsRegister hba i a
    | .load32 a => InMemory (hba.port i) a 4
    | .dma a => owner a = i
    | _ => False
  writes
    | .mmio a _ => IsRegister hba i a
    | .store a bs => InMemory (hba.port i) a bs.length
    | .print _ => True
    | _ => False

/-- **What a port can notice**: its own registers and those of the controller, and its memory. -/
def portPart (hba : Hba) (owner : UInt64 → Fin 32) (i : Fin 32) : Part machine where
  reads := (requestPart hba owner i).reads
  writes
    | .mmio a _ => IsRegister hba i a ∨ IsHbaRegister hba a
    | .store a bs => Touches (hba.port i) a bs.length
    | _ => False

/-- A port as detection leaves it. -/
structure Laid (i : Fin 32) (port : AhciPort) : Prop where
  number : port.portNum = .ofNat i
  header : cmdHeader port = port.cmdListBase
  table : port.cmdListBase.toNat + 1024 ≤ port.cmdTableBase.toNat
  fits : port.cmdTableBase.toNat + 4096 ≤ 2 ^ 64

/-- An address that does not wrap around. -/
theorem toNat_add_ofNat {a : UInt64} {off : ℕ} (h : a.toNat + off < 2 ^ 64) :
    (a + .ofNat off).toNat = a.toNat + off := by
  rw [UInt64.toNat_add, UInt64.toNat_ofNat', Nat.mod_eq_of_lt (show off < 2 ^ 64 by omega),
    Nat.mod_eq_of_lt h]

/-! ## Requests -/

section
variable {hba : Hba} {owner : UInt64 → Fin 32} {i : Fin 32}

theorem confined_portRead {offset : UInt32} (hoffset : offset.toNat < 0x80) :
    Confined (requestPart hba owner i) (portRead hba (hba.port i) offset) :=
  confined_ask ⟨offset, hoffset, rfl⟩

theorem confined_portWrite {offset : UInt32} (hoffset : offset.toNat < 0x80) (val : UInt32) :
    Confined (requestPart hba owner i) (portWrite hba (hba.port i) offset val) :=
  confined_emit ⟨offset, hoffset, rfl⟩

theorem confined_vgaWrite (text : String) : Confined (requestPart hba owner i) (vgaWrite text) :=
  confined_emit trivial

/-- Bytes of the command list. -/
theorem Laid.inList {port : AhciPort} (h : Laid i port) {off n : ℕ} (hoff : off + n ≤ 1024) :
    InMemory port (cmdHeader port + .ofNat off) n := by
  have htable := h.table
  have hfits := h.fits
  have haddr := toNat_add_ofNat (show port.cmdListBase.toNat + off < 2 ^ 64 by omega)
  rw [InMemory, h.header, haddr]
  omega

/-- Bytes of the command table. -/
theorem Laid.inTable {port : AhciPort} (h : Laid i port) {off n : ℕ} (hoff : off + n ≤ 4096)
    (hn : 0 < n) : InMemory port (port.cmdTableBase + .ofNat off) n := by
  have htable := h.table
  have hfits := h.fits
  have haddr := toNat_add_ofNat (show port.cmdTableBase.toNat + off < 2 ^ 64 by omega)
  rw [InMemory, haddr]
  omega

theorem confined_storeList (h : Laid i (hba.port i)) (off : ℕ) (bs : List UInt8)
    (hoff : off + bs.length ≤ 1024) :
    Confined (requestPart hba owner i) (store (cmdHeader (hba.port i) + .ofNat off) bs) :=
  confined_emit (h.inList hoff)

theorem confined_storeTable (h : Laid i (hba.port i)) (off : ℕ) (bs : List UInt8)
    (hne : 0 < bs.length) (hoff : off + bs.length ≤ 4096) :
    Confined (requestPart hba owner i)
      (store ((hba.port i).cmdTableBase + .ofNat off) bs) :=
  confined_emit (h.inTable hoff hne)

/-- The header and the table are built in the memory of the port. -/
theorem confined_buildCommand (h : Laid i (hba.port i)) (fis : Fis) (buffer : UInt64)
    (count : UInt32) (isWrite : Bool) :
    Confined (requestPart hba owner i)
      (buildCommand hba (hba.port i) fis buffer count isWrite) := by
  have hlist : cmdHeader (hba.port i) = cmdHeader (hba.port i) + .ofNat 0 :=
    (UInt64.add_zero _).symm
  have htable : (hba.port i).cmdTableBase = (hba.port i).cmdTableBase + .ofNat 0 :=
    (UInt64.add_zero _).symm
  have hheader (bs : List UInt8) (hbs : bs.length ≤ 1024) :
      Confined (requestPart hba owner i) (store (cmdHeader (hba.port i)) bs) := by
    rw [hlist]
    exact confined_storeList h 0 bs (by omega)
  have hfis : Confined (requestPart hba owner i) (store (hba.port i).cmdTableBase fis.toList) := by
    have hlength : fis.toList.length = 64 := Vector.length_toList
    rw [htable]
    exact confined_storeTable h 0 fis.toList (by omega) (by omega)
  have hword (off : ℕ) (hoff : off + 4 ≤ 4096) (w : UInt32) :
      Confined (requestPart hba owner i)
        (store ((hba.port i).cmdTableBase + .ofNat off) (Words.bytes32 w)) :=
    confined_storeTable h off _ (Nat.succ_pos 3) hoff
  refine (hheader _ (by decide)).bind fun _ ↦ (hheader _ (by simp)).bind fun _ ↦
    (confined_storeList h 2 (Words.bytes16 1) (by decide)).bind fun _ ↦ ?_
  refine (hword 0x80 (by decide) _).bind fun _ ↦ (hword 0x84 (by decide) _).bind fun _ ↦ ?_
  exact (confined_ask (h.inTable (show 0x8C + 4 ≤ 4096 by decide) (by decide))).bind fun _ ↦
    (hword 0x8C (by decide) _).bind fun _ ↦ hfis

theorem confined_pollCi (timeout : ℕ) :
    Confined (requestPart hba owner i) (pollCi hba (hba.port i) timeout) := by
  induction timeout with
  | zero => exact confined_pure _
  | succ timeout ih =>
    exact (confined_portRead (by decide)).bind fun ci ↦ .ite (confined_pure _) ih

theorem confined_awaitCmd :
    Confined (requestPart hba owner i) (awaitCmd hba (hba.port i)) :=
  (confined_pollCi _).bind fun timeout ↦ .ite (confined_pure _) <|
    (confined_portRead (by decide)).bind fun is ↦
      .ite ((confined_vgaWrite _).bind fun _ ↦ confined_pure _) (confined_pure _)

theorem confined_ahciExecCmd (h : Laid i (hba.port i)) (fis : Fis) (buffer : UInt64)
    (count : UInt32) (isWrite : Bool) :
    Confined (requestPart hba owner i)
      (ahciExecCmd hba (hba.port i) fis buffer count isWrite) :=
  (confined_buildCommand h _ _ _ _).bind fun _ ↦ (confined_portWrite (by decide) _).bind fun _ ↦
    confined_awaitCmd

/-- **A request to read** keeps to the port, if the buffer is one that its device fills. -/
theorem confined_ahciReadSectors (h : Laid i (hba.port i)) (lba : UInt64) (count : UInt32)
    {buffer : Buffer} (hbuffer : owner buffer.addr = i) :
    Confined (requestPart hba owner i) (ahciReadSectors hba i lba count buffer) :=
  (confined_ahciExecCmd h _ _ _ _).bind fun _ ↦ (confined_ask hbuffer).bind fun _ ↦
    confined_pure _

/-- **A request to write** keeps to the port. -/
theorem confined_ahciWriteSectors (h : Laid i (hba.port i)) (lba : UInt64) (count : UInt32)
    (buffer : Buffer) :
    Confined (requestPart hba owner i) (ahciWriteSectors hba i lba count buffer) :=
  confined_ahciExecCmd h _ _ _ _

end

/-! ## Two ports -/

/-- The memory of the one port ends before that of the other begins. -/
def MemoryApart (p q : AhciPort) : Prop :=
  p.cmdTableBase.toNat + 4096 ≤ q.cmdListBase.toNat ∨
    q.cmdTableBase.toNat + 4096 ≤ p.cmdListBase.toNat

theorem MemoryApart.symm {p q : AhciPort} (h : MemoryApart p q) : MemoryApart q p := Or.symm h

section
variable {hba : Hba} {owner : UInt64 → Fin 32} {i j : Fin 32}

/-- No byte is in the memory of both. -/
theorem MemoryApart.not_touches {p q : AhciPort} (h : MemoryApart p q) (hp : Laid i p) {a : UInt64}
    {n : ℕ} (ha : InMemory p a n) : ¬Touches q a n := by
  rintro ⟨k, hk, hq⟩
  have hfits := hp.fits
  rw [MemoryApart] at h
  rw [InMemory] at ha hq
  rw [toNat_add_ofNat (by omega)] at hq
  omega

/-- The offset of a port's register from the controller's. -/
theorem toNat_portOffset (k : Fin 32) {off : UInt32} (hoff : off.toNat < 0x80) :
    (0x100 + ((UInt32.ofNat k * 0x80).toUInt64 + off.toUInt64) : UInt64).toNat =
      0x100 + k.val * 0x80 + off.toNat := by
  have hk := k.isLt
  have hbase : (UInt32.ofNat k * 0x80).toNat = k.val * 128 := by
    rw [UInt32.toNat_mul, UInt32.toNat_ofNat']
    change _ % _ * 128 % _ = _
    omega
  rw [UInt64.toNat_add, UInt64.toNat_add, UInt32.toNat_toUInt64, UInt32.toNat_toUInt64, hbase]
  change (256 + _) % _ = _
  omega

/-- Where a register of the port is. -/
theorem IsRegister.offset (hi : Laid i (hba.port i)) {a : UInt64} (ha : IsRegister hba i a) :
    ∃ off : UInt64, 0x100 + i.val * 0x80 ≤ off.toNat ∧ off.toNat < 0x100 + (i.val + 1) * 0x80 ∧
      a = hba.abar + off := by
  obtain ⟨off, hoff, rfl⟩ := ha
  refine ⟨_, ?_, ?_, by rw [portAddr, hi.number, UInt64.add_assoc, UInt64.add_assoc]⟩
  · rw [toNat_portOffset i hoff]
    omega
  · rw [toNat_portOffset i hoff]
    omega

/-- A register belongs to one port. -/
theorem IsRegister.unique (hi : Laid i (hba.port i)) (hj : Laid j (hba.port j)) {a : UInt64}
    (hai : IsRegister hba i a) (haj : IsRegister hba j a) : i = j := by
  obtain ⟨off, hlo, hhi, rfl⟩ := hai.offset hi
  obtain ⟨off', hlo', hhi', heq⟩ := haj.offset hj
  have hsame : off = off' := UInt64.add_right_inj _ |>.mp heq
  rw [← hsame] at hlo' hhi'
  exact Fin.ext (by omega)

/-- And not to the controller. -/
theorem IsRegister.not_isHbaRegister (hi : Laid i (hba.port i)) {a : UInt64}
    (ha : IsRegister hba i a) : ¬IsHbaRegister hba a := by
  obtain ⟨off, hlo, -, rfl⟩ := ha.offset hi
  rintro ⟨off', hoff', heq⟩
  have hsame : off = off'.toUInt64 := UInt64.add_right_inj _ |>.mp heq
  rw [hsame, UInt32.toNat_toUInt64] at hlo
  omega

/-- **What a request for one port exchanges is not noticed by another.** -/
theorem not_has_portPart (hi : Laid i (hba.port i)) (hj : Laid j (hba.port j)) (hij : i ≠ j)
    (hmem : MemoryApart (hba.port i) (hba.port j)) {e : Exchange}
    (he : (requestPart hba owner i).Has e) : ¬(portPart hba owner j).Has e := by
  intro he'
  rcases e with o | ⟨r, answer⟩
  · cases o with
    | mmio a v => exact he'.elim (hij ∘ he.unique hi hj) (he.not_isHbaRegister hi)
    | store a bs => exact hmem.not_touches hi he he'
    | _ => exact he'
  · cases r with
    | mmio a => exact hij (IsRegister.unique hi hj he he')
    | load32 a =>
      have hfirst : InMemory (hba.port j) (a + .ofNat 0) 1 := by
        rw [show a + .ofNat 0 = a from UInt64.add_zero a]
        exact ⟨he'.1, Nat.le_trans (Nat.add_le_add_left (by decide) _) he'.2⟩
      exact hmem.not_touches hi he ⟨0, by decide, hfirst⟩
    | dma a => exact hij (he.symm.trans he')
    | _ => exact he

end

/-! ## Detection -/

/-- There is a disk at the port. -/
def HasPort (g : Registry) (j : Fin 32) : Prop := ∃ d, g.Registered d ∧ d.ops = some (.ahci j)

theorem HasPort.of_add {g : Registry} {j k : Fin 32} {words : ℕ → UInt16}
    (h : HasPort (g.add (ahciDisk j words)) k) : HasPort g k ∨ k = j := by
  obtain ⟨d, hd, hops⟩ := h
  rcases hd.of_add with hold | rfl
  · exact .inl ⟨d, hold, hops⟩
  · exact .inr (DiskOps.ahci.inj (Option.some.inj hops)).symm

/-- What holds when detection reaches port `i`: the ports with a disk have memory, each its own,
and the pointer is behind all of it. -/
structure PortsLaid (i : ℕ) (s : AhciState) (g : Registry) : Prop where
  ready : PortsReady i s g
  laid : ∀ j, HasPort g j → Laid j (s.hba.port j)
  below : ∀ j, HasPort g j → (s.hba.port j).cmdTableBase.toNat + 4096 ≤ s.memAllocPtr.toNat
  apart : ∀ j k, HasPort g j → HasPort g k → j ≠ k → MemoryApart (s.hba.port j) (s.hba.port k)

section
variable {s : AhciState} {g : Registry} {i j : Fin 32}

/-- A port with a disk was there before. -/
theorem PortsLaid.ne (h : PortsLaid i s g) (hj : HasPort g j) : i ≠ j := by
  obtain ⟨d, hd, hops⟩ := hj
  rintro rfl
  exact Nat.lt_irrefl _ (h.ready.ready d i hd hops).1

/-- Nothing changes for the ports before this one. -/
theorem PortsLaid.keep (h : PortsLaid i s g) {s' : AhciState} (hready : PortsReady (i + 1) s' g)
    (hports : ∀ j, i ≠ j → s'.hba.port j = s.hba.port j)
    (hptr : s.memAllocPtr.toNat ≤ s'.memAllocPtr.toNat) : PortsLaid (i + 1) s' g where
  ready := hready
  laid j hj := hports j (h.ne hj) ▸ h.laid j hj
  below j hj := hports j (h.ne hj) ▸ (h.below j hj).trans hptr
  apart j k hj hk hjk := by
    rw [hports j (h.ne hj), hports k (h.ne hk)]
    exact h.apart j k hj hk hjk

/-- **One port.** -/
theorem portsLaid_ahciDetectPort {dev : Device machine} {found : ℤ} (h : PortsLaid i s g)
    (identify : UInt64) :
    Returns dev (fun r ↦ PortsLaid (i + 1) r.1 r.2.1)
      (ahciDetectPort identify i (s, g, found)) := by
  have hslot := h.ready.slots i
  obtain ⟨hready, -⟩ := h.ready.allocated
  have hroom : s.memAllocPtr.toNat + 10752 < 2 ^ 64 := by
    have hle := h.ready.ptr_le
    have hi := i.isLt
    omega
  obtain ⟨hlist, htable, hend, hmore⟩ := allocPort_spec (s.numberedPort i) hroom
  have hnew : (s.allocated i).hba.port i = (allocPort (s.numberedPort i) s.memAllocPtr).1 := by
    rw [AhciState.allocated_port, if_pos rfl]
  have hold : ∀ j, i ≠ j → (s.allocated i).hba.port j = s.hba.port j := fun j hj ↦ by
    rw [AhciState.allocated_port, if_neg hj]
  have hptr : (s.allocated i).memAllocPtr = (allocPort (s.numberedPort i) s.memAllocPtr).2 := rfl
  have hnumber : ∀ j, i ≠ j → (s.setPort i (s.numberedPort i)).hba.port j = s.hba.port j :=
    fun j hj ↦ by rw [AhciState.setPort_port, if_neg hj]
  have halloc := h.keep hready hold (by rw [hptr]; omega)
  refine returns_ahciDetectPort (h.keep h.ready.skip (fun _ _ ↦ rfl) le_rfl)
    (h.keep (h.ready.setPort (s.numberedPort i) hslot).skip hnumber le_rfl) halloc
    (fun words ↦ ?_) identify
  -- the new disk is at the port that has just been given memory, behind everything else
  have hbehind : ∀ k, HasPort g k →
      MemoryApart ((s.allocated i).hba.port i) ((s.allocated i).hba.port k) := fun k hk ↦ by
    have hbelow := h.below k hk
    rw [hnew, hold k (h.ne hk)]
    exact .inr (by omega)
  refine ⟨h.ready.register words, fun k hk ↦ ?_, fun k hk ↦ ?_, fun k l hk hl hkl ↦ ?_⟩
  · rcases hk.of_add with hkold | rfl
    · exact halloc.laid k hkold
    · rw [hnew]
      exact ⟨rfl, cmdHeader_allocPort _ hslot _, htable, by omega⟩
  · rcases hk.of_add with hkold | rfl
    · exact halloc.below k hkold
    · rw [hnew, hptr, hend]
  · rcases hk.of_add with hkold | rfl
    · rcases hl.of_add with hlold | rfl
      · exact halloc.apart k l hkold hlold hkl
      · exact (hbehind k hkold).symm
    · rcases hl.of_add with hlold | rfl
      · exact hbehind l hlold
      · exact absurd rfl hkl

end

/-- **After boot every port with a disk has memory of its own.** -/
theorem portsLaid_findDisks {dev : Device machine} (identify : UInt64) :
    Returns dev (fun k ↦ PortsLaid 32 k.ahci k.registry) (findDisks identify) := by
  refine returns_findDisks (fun i hba g hports hg ↦ ?_) fun j s g found h ↦
    portsLaid_ahciDetectPort h identify
  have hnone : ∀ j, ¬HasPort g j := by
    rintro j ⟨d, hd, hops⟩
    exact hg d hd j hops
  exact ⟨portsReady_initial hg hports, fun j hj ↦ absurd hj (hnone j),
    fun j hj ↦ absurd hj (hnone j), fun j _ hj ↦ absurd hj (hnone j)⟩

end Aetherion.Ahci
