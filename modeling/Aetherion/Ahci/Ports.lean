import Aetherion.Ahci.Allocator
import Aetherion.Ahci.Fetch
import Aetherion.Storage.Requests

/-!
# The ports detection sets up

Detection gives every port with a drive a command list, a received-FIS area and a command table, cut
one after the other from memory above `0x1000000`.  So the header of the slot and the table never
overlap, and the table is never at address `0`: with `fetch_iff`, no command of a disk behind an
AHCI controller is ever fetched as it was built (`never_fetched`).
-/

set_option autoImplicit false

namespace Aetherion.Ahci

open Driver Driver.Prog Storage

/-! ## The allocator -/

/-- The block begins before the next multiple but one, and the pointer moves to its end. -/
theorem ahciAllocAligned_spec (ptr size align : UInt64) {k : ℕ} (halign : align.toNat = 2 ^ k)
    (hroom : ptr.toNat + 2 ^ k + size.toNat ≤ 2 ^ 64) :
    ptr.toNat ≤ (ahciAllocAligned ptr size align).1.toNat ∧
      (ahciAllocAligned ptr size align).1.toNat < ptr.toNat + 2 ^ k ∧
      (ahciAllocAligned ptr size align).2.toNat =
        (ahciAllocAligned ptr size align).1.toNat + size.toNat := by
  have hpos : 0 < align.toNat := by rw [halign]; exact Nat.two_pow_pos k
  have hle := Bump.le_alignUp hpos ptr.toNat
  have hlt := Bump.alignUp_lt hpos ptr.toNat
  rw [halign] at hlt
  have hnext : Bump.next ptr.toNat (AllocCall.request ⟨size, align, k, halign⟩) < 2 ^ 64 := by
    change Bump.alignUp ptr.toNat align.toNat + size.toNat < _
    rw [halign] at hle ⊢
    omega
  obtain ⟨haddr, hptr⟩ := ahciAllocAligned_next hnext
  change _ = Bump.alignUp ptr.toNat align.toNat at haddr
  change _ = Bump.alignUp ptr.toNat align.toNat + size.toNat at hptr
  rw [haddr, hptr, halign]
  rw [halign] at hle
  exact ⟨hle, hlt, rfl⟩

/-- A port with a table of its own. -/
structure Ready (port : AhciPort) : Prop where
  placed : WellPlaced port
  table_ne_zero : port.cmdTableBase ≠ 0

/-- **What a port is given**: the command list, and behind it the table, up to where the pointer is
moved, 10752 bytes on at most. -/
theorem allocPort_spec (port : AhciPort) {ptr : UInt64} (hhigh : ptr.toNat + 10752 < 2 ^ 64) :
    ptr.toNat ≤ (allocPort port ptr).1.cmdListBase.toNat ∧
      (allocPort port ptr).1.cmdListBase.toNat + 1024 ≤ (allocPort port ptr).1.cmdTableBase.toNat ∧
      (allocPort port ptr).1.cmdTableBase.toNat + 4096 = (allocPort port ptr).2.toNat ∧
      (allocPort port ptr).2.toNat ≤ ptr.toNat + 10752 := by
  obtain ⟨hlist, hlist', hlistEnd⟩ := ahciAllocAligned_spec ptr 1024 1024 (k := 10) rfl
    (by change _ + _ + 1024 ≤ _; omega)
  change _ = _ + 1024 at hlistEnd
  obtain ⟨hfis, hfis', hfisEnd⟩ := ahciAllocAligned_spec (ahciAllocAligned ptr 1024 1024).2 256 256
    (k := 8) rfl (by change _ + _ + 256 ≤ _; omega)
  change _ = _ + 256 at hfisEnd
  obtain ⟨htable, htable', htableEnd⟩ := ahciAllocAligned_spec
    (ahciAllocAligned (ahciAllocAligned ptr 1024 1024).2 256 256).2 4096 4096 (k := 12) rfl
    (by change _ + _ + 4096 ≤ _; omega)
  change _ = _ + 4096 at htableEnd
  simp only [allocPort]
  omega

/-- Slot 0 is the first header of the list. -/
theorem cmdHeader_allocPort (port : AhciPort) (hslot : port.cmdSlot = 0) (ptr : UInt64) :
    cmdHeader (allocPort port ptr).1 = (allocPort port ptr).1.cmdListBase := by
  change _ + port.cmdSlot.toUInt64 * 32 = _
  rw [hslot]
  exact UInt64.add_zero _

/-- **A port that is given memory is ready**, and moves the pointer on by 10752 bytes at most. -/
theorem allocPort_ready (port : AhciPort) (hslot : port.cmdSlot = 0) {ptr : UInt64}
    (hlow : 0x1000000 ≤ ptr.toNat) (hhigh : ptr.toNat + 10752 < 2 ^ 32) :
    Ready (allocPort port ptr).1 ∧ ptr.toNat ≤ (allocPort port ptr).2.toNat ∧
      (allocPort port ptr).2.toNat ≤ ptr.toNat + 10752 := by
  obtain ⟨hlist, htable, hend, hle⟩ :=
    allocPort_spec port (show ptr.toNat + 10752 < 2 ^ 64 by omega)
  refine ⟨⟨⟨rfl, ?_⟩, ?_⟩, by omega, hle⟩
  · rw [cmdHeader_allocPort port hslot]
    exact Mem.apart_of_le (by omega) (by omega)
  · intro hzero
    have hnat : (allocPort port ptr).1.cmdTableBase.toNat = 0 := congrArg UInt64.toNat hzero
    omega

/-! ## Detection -/

/-- The state in which port `j` has memory of its own. -/
def AhciState.allocated (s : AhciState) (j : Fin 32) : AhciState :=
  let alloc := allocPort (s.numberedPort j) s.memAllocPtr
  { (s.setPort j (s.numberedPort j)).setPort j alloc.1 with memAllocPtr := alloc.2 }

theorem AhciState.allocated_port (s : AhciState) (j k : Fin 32) :
    (s.allocated j).hba.port k =
      if j = k then (allocPort (s.numberedPort j) s.memAllocPtr).1 else s.hba.port k := by
  have hset := (s.setPort j (s.numberedPort j)).setPort_port j k
    (allocPort (s.numberedPort j) s.memAllocPtr).1
  rw [s.setPort_port] at hset
  refine hset.trans ?_
  split
  · rfl
  · rfl

section
variable {dev : Device machine} {s : AhciState} {g : Registry}

/-- **One port**: it is passed over, or numbered, or given memory, and then there may be a disk. -/
theorem returns_ahciDetectPort {Q : AhciState → Registry → Prop} {j : Fin 32} {found : ℤ}
    (hskip : Q s g) (hnumber : Q (s.setPort j (s.numberedPort j)) g) (halloc : Q (s.allocated j) g)
    (hregister : ∀ words, Q (s.allocated j) (g.add (ahciDisk j words))) (identify : UInt64) :
    Returns dev (fun r ↦ Q r.1 r.2.1) (ahciDetectPort identify j (s, g, found)) := by
  refine .ite (fun _ ↦ returns_pure hskip) fun _ ↦ returns_then fun sig ↦
    .ite (fun _ ↦ returns_then fun _ ↦ returns_pure hnumber) fun _ ↦ ?_
  refine (returns_ahciProbe _ j identify).bind fun o ho ↦ ?_
  cases o with
  | none => exact returns_pure halloc
  | some d =>
    obtain ⟨words, rfl⟩ := ho d rfl
    refine (returns_diskRegister _ _).bind fun r hr ↦ returns_pure ?_
    change Q (s.allocated j) r.2
    rw [hr]
    exact hregister words

variable {I : ℕ → AhciState → Registry → Prop} {identify : UInt64}

/-- **All ports**: what every port keeps. -/
theorem returns_ahciDetectPorts
    (hstep : ∀ (j : Fin 32) s g found, I j s g →
      Returns dev (fun r ↦ I (j + 1) r.1 r.2.1) (ahciDetectPort identify j (s, g, found)))
    (h : I 0 s g) : Returns dev (fun r ↦ I 32 r.2.1 r.2.2) (ahciDetectPorts s g identify) := by
  refine (returns_forEach (fun i (s : AhciState × Registry × ℤ) ↦ I i s.1 s.2.1)
    (fun i s _ hi hs ↦ ?_) h).bind fun r hr ↦ returns_pure hr
  have hval : (Fin.ofNat 32 i).val = i := Nat.mod_eq_of_lt (by omega)
  have hport := hstep (Fin.ofNat 32 i) s.1 s.2.1 s.2.2
  rw [hval] at hport
  exact hport hs

/-- **After boot**: what holds of a table of ATA disks, and is kept by every port. -/
theorem returns_findDisks
    (hinitial : ∀ i (hba : Hba) g, hba.ports = AhciState.initial.hba.ports →
      (g.All fun d ↦ ∀ j, d.ops ≠ some (.ahci j)) → I i { AhciState.initial with hba := hba } g)
    (hstep : ∀ (j : Fin 32) s g found, I j s g →
      Returns dev (fun r ↦ I (j + 1) r.1 r.2.1) (ahciDetectPort identify j (s, g, found))) :
    Returns dev (fun k ↦ I 32 k.ahci k.registry) (findDisks identify) := by
  refine Returns.bind (Q := fun g ↦ g.All fun d ↦ ∀ j, d.ops ≠ some (.ahci j)) ?_ fun g hg ↦ ?_
  · exact returns_then fun _ ↦ returns_then fun _ ↦ returns_then fun _ ↦
      returns_pure (Registry.all_empty _)
  · have hata : ∀ ch drive words j, (Ata.ataDisk ch drive words).ops ≠ some (.ahci j) := by
      intro ch drive words j h
      cases h
    refine (hg.ataInit hata).bind fun ata hata ↦ ?_
    exact (returns_ahciInit (Q := I 32) (hinitial 32 _ _ rfl hata) fun hba hports ↦
      returns_ahciDetectPorts hstep (hinitial 0 hba _ hports hata)).bind fun ahci hahci ↦
        returns_pure hahci

end

/-! ## Ready ports -/

/-- What holds when detection reaches port `i`. -/
structure PortsReady (i : ℕ) (s : AhciState) (g : Registry) : Prop where
  ptr_ge : 0x1000000 ≤ s.memAllocPtr.toNat
  ptr_le : s.memAllocPtr.toNat ≤ 0x1000000 + 10752 * i
  slots : ∀ j : Fin 32, (s.hba.port j).cmdSlot = 0
  ready : ∀ d j, g.Registered d → d.ops = some (.ahci j) → j.val < i ∧ Ready (s.hba.port j)

variable {i : ℕ} {s : AhciState} {g : Registry}

/-- A port that detection passes over. -/
theorem PortsReady.skip (h : PortsReady i s g) : PortsReady (i + 1) s g where
  ptr_ge := h.ptr_ge
  ptr_le := by have := h.ptr_le; omega
  slots := h.slots
  ready d j hd hops := ⟨by have := (h.ready d j hd hops).1; omega, (h.ready d j hd hops).2⟩

/-- Giving the next port another number, or memory, leaves the ports before it alone. -/
theorem PortsReady.setPort {j : Fin 32} (h : PortsReady j.val s g) (port : AhciPort)
    (hslot : port.cmdSlot = 0) : PortsReady j.val (s.setPort j port) g where
  ptr_ge := h.ptr_ge
  ptr_le := h.ptr_le
  slots k := by
    rw [AhciState.setPort_port]
    split
    · exact hslot
    · exact h.slots k
  ready d k hd hops := by
    obtain ⟨hk, hready⟩ := h.ready d k hd hops
    refine ⟨hk, ?_⟩
    have hne : j ≠ k := by rintro rfl; omega
    rwa [AhciState.setPort_port, if_neg hne]

/-- Giving the next port memory of its own, too. -/
theorem PortsReady.allocated {j : Fin 32} (h : PortsReady j.val s g) :
    PortsReady (j.val + 1) (s.allocated j) g ∧ Ready ((s.allocated j).hba.port j) := by
  have hslot := h.slots j
  have hroom : s.memAllocPtr.toNat + 10752 < 2 ^ 32 := by
    have hle := h.ptr_le
    omega
  obtain ⟨hready, hmono, hbound⟩ :=
    allocPort_ready (s.numberedPort j) hslot h.ptr_ge hroom
  have hset := (h.setPort (s.numberedPort j) hslot).setPort
    (allocPort (s.numberedPort j) s.memAllocPtr).1 hslot
  refine ⟨⟨Nat.le_trans h.ptr_ge hmono, ?_, hset.slots, hset.skip.ready⟩, ?_⟩
  · exact Nat.le_trans hbound (by have := h.ptr_le; omega)
  · rw [AhciState.allocated_port, if_pos rfl]
    exact hready

/-- There may be a disk at the port then. -/
theorem PortsReady.register {j : Fin 32} (h : PortsReady j.val s g) (words : ℕ → UInt16) :
    PortsReady (j.val + 1) (s.allocated j) (g.add (ahciDisk j words)) := by
  obtain ⟨halloc, hready⟩ := h.allocated
  refine ⟨halloc.ptr_ge, halloc.ptr_le, halloc.slots, fun e k he hops ↦ ?_⟩
  rcases he.of_add with hold | rfl
  · exact halloc.ready e k hold hops
  · obtain rfl : j = k := DiskOps.ahci.inj (Option.some.inj hops)
    exact ⟨Nat.lt_succ_self _, hready⟩

/-- **One port.** -/
theorem portsReady_ahciDetectPort {dev : Device machine} {j : Fin 32} {found : ℤ}
    (h : PortsReady j.val s g) (identify : UInt64) :
    Returns dev (fun r ↦ PortsReady (j.val + 1) r.1 r.2.1)
      (ahciDetectPort identify j (s, g, found)) :=
  returns_ahciDetectPort h.skip (h.setPort (s.numberedPort j) (h.slots j)).skip h.allocated.1
    h.register identify

/-- A table of ATA disks, before the AHCI driver has run. -/
theorem portsReady_initial {i : ℕ} (hg : g.All fun d ↦ ∀ j, d.ops ≠ some (.ahci j)) {hba : Hba}
    (hports : hba.ports = AhciState.initial.hba.ports) :
    PortsReady i { AhciState.initial with hba := hba } g where
  ptr_ge := Nat.le_refl 0x1000000
  ptr_le := Nat.le_add_right 0x1000000 _
  slots j := by
    simp only [Hba.port, hports, AhciState.initial, Fin.getElem_fin, Vector.getElem_replicate]
  ready d j hd hops := absurd hops (hg d hd j)

/-- After boot every port with a disk is ready. -/
theorem portsReady_findDisks {dev : Device machine} (identify : UInt64) :
    Returns dev (fun k ↦ PortsReady 32 k.ahci k.registry) (findDisks identify) :=
  returns_findDisks (fun _ _ _ hports hg ↦ portsReady_initial hg hports) fun _ _ _ _ h ↦
    portsReady_ahciDetectPort h identify

/-- A port that is ready has its table where no header leads to. -/
theorem Ready.not_fetched {hba : Hba} {port : AhciPort} (hport : Ready port) (fis : Fis)
    (buffer : UInt64) (count : UInt32) (isWrite : Bool) (dev : Device machine) (h : Trace machine)
    (m : Mem) :
    ¬CmdFetched hba port fis buffer count isWrite dev h m := by
  obtain ⟨old, hrep⟩ := reports_ahciExecCmd hba port fis buffer count isWrite dev h m
  rw [CmdFetched, hrep, List.forall_mem_singleton, fetchesBuilt_iff hport.placed]
  exact fun hfetch ↦ hport.table_ne_zero hfetch.1

/-- **No command of an AHCI disk is fetched as it was built**, whatever the hardware answered at
boot and answers now. -/
theorem never_fetched (boot : Device machine) (hboot : Trace machine) (identify : UInt64)
    {disk : Disk} {j : Fin 32} (hops : disk.ops = some (.ahci j))
    (hdisk : ((findDisks identify).value boot hboot).registry.Registered disk) (fis : Fis)
    (buffer : UInt64) (count : UInt32) (isWrite : Bool) (dev : Device machine) (h : Trace machine)
    (m : Mem) :
    let hba := ((findDisks identify).value boot hboot).ahci.hba
    ¬CmdFetched hba (hba.port j) fis buffer count isWrite dev h m :=
  ((portsReady_findDisks identify hboot).ready disk j hdisk hops).2.not_fetched fis buffer count
    isWrite dev h m

end Aetherion.Ahci
