import Aetherion.Ata.TaskFile
import Aetherion.Storage.Requests

/-!
# Requests beyond the end of a disk

A disk says how many sectors it has, and the ATA driver even keeps the number of the last one, but
no function between `disk_read` or `disk_write` and the hardware looks at either.  Every request
with at least one sector is sent, and `out_of_range_iff` says so: a request is refused where it
should be only in the sense that there is nothing to refuse.
-/

set_option autoImplicit false

namespace Aetherion.Storage

open Driver Driver.Prog Ata Ahci

/-- The exchange starts a transfer on the disk: a read or write command in the command register of
its channel, or a command issued on its port. -/
def StartsTransfer (hba : Hba) (disk : Disk) (e : Exchange) : Prop :=
  match disk.ops, e with
  | some (.ata dev), .out (.outb p v) => p = dev.basePort + 7 ∧ isTransfer v = true
  | some (.ahci i), .out (.mmio a _) => a = portAddr hba (hba.port i) 0x38
  | _, _ => False

/-- The request ends inside the disk. -/
def InRange (disk : Disk) (lba : UInt64) (count : UInt32) : Prop :=
  lba.toNat + count.toNat ≤ disk.sectors.toNat

/-- If the request does not end inside the disk, the run returns an error and starts nothing. -/
def RefusesOutOfRange (hba : Hba) (disk : Disk) (lba : UInt64) (count : UInt32) (result : ℤ)
    (t : Trace machine) : Prop :=
  ¬InRange disk lba count → result ≠ 0 ∧ ∀ e ∈ t, ¬StartsTransfer hba disk e

/-- A command the drives of a channel report is a write to its command register. -/
theorem startsTransfer_of_mem_reports {hba : Hba} {disk : Disk} {d : AtaDevice}
    (hops : disk.ops = some (.ata d)) {t : Trace machine} {s : TaskFile} {c : Command}
    (hc : c ∈ (transfers d.basePort).reports s t) : ∃ e ∈ t, StartsTransfer hba disk e := by
  obtain ⟨e, he, s', hstep⟩ := (transfers d.basePort).exists_of_mem_reports hc
  obtain ⟨v, rfl, hv⟩ := eq_outb_of_mem_step hstep
  refine ⟨_, he, ?_⟩
  unfold StartsTransfer
  rw [hops]
  exact ⟨rfl, hv⟩

/-- A request whose first sector is sent has started a transfer. -/
theorem startsTransfer_of_sectors {hba : Hba} {disk : Disk} {d : AtaDevice}
    (hops : disk.ops = some (.ata d)) {t : Trace machine} {code : UInt8} {lba : UInt64}
    {lba48 : Bool} {k : ℕ} (hk : 0 < k)
    (hrep : (transfers d.basePort).reports default t =
      (List.range k).map (sectorCommand code lba lba48)) :
    ∃ e ∈ t, StartsTransfer hba disk e := by
  have hfirst : sectorCommand code lba lba48 0 ∈ (transfers d.basePort).reports default t := by
    rw [hrep]
    exact List.mem_map_of_mem (List.mem_range.mpr hk)
  exact startsTransfer_of_mem_reports hops hfirst

/-- Every AHCI command is issued. -/
theorem startsTransfer_ahciExecCmd (hba : Hba) {disk : Disk} {i : Fin 32}
    (hops : disk.ops = some (.ahci i)) (fis : Fis) (buffer : UInt64) (count : UInt32)
    (isWrite : Bool) (dev : Device machine) (h : Trace machine) :
    ∃ e ∈ (ahciExecCmd hba (hba.port i) fis buffer count isWrite).trace dev h,
      StartsTransfer hba disk e := by
  refine ⟨.out (.mmio (portAddr hba (hba.port i) 0x38) (slotBit (hba.port i))), ?_, ?_⟩
  · rw [ahciExecCmd, trace_bind, trace_bind, portWrite, mmioWrite, trace_emit]
    simp
  · unfold StartsTransfer
    rw [hops]

variable {hba : Hba} {disk : Disk} {ops : DiskOps} (dev : Device machine) (h : Trace machine)
  (lba : UInt64) (count : UInt32) (buffer : Buffer)

/-- **No read is refused**: it returns `0`, or it starts a transfer. -/
theorem diskRead_unguarded (hops : disk.ops = some ops) :
    ((diskRead hba (some disk) lba count buffer).value dev h).1 = 0 ∨
      ∃ e ∈ (diskRead hba (some disk) lba count buffer).trace dev h, StartsTransfer hba disk e := by
  cases ops with
  | ata d =>
    obtain ⟨k, -, hpos, hrep, -⟩ := reports_ataPioRead d.basePort dev h default lba count
      buffer.words d.isLba48
    rw [diskRead, Option.bind_some, hops, trace_bind, value_bind]
    simp only [trace_pure, List.append_nil, value_pure]
    rcases Nat.eq_zero_or_pos count.toNat with hzero | hcount
    · refine Or.inl ?_
      rw [ataDiskRead, ataPioRead, hzero]
      rfl
    · exact Or.inr (startsTransfer_of_sectors hops (hpos hcount) hrep)
  | ahci i =>
    obtain ⟨e, he, hstart⟩ := startsTransfer_ahciExecCmd hba hops (readFis lba count)
      buffer.addr (count * 512) false dev h
    refine Or.inr ⟨e, ?_, hstart⟩
    rw [diskRead, Option.bind_some, hops]
    exact List.mem_append_left _ he

/-- **No write is refused** either. -/
theorem diskWrite_unguarded (hops : disk.ops = some ops) :
    (diskWrite hba (some disk) lba count buffer).value dev h = 0 ∨
      ∃ e ∈ (diskWrite hba (some disk) lba count buffer).trace dev h,
        StartsTransfer hba disk e := by
  cases ops with
  | ata d =>
    obtain ⟨k, -, hpos, hrep, -⟩ := reports_ataPioWrite d.basePort dev h default lba count
      buffer.words d.isLba48
    rw [diskWrite, Option.bind_some, hops]
    simp only
    rcases Nat.eq_zero_or_pos count.toNat with hzero | hcount
    · refine Or.inl ?_
      rw [ataDiskWrite, ataPioWrite, hzero]
      rfl
    · exact Or.inr (startsTransfer_of_sectors hops (hpos hcount) hrep)
  | ahci i =>
    obtain ⟨e, he, hstart⟩ := startsTransfer_ahciExecCmd hba hops (writeFis lba count)
      buffer.addr (count * 512) true dev h
    refine Or.inr ⟨e, ?_, hstart⟩
    rw [diskWrite, Option.bind_some, hops]
    exact he

/-- A run that returns `0` or starts a transfer refuses nothing. -/
theorem refusesOutOfRange_iff {result : ℤ} {t : Trace machine}
    (hrun : result = 0 ∨ ∃ e ∈ t, StartsTransfer hba disk e) :
    RefusesOutOfRange hba disk lba count result t ↔ InRange disk lba count := by
  refine ⟨fun hrefuse ↦ by_contra fun hout ↦ ?_, fun hin hout ↦ absurd hin hout⟩
  obtain ⟨hresult, hquiet⟩ := hrefuse hout
  rcases hrun with hzero | ⟨e, he, hstart⟩
  · exact hresult hzero
  · exact hquiet e he hstart

/-- **Requests beyond the end of a disk are not refused.**  Whatever the hardware answered at boot
and answers now, for every disk in the table and every request to it, the bound is kept exactly
when the request is inside the disk anyway. -/
theorem out_of_range_iff (boot : Device machine) (hboot : Trace machine) (identify : UInt64)
    (disk : Disk)
    (hdisk : ((findDisks identify).value boot hboot).registry.Registered disk)
    (dev : Device machine) (h : Trace machine) (lba : UInt64) (count : UInt32) (buffer : Buffer) :
    let hba := ((findDisks identify).value boot hboot).ahci.hba
    let read := diskRead hba (some disk) lba count buffer
    let write := diskWrite hba (some disk) lba count buffer
    (RefusesOutOfRange hba disk lba count (read.value dev h).1 (read.trace dev h) ↔
      InRange disk lba count) ∧
    (RefusesOutOfRange hba disk lba count (write.value dev h) (write.trace dev h) ↔
      InRange disk lba count) := by
  obtain ⟨ops, hops⟩ := (allDetected_findDisks identify hboot disk hdisk).ops
  exact ⟨refusesOutOfRange_iff lba count (diskRead_unguarded dev h lba count buffer hops),
    refusesOutOfRange_iff lba count (diskWrite_unguarded dev h lba count buffer hops)⟩

/-- The first disk of the idle machine has 65537 sectors. -/
theorem idleMachine_disk :
    ∃ disk, ((findDisks 0).value idleMachine []).registry.Registered disk ∧
      disk.sectors = 65537 := by
  have hget : (((findDisks 0).value idleMachine []).registry.get? 0).map Disk.sectors =
      some 65537 := by decide +kernel
  obtain ⟨disk, hdisk, hsectors⟩ := Option.map_eq_some_iff.mp hget
  exact ⟨disk, ⟨0, hdisk⟩, hsectors⟩

/-- Its last sector can be read. -/
theorem out_of_range_iff_idleMachine :
    ∃ disk, ((findDisks 0).value idleMachine []).registry.Registered disk ∧
      RefusesOutOfRange ((findDisks 0).value idleMachine []).ahci.hba disk 65536 1
        ((diskRead ((findDisks 0).value idleMachine []).ahci.hba (some disk) 65536 1
          ⟨0, fun _ ↦ 0⟩).value idleMachine []).1
        ((diskRead ((findDisks 0).value idleMachine []).ahci.hba (some disk) 65536 1
          ⟨0, fun _ ↦ 0⟩).trace idleMachine []) := by
  obtain ⟨disk, hdisk, hsectors⟩ := idleMachine_disk
  refine ⟨disk, hdisk, ?_⟩
  refine (out_of_range_iff idleMachine [] 0 disk hdisk idleMachine [] 65536 1
    ⟨0, fun _ ↦ 0⟩).1.mpr ?_
  rw [InRange, hsectors]
  decide

/-- A read of sector `2 ^ 32` from it is not refused. -/
theorem out_of_range_not_refused :
    ∃ disk, ((findDisks 0).value idleMachine []).registry.Registered disk ∧
      ¬InRange disk 0x100000000 1 ∧
      ¬RefusesOutOfRange ((findDisks 0).value idleMachine []).ahci.hba disk 0x100000000 1
        ((diskRead ((findDisks 0).value idleMachine []).ahci.hba (some disk) 0x100000000 1
          ⟨0, fun _ ↦ 0⟩).value idleMachine []).1
        ((diskRead ((findDisks 0).value idleMachine []).ahci.hba (some disk) 0x100000000 1
          ⟨0, fun _ ↦ 0⟩).trace idleMachine []) := by
  obtain ⟨disk, hdisk, hsectors⟩ := idleMachine_disk
  have hout : ¬InRange disk 0x100000000 1 := by
    rw [InRange, hsectors]
    decide
  obtain ⟨ops, hops⟩ := (allDetected_findDisks 0 [] disk hdisk).ops
  exact ⟨disk, hdisk, hout, fun hrefuse ↦ hout ((refusesOutOfRange_iff 0x100000000 1
    (diskRead_unguarded idleMachine [] 0x100000000 1 ⟨0, fun _ ↦ 0⟩ hops)).mp hrefuse)⟩

end Aetherion.Storage
