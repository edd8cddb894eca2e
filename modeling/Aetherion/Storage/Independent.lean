import Aetherion.Base.Independent
import Aetherion.Ata.Bus
import Aetherion.Ahci.Windows

/-!
# Disks do not get in each other's way

A disk is at a station: an IDE channel, which has two drives, or a port of the AHCI controller.  The
kernel serves all of them from one place, one request after the other, with the registers of the
channels in one port space, and the structures of the ports cut out of one memory.

Still, each station is alone (`transfers_independent`).  For the disks that detection has put into
the table, whatever the hardware answered at boot: the transfers for a station end as they would if
the kernel had no others to do and there were no other disk, and leave the station as it would be
then, whatever else is transferred in between and however the others behave.
-/

set_option autoImplicit false

namespace Aetherion.Storage

open Driver Driver.Prog Driver.Peripheral Ata Ahci

/-! ## Stations -/

/-- Where a disk is. -/
inductive Station where
  /-- On a channel. -/
  | channel (c : Channel)
  /-- At a port. -/
  | port (i : Fin 32)
  deriving DecidableEq, Repr

/-- The station of a disk that can be reached. -/
def Disk.station (d : Disk) : Option Station :=
  d.ops.map fun
    | .ata dev => .channel (.ofPort dev.basePort)
    | .ahci i => .port i

theorem station_ataDisk (ch drive : ℕ) (words : ℕ → UInt16) :
    (ataDisk ch drive words).station = some (.channel (channels ch)) := by
  have hport : ∀ c : Channel, Channel.ofPort c.base = c := fun c ↦ by cases c <;> rfl
  exact congrArg (some ∘ Station.channel) (hport (channels ch))

/-- The port is one of the channel's. -/
def IsPort (c : Channel) (p : UInt16) : Prop := p - c.base < 8 ∨ p = c.ctrl

instance (c : Channel) (p : UInt16) : Decidable (IsPort c p) := inferInstanceAs (Decidable (_ ∨ _))

/-- What a channel can notice: the ports from its base on, and its control port. -/
def channelPorts (c : Channel) : Part machine where
  reads
    | .inb p | .inw p | .inl p => IsPort c p
    | _ => False
  writes
    | .outb p _ | .outw p _ | .outl p _ => IsPort c p
    | _ => False

section
variable (hba : Hba) (owner : UInt64 → Fin 32)

/-- **What a station can notice.** -/
def stationPart : Station → Part machine
  | .channel c => channelPorts c
  | .port i => portPart hba owner i

/-- What a transfer for a station exchanges. -/
def transferPart : Station → Part machine
  | .channel c => channelPart c.base
  | .port i => requestPart hba owner i

end

/-- The ports of one channel are none of the other's. -/
theorem not_has_channelPorts {c c' : Channel} (hc : c ≠ c') {e : Exchange}
    (he : (channelPart c.base).Has e) : ¬(channelPorts c').Has e := by
  have hregisters : registers.all fun reg ↦ ¬IsPort c' (c.base + reg) := by
    cases c <;> cases c' <;> first | exact absurd rfl hc | rfl
  have hregister : ∀ reg ∈ registers, ¬IsPort c' (c.base + reg) := fun reg hreg ↦
    of_decide_eq_true (List.all_eq_true.mp hregisters reg hreg)
  have hdata : ¬IsPort c' c.base := by
    cases c <;> cases c' <;> first | exact absurd rfl hc | decide
  rcases e with o | ⟨i, r⟩
  · rcases he with ⟨reg, hreg, v, rfl⟩ | ⟨v, rfl⟩
    · exact hregister reg hreg
    · exact hdata
  · rcases he with rfl | rfl
    · exact hregister 7 (by decide)
    · exact hdata

/-- What a transfer reads, the station notices. -/
theorem reads_stationPart {hba : Hba} {owner : UInt64 → Fin 32} (st : Station) (i : In)
    (hi : (transferPart hba owner st).reads i) : (stationPart hba owner st).reads i := by
  cases st with
  | channel c =>
    rcases hi with rfl | rfl
    · cases c <;> exact .inl (by decide)
    · cases c <;> exact .inl (by decide)
  | port j => exact hi

/-! ## Transfers -/

/-- A call of `disk_read` or `disk_write`. -/
structure Transfer where
  /-- The disk. -/
  disk : Disk
  /-- The first sector. -/
  lba : UInt64
  /-- How many sectors. -/
  count : UInt32
  /-- What is written, or what is filled. -/
  buffer : Buffer
  /-- `disk_write`, not `disk_read`. -/
  isWrite : Bool

/-- The result, and the buffer afterwards. -/
def Transfer.exec (hba : Hba) (t : Transfer) : Kernel (ℤ × Buffer) :=
  if t.isWrite then do
    let r ← diskWrite hba (some t.disk) t.lba t.count t.buffer
    pure (r, t.buffer)
  else diskRead hba (some t.disk) t.lba t.count t.buffer

/-- Transfers, one after the other: the station of each, and what it ends with. -/
def runTransfers (hba : Hba) (ts : List Transfer) :
    Kernel (List (Option Station × ℤ × Buffer)) :=
  inTurn (ts.map fun t ↦ (t.disk.station, t.exec hba))

/-- A buffer that is read into from a port is one that its device fills. -/
def Transfer.OwnsBuffer (owner : UInt64 → Fin 32) (t : Transfer) : Prop :=
  t.isWrite = false → ∀ i, t.disk.station = some (.port i) → owner t.buffer.addr = i

section
variable {hba : Hba} {owner : UInt64 → Fin 32} {t : Transfer}

/-- **A transfer** keeps to its station. -/
theorem confined_exec (hdisk : Detected t.disk)
    (hlaid : ∀ i, t.disk.ops = some (.ahci i) → Laid i (hba.port i))
    (howns : t.OwnsBuffer owner) {st : Station} (hst : t.disk.station = some st) :
    Confined (transferPart hba owner st) (t.exec hba) := by
  obtain ⟨disk, lba, count, buffer, isWrite⟩ := t
  change Detected disk at hdisk
  change disk.station = some st at hst
  cases hdisk with
  | ata ch drive words =>
    obtain rfl : Station.channel (channels ch) = st :=
      Option.some.inj ((station_ataDisk ch drive words).symm.trans hst)
    refine .ite ?_ ?_
    · exact (confined_ataPioWrite _ _ _ _).bind fun _ ↦ confined_pure _
    · exact (confined_ataPioRead _ _ _ _).bind fun _ ↦ confined_pure _
  | ahci i words =>
    obtain rfl : Station.port i = st := Option.some.inj hst
    cases isWrite with
    | true => exact (confined_ahciWriteSectors (hlaid i rfl) _ _ _).bind fun _ ↦ confined_pure _
    | false => exact confined_ahciReadSectors (hlaid i rfl) _ _ (howns rfl i rfl)

end

/-! ## After detection -/

section
variable {hba : Hba} {owner : UInt64 → Fin 32}

/-- The station of a disk behind a port. -/
theorem ops_of_station {disk : Disk} {i : Fin 32} (hst : disk.station = some (.port i)) :
    disk.ops = some (.ahci i) := by
  obtain ⟨ops, hops, hport⟩ := Option.map_eq_some_iff.mp hst
  cases ops with
  | ata dev => cases hport
  | ahci j => exact hops.trans (congrArg (some ∘ DiskOps.ahci) (Station.port.inj hport))

/-- **What a transfer for one station exchanges, no other notices.** -/
theorem not_has_stationPart {s : AhciState} {g : Registry} (hports : PortsLaid 32 s g)
    {disk disk' : Disk} (hdisk : g.Registered disk) (hdisk' : g.Registered disk') {st st' : Station}
    (hst : disk.station = some st) (hst' : disk'.station = some st') (hne : st ≠ st')
    {e : Exchange} (he : (transferPart s.hba owner st).Has e) :
    ¬(stationPart s.hba owner st').Has e := by
  cases st with
  | channel c =>
    cases st' with
    | channel c' => exact not_has_channelPorts (fun hc ↦ hne (congrArg Station.channel hc)) he
    | port i =>
      rcases e with o | ⟨i, r⟩
      · rcases he with ⟨reg, -, v, rfl⟩ | ⟨v, rfl⟩ <;> exact id
      · rcases he with rfl | rfl <;> exact id
  | port i =>
    cases st' with
    | channel c =>
      rcases e with o | ⟨r, answer⟩
      · cases o <;> first | exact id | exact False.elim he
      · cases r <;> first | exact id | exact False.elim he
    | port j =>
      have hi : HasPort g i := ⟨disk, hdisk, ops_of_station hst⟩
      have hj : HasPort g j := ⟨disk', hdisk', ops_of_station hst'⟩
      have hij : i ≠ j := fun h ↦ hne (congrArg Station.port h)
      exact not_has_portPart (hports.laid i hi) (hports.laid j hj) hij
        (hports.apart i j hi hj hij) he

end

/-- **Every station is alone with its transfers.**  `per` is the station's device: it notices only
what is its own, and on the machine `dev` it answers for itself, whatever else there is. -/
theorem transfers_independent (boot : Device machine) (hboot : Trace machine) (identify : UInt64)
    {disk : Disk} (hdisk : ((findDisks identify).value boot hboot).registry.Registered disk)
    {st : Station} (hst : disk.station = some st) (ts : List Transfer)
    (hts : ∀ t ∈ ts, ((findDisks identify).value boot hboot).registry.Registered t.disk)
    (owner : UInt64 → Fin 32) (howns : ∀ t ∈ ts, t.OwnsBuffer owner) {σ : Type}
    (per : Peripheral machine σ)
    (hminds : per.Minds
      (stationPart ((findDisks identify).value boot hboot).ahci.hba owner st))
    (s₀ : σ) (dev : Device machine)
    (hdev : per.Attached s₀
      (stationPart ((findDisks identify).value boot hboot).ahci.hba owner st) dev)
    (h h' : Trace machine) (hstate : per.after s₀ h = per.after s₀ h') :
    let hba := ((findDisks identify).value boot hboot).ahci.hba
    let mine := ts.filter (·.disk.station = some st)
    ((runTransfers hba ts).value dev h).filter (·.1 = some st) =
        (runTransfers hba mine).value (per.device s₀) h' ∧
      per.after s₀ (h ++ (runTransfers hba ts).trace dev h) =
        per.after s₀ (h' ++ (runTransfers hba mine).trace (per.device s₀) h') := by
  intro hba mine
  let k := (findDisks identify).value boot hboot
  have hports : PortsLaid 32 k.ahci k.registry := portsLaid_findDisks identify hboot
  have hdetected : k.registry.All Detected := allDetected_findDisks identify hboot
  have hconfined {t : Transfer} (ht : t ∈ ts) {st' : Station} (hst' : t.disk.station = some st') :
      Confined (transferPart hba owner st') (t.exec hba) :=
    confined_exec (hdetected _ (hts t ht)) (fun i hops ↦ hports.laid i ⟨_, hts t ht, hops⟩)
      (howns t ht) hst'
  let rs := ts.map fun t ↦ (t.disk.station, t.exec hba)
  have hmine : ∀ r ∈ rs, r.1 = some st →
      Confined ⟨(stationPart hba owner st).reads, (transferPart hba owner st).writes⟩ r.2 := by
    rintro r hr hk
    obtain ⟨t, ht, rfl⟩ := List.mem_map.mp hr
    exact (hconfined ht hk).mono (reads_stationPart st) fun _ ho ↦ ho
  have hothers : ∀ r ∈ rs, r.1 ≠ some st →
      Emits (fun e ↦ ¬(stationPart hba owner st).Has e) r.2 := by
    rintro r hr hk
    obtain ⟨t, ht, rfl⟩ := List.mem_map.mp hr
    obtain ⟨st', hst'⟩ : ∃ st', t.disk.station = some st' := by
      obtain ⟨ops, hops⟩ := (hdetected _ (hts t ht)).ops
      exact ⟨_, congrArg (Option.map _) hops⟩
    have hne : st' ≠ st := fun heq ↦ hk (hst'.trans (congrArg some heq))
    exact (hconfined ht hst').emits.mono fun e he ↦
      not_has_stationPart hports (hts t ht) hdisk hst' hst hne he
  have halone := hdev.alone hminds (some st) hmine hothers hstate
  rw [List.filter_map] at halone
  exact halone

/-- Drives on the primary channel that count the words they hand over. -/
def countingDrives : Peripheral machine UInt16 where
  reply s
    | .inw p => if p = 0x1F0 then s else (0 : UInt16)
    | i => steadyMachine 0x58 0 0 [] i
  step s
    | .inp (.inw p) _ => if p = 0x1F0 then s + 1 else s
    | _ => s

theorem countingDrives_minds (hba : Hba) (owner : UInt64 → Fin 32) :
    countingDrives.Minds (stationPart hba owner (.channel .primary)) := by
  rintro s (o | ⟨i, r⟩) he
  · rfl
  · cases i with
    | inw p =>
      refine if_neg fun hp ↦ he ?_
      change IsPort .primary p
      rw [hp]
      exact .inl (by decide)
    | _ => rfl

/-- On such a machine: two sectors read from a disk on the primary channel, and one written to a
disk on the secondary channel in between. -/
theorem transfers_independent_counting :
    ∃ disk other,
      ((findDisks 0).value idleMachine []).registry.Registered disk ∧
      ((findDisks 0).value idleMachine []).registry.Registered other ∧
      let hba := ((findDisks 0).value idleMachine []).ahci.hba
      let ts : List Transfer := [⟨disk, 0, 1, ⟨0, fun _ ↦ 0⟩, false⟩,
        ⟨other, 7, 1, ⟨0, fun _ ↦ 9⟩, true⟩, ⟨disk, 5, 1, ⟨0, fun _ ↦ 0⟩, false⟩]
      let mine := ts.filter (·.disk.station = some (.channel .primary))
      ((runTransfers hba ts).value (countingDrives.device 0) []).filter
            (·.1 = some (.channel .primary)) =
          (runTransfers hba mine).value (countingDrives.device 0) [] ∧
        countingDrives.after 0 ([] ++ (runTransfers hba ts).trace (countingDrives.device 0) []) =
          countingDrives.after 0
            ([] ++ (runTransfers hba mine).trace (countingDrives.device 0) []) := by
  have hprimary : (((findDisks 0).value idleMachine []).registry.get? 0).bind Disk.station =
      some (.channel .primary) := by decide +kernel
  have hsecondary : (((findDisks 0).value idleMachine []).registry.get? 2).bind Disk.station =
      some (.channel .secondary) := by decide +kernel
  obtain ⟨disk, hget, hst⟩ := Option.bind_eq_some_iff.mp hprimary
  obtain ⟨other, hget', hst'⟩ := Option.bind_eq_some_iff.mp hsecondary
  refine ⟨disk, other, ⟨0, hget⟩, ⟨2, hget'⟩, ?_⟩
  let ts : List Transfer := [⟨disk, 0, 1, ⟨0, fun _ ↦ 0⟩, false⟩,
    ⟨other, 7, 1, ⟨0, fun _ ↦ 9⟩, true⟩, ⟨disk, 5, 1, ⟨0, fun _ ↦ 0⟩, false⟩]
  have htwo : ∀ t ∈ ts, t.disk = disk ∨ t.disk = other := by simp [ts]
  refine transfers_independent idleMachine [] 0 ⟨0, hget⟩ hst ts (fun t ht ↦ ?_) (fun _ ↦ 0)
    (fun t ht _ i hport ↦ ?_) countingDrives (countingDrives_minds _ _) 0 (countingDrives.device 0)
    (fun _ _ _ ↦ rfl) [] [] rfl
  · rcases htwo t ht with heq | heq
    · exact heq ▸ ⟨0, hget⟩
    · exact heq ▸ ⟨2, hget'⟩
  · -- no disk is behind a port here
    rcases htwo t ht with heq | heq
    · rw [heq, hst] at hport
      cases hport
    · rw [heq, hst'] at hport
      cases hport

end Aetherion.Storage
