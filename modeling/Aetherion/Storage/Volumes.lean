import Aetherion.Base.Store
import Aetherion.Ata.ReadAfterWrite
import Aetherion.Storage.Slaves

/-!
# The disks are a store

What the disk layer is for, seen from above: a store with a sector under each pair of a disk and a
sector number.  On a machine with working drives on both channels, any requests to the slaves' disks
that detection has registered, in any order and as many as there may be, are carried out as that
store would carry them out (`runs_requests`).  So a sector that is read holds what was last written
to this sector of this disk (`requests_read_last_write`), whatever became of all the others in
between.

The two numbers by which the driver and the drive call a sector need not be the same
(`Ata.Addressing`).  The store goes by the driver's.
-/

set_option autoImplicit false

namespace Aetherion.Storage

open Driver Driver.Prog Driver.Peripheral Ata Ahci

/-! ## The store -/

/-- The words of a sector. -/
abbrev Sector := Fin 256 → UInt16

/-- The sectors of the disks, under the numbers the driver has for them. -/
abbrev Volumes := Disk × ℕ → Sector

/-- A request to a disk. -/
structure Request where
  /-- The disk. -/
  disk : Disk
  /-- The first sector. -/
  lba : UInt64
  /-- How many sectors. -/
  count : UInt32
  /-- What is written, or what is filled. -/
  buffer : Buffer
  /-- `disk_write`, not `disk_read`. -/
  isWrite : Bool

/-- The words of the buffer for sector `k` of the request. -/
def Request.sector (r : Request) (k : ℕ) : Sector := fun j ↦ r.buffer.words (.ofNat (256 * k + j))

/-- What the request asks of the store. -/
def Request.op (r : Request) : Store.Op (Disk × ℕ) Sector :=
  if r.isWrite then
    .write ((List.range r.count.toNat).map fun k ↦ ((r.disk, r.lba.toNat + k), r.sector k))
  else .read ((List.range r.count.toNat).map fun k ↦ (r.disk, r.lba.toNat + k))

/-- The request succeeds, the sectors that answer it are in its buffer one after the other, and the
rest of the buffer is as it was. -/
structure Request.Delivers (r : Request) (answer : List Sector) (o : ℤ × Buffer) : Prop where
  result : o.1 = 0
  words : ∀ n < 2 ^ 32, o.2.words (.ofNat n) =
    answer[n / 256]?.elim (r.buffer.words (.ofNat n)) fun sector ↦ sector (.ofNat 256 n)

/-! ## The disks -/

/-- The request as a call of the disk layer. -/
def Request.exec (hba : Hba) (r : Request) : Kernel (ℤ × Buffer) :=
  if r.isWrite then do
    let result ← diskWrite hba (some r.disk) r.lba r.count r.buffer
    pure (result, r.buffer)
  else diskRead hba (some r.disk) r.lba r.count r.buffer

/-- Requests, one after the other. -/
def runRequests (hba : Hba) : List Request → Kernel (List (ℤ × Buffer))
  | [] => pure []
  | r :: rs => do
    let o ← r.exec hba
    let os ← runRequests hba rs
    pure (o :: os)

/-- How many sectors the driver can name on a disk. -/
def volumeSize (d : Disk) : ℕ :=
  match d.ops with
  | some (.ata dev) => if dev.isLba48 then 2 ^ 48 else 2 ^ 28
  | _ => 0

/-- The disk is that of a slave and in the table, the sectors of the request exist, and its buffer
is not too long for a 32-bit index. -/
structure Request.Fits (g : Registry) (r : Request) : Prop where
  registered : g.Registered r.disk
  slave : r.disk.IsSlave
  addressable : r.lba.toNat + r.count.toNat ≤ volumeSize r.disk
  indexed : r.count.toNat ≤ 2 ^ 24

/-- The sectors that the drives hold. -/
def volumesOf (s : Channel → Drives) : Volumes := fun p j ↦
  match p.1.ops with
  | some (.ata dev) =>
    (s (.ofPort dev.basePort)).cells (!dev.isMaster) (wireLba (.ofNat p.2) dev.isLba48) j
  | _ => 0

/-- The slaves among the drives of this table hold these sectors. -/
def Represents (g : Registry) (s : Channel → Drives) (v : Volumes) : Prop :=
  ∀ d, g.Registered d → d.IsSlave → ∀ a < volumeSize d, v (d, a) = volumesOf s (d, a)

variable {identify : Channel → ℕ → UInt16} {hba : Hba} {r : Request} {s₀ s : Channel → Drives}
  {v : Volumes} {g : Registry}

/-- The slaves' disks in the table are those of the two slaves. -/
def Registry.OnSlaves (g : Registry) (identify : Channel → ℕ → UInt16) : Prop :=
  ∀ d, g.Registered d → d.IsSlave → ∃ c, d = slaveDisk identify c

/-! ## The slaves' disks -/

section
variable {c c' : Channel} {a : ℕ}

theorem slaveDisk_inj : slaveDisk identify c = slaveDisk identify c' ↔ c = c' := by
  refine ⟨fun heq ↦ ?_, fun heq ↦ by rw [heq]⟩
  have hbase : (channels (channelNumber c)).base = (channels (channelNumber c')).base :=
    congrArg (fun d : Disk ↦ match d.ops with | some (.ata dev) => dev.basePort | _ => 0) heq
  revert hbase
  cases c <;> cases c' <;> decide

theorem volumesOf_slaveDisk (j : Fin 256) :
    volumesOf s (slaveDisk identify c, a) j =
      (s c).cells true (wireLba (.ofNat a) (lba48Supported (identify c))) j := by
  cases c <;> rfl

theorem volumeSize_slaveDisk_le : volumeSize (slaveDisk identify c) ≤ 2 ^ 48 := by
  show (if lba48Supported (identify c) then 2 ^ 48 else 2 ^ 28) ≤ 2 ^ 48
  split <;> decide

/-- The drive tells sectors apart that the driver tells apart. -/
theorem wireLba_ofNat_inj {b : ℕ} (ha : a < volumeSize (slaveDisk identify c))
    (hb : b < volumeSize (slaveDisk identify c)) :
    wireLba (.ofNat a) (lba48Supported (identify c)) =
      wireLba (.ofNat b) (lba48Supported (identify c)) ↔ a = b := by
  refine ⟨fun heq ↦ ?_, fun heq ↦ by rw [heq]⟩
  have hle : volumeSize (slaveDisk identify c) ≤ 2 ^ 48 := volumeSize_slaveDisk_le
  have hval {n : ℕ} (hn : n < volumeSize (slaveDisk identify c)) : (UInt64.ofNat n).toNat = n := by
    rw [UInt64.toNat_ofNat', Nat.mod_eq_of_lt (by omega)]
  have hinj := wireLba_injective (by rwa [hval ha]) (by rwa [hval hb]) heq
  rwa [hval ha, hval hb] at hinj

theorem Request.Fits.lt (h : r.Fits g) {k : ℕ} (hk : k < r.count.toNat) :
    r.lba.toNat + k < volumeSize r.disk :=
  Nat.lt_of_lt_of_le (Nat.add_lt_add_left hk _) h.addressable

/-- A sector number as the driver computes it. -/
theorem Request.Fits.number (h : r.Fits g) (hc : r.disk = slaveDisk identify c) {k : ℕ}
    (hk : k < r.count.toNat) : r.lba + (UInt32.ofNat k).toUInt64 = .ofNat (r.lba.toNat + k) := by
  have hsize : volumeSize r.disk ≤ 2 ^ 48 := hc ▸ volumeSize_slaveDisk_le
  have hlt := Nat.lt_of_lt_of_le (h.lt hk) hsize
  have haddr := h.addressable
  rw [hc] at haddr
  have haddr' : Addressable r.lba r.count (lba48Supported (identify c)) := haddr
  rw [← UInt64.toNat_inj, haddr'.toNat_add hk, UInt64.toNat_ofNat', Nat.mod_eq_of_lt (by omega)]

end

/-! ## One request -/

/-- What is not filled keeps what it has. -/
theorem readBuffer_of_le {cells : Cells} {lba : UInt64} {lba48 : Bool} (buf : UInt32 → UInt16)
    {m n : ℕ} (hm : m ≤ 2 ^ 24) (hn : 256 * m ≤ n) (hlt : n < 2 ^ 32) :
    readBuffer cells lba lba48 buf m (.ofNat n) = buf (.ofNat n) := by
  induction m with
  | zero => rfl
  | succ m ih =>
    rw [readBuffer, readWords_apply _ (by omega) _ le_rfl hlt, if_neg (by omega)]
    exact ih (by omega) (by omega)

section
variable {c : Channel}

/-- **What is read is what the store has.** -/
theorem Represents.delivers (hv : Represents g s v) (hfits : r.Fits g)
    (hc : r.disk = slaveDisk identify c) (hread : r.isWrite = false) (b : Buffer)
    (hb : b.words = readBuffer (s c).cells r.lba (lba48Supported (identify c)) r.buffer.words
      r.count.toNat) :
    r.Delivers (Store.answer v r.op) (0, b) := by
  refine ⟨rfl, fun n hn ↦ ?_⟩
  simp only [Request.op, hread, Bool.false_eq_true, if_false, Store.answer, List.map_map,
    List.getElem?_map, hb]
  by_cases hlt : n < 256 * r.count.toNat
  · have hk : n / 256 < r.count.toNat := by omega
    have hsector := hv r.disk hfits.registered hfits.slave _ (hfits.lt hk)
    rw [readBuffer_apply _ _ hfits.indexed hlt, hfits.number hc hk, List.getElem?_range hk,
      Option.map_some, Option.elim, Function.comp_apply, hsector, hc, volumesOf_slaveDisk,
      Fin.val_ofNat]
  · rw [readBuffer_of_le _ hfits.indexed (by omega) hn,
      List.getElem?_eq_none (by rw [List.length_range]; omega)]
    rfl

/-- **What is written is in the store**: by induction on the sectors of the request. -/
theorem Represents.written (hg : g.OnSlaves identify) (hv : Represents g s v) (hfits : r.Fits g)
    (hc : r.disk = slaveDisk identify c) {d : Drives} {n : ℕ} (hn : n ≤ r.count.toNat)
    (hd : d.cells = Ata.written (s c).cells r.lba (lba48Supported (identify c)) r.buffer.words n) :
    Represents g (Function.update s c d)
      (Store.put v ((List.range n).map fun k ↦ ((r.disk, r.lba.toNat + k), r.sector k))) := by
  induction n generalizing d with
  | zero =>
    intro e he hslave a ha
    obtain ⟨c', rfl⟩ := hg e he hslave
    rw [List.range_zero, List.map_nil]
    refine (hv _ he hslave a ha).trans (funext fun j ↦ ?_)
    rw [volumesOf_slaveDisk, volumesOf_slaveDisk]
    by_cases hc' : c' = c
    · rw [hc', Function.update_self, hd]
      rfl
    · rw [Function.update_of_ne hc']
  | succ n ih =>
    intro e he hslave a ha
    obtain ⟨c', rfl⟩ := hg e he hslave
    let cells := Ata.written (s c).cells r.lba (lba48Supported (identify c)) r.buffer.words n
    have hold := ih (d := { d with cells := cells }) (by omega) rfl _ he hslave a ha
    rw [List.range_succ, List.map_append, List.map_singleton, Store.put_concat,
      Function.update_apply, hc]
    rw [hc] at hold
    by_cases hc' : c' = c
    · subst hc'
      have hlast := hfits.lt (by omega : n < r.count.toNat)
      rw [hc] at hlast
      have hsame := wireLba_ofNat_inj ha hlast
      by_cases ha' : a = r.lba.toNat + n
      · rw [if_pos (by rw [ha'])]
        funext j
        rw [volumesOf_slaveDisk, Function.update_self, hd, Ata.written, writeWords_apply,
          hfits.number hc (by omega), if_pos ⟨rfl, hsame.mpr ha', j.isLt⟩, bufferWords, index_eq]
        rfl
      · rw [if_neg fun h ↦ ha' (Prod.mk.inj h).2, hold]
        funext j
        rw [volumesOf_slaveDisk, volumesOf_slaveDisk, Function.update_self, Function.update_self,
          hd, Ata.written, writeWords_apply, hfits.number hc (by omega),
          if_neg fun h ↦ ha' (hsame.mp h.2.1)]
    · rw [if_neg fun h ↦ hc' (slaveDisk_inj.mp (Prod.mk.inj h).1), hold]
      funext j
      rw [volumesOf_slaveDisk, volumesOf_slaveDisk, Function.update_of_ne hc',
        Function.update_of_ne hc']

end

/-- **One request** does what the store does. -/
theorem runs_exec (hg : g.OnSlaves identify) (hv : Represents g s v) (hfits : r.Fits g) :
    ∃ o s', channelBus.Runs s₀ (r.exec hba) s o s' ∧
      r.Delivers (Store.answer v r.op) o ∧ Represents g s' (Store.put v r.op.items) := by
  obtain ⟨c, hc⟩ := hg r.disk hfits.registered hfits.slave
  have hbase : (channels (channelNumber c)).base = c.base := by rw [channels_channelNumber]
  rw [Request.exec, hc]
  cases hkind : r.isWrite with
  | true =>
    have halone : (drives c.base).Runs (s₀ c) _ (s c) _ _ :=
      runs_ataPioWrite r.lba r.count r.buffer.words (lba48Supported (identify c))
    have hrun := runs_on_channel halone (confined_ataPioWrite r.lba r.count r.buffer.words _)
    rw [← hbase] at hrun
    refine ⟨_, _, hrun.bind (runs_pure _), ⟨rfl, fun n _ ↦ ?_⟩, ?_⟩
    · rw [Request.op, hkind]
      rfl
    · rw [Request.op, hkind]
      exact hv.written hg hfits hc le_rfl (cells_afterWrites ..)
  | false =>
    have halone : (drives c.base).Runs (s₀ c) _ (s c) _ _ :=
      runs_ataPioRead r.lba r.count r.buffer.words (lba48Supported (identify c))
    have hrun := runs_on_channel halone (confined_ataPioRead r.lba r.count r.buffer.words _)
    rw [← hbase] at hrun
    refine ⟨_, _, hrun.bind (runs_pure _), hv.delivers hfits hc hkind _ rfl, ?_⟩
    intro e he hslave a ha
    obtain ⟨c', rfl⟩ := hg e he hslave
    rw [Request.op, hkind]
    refine (hv _ he hslave a ha).trans (funext fun j ↦ ?_)
    rw [volumesOf_slaveDisk, volumesOf_slaveDisk]
    by_cases hc' : c' = c
    · rw [hc', Function.update_self, cells_afterReads]
    · rw [Function.update_of_ne hc']

/-! ## Any number of requests -/

/-- **The requests are carried out as the store carries them out.** -/
theorem runs_requests (hg : g.OnSlaves identify) {rs : List Request} (hfits : ∀ r ∈ rs, r.Fits g)
    (hv : Represents g s v) :
    ∃ os s', channelBus.Runs s₀ (runRequests hba rs) s os s' ∧
      List.Forall₂ (fun (r : Request × List Sector) o ↦ r.1.Delivers r.2 o)
        (rs.zip (Store.run v (rs.map Request.op)).1) os ∧
      Represents g s' (Store.run v (rs.map Request.op)).2 := by
  induction rs generalizing s v with
  | nil => exact ⟨[], s, runs_pure _, .nil, hv⟩
  | cons r rs ih =>
    obtain ⟨o, s', hrun, hdelivers, hv'⟩ :=
      runs_exec hg hv (hfits r List.mem_cons_self)
    obtain ⟨os, s'', hrest, hall, hv''⟩ :=
      ih (fun r' hr' ↦ hfits r' (List.mem_cons_of_mem _ hr')) hv'
    exact ⟨o :: os, s'', hrun.bind (hrest.bind (runs_pure _)), .cons hdelivers hall, hv''⟩

/-- A request to read that has been carried out: the words in its buffer are those that were last
put there. -/
theorem Request.Delivers.read {o : ℤ × Buffer} {items : List ((Disk × ℕ) × Sector)}
    (hread : r.isWrite = false) (hcount : r.count.toNat ≤ 2 ^ 24)
    (h : r.Delivers (Store.answer (Store.put v items) r.op) o) {n : ℕ}
    (hn : n < 256 * r.count.toNat) :
    o.2.words (.ofNat n) =
      ((Store.last (r.disk, r.lba.toNat + n / 256) items).getD (v (r.disk, r.lba.toNat + n / 256)))
        (.ofNat 256 n) := by
  rw [h.words n (by omega), Request.op, hread, if_neg Bool.false_ne_true, Store.answer,
    List.map_map, List.getElem?_map, List.getElem?_range (by omega), Option.map_some, Option.elim,
    Function.comp_apply, Store.put_apply]

/-- The table that detection has made is such a table. -/
theorem onSlaves_findDisks (identify : UInt64) (boot : Trace machine) :
    ((findDisks identify).value (channelBus.device s₀) boot).registry.OnSlaves
      (slaveIdentity s₀) := by
  intro d hd hslave
  have hslaves := registered_slave_iff (hasDrives_channelBus s₀) identify boot d
  obtain ⟨c, -, hc⟩ := hslaves.mp ⟨hd, hslave⟩
  exact ⟨c, hc⟩

/-- **The disk layer is a store**: after detection, any requests to the slaves' disks that it has
registered return what the store returns, and leave on the drives what it holds.  So every sector
that is read holds what was last written to that sector of that disk. -/
theorem requests_read_last_write (identify : UInt64) (s₀ : Channel → Drives)
    (boot h : Trace machine) (hba : Hba) (rs : List Request)
    (hfits : ∀ r ∈ rs, r.Fits ((findDisks identify).value (channelBus.device s₀) boot).registry) :
    let dev := channelBus.device s₀
    let v := volumesOf (channelBus.after s₀ h)
    let os := (runRequests hba rs).value dev h
    List.Forall₂ (fun (r : Request × List Sector) o ↦ r.1.Delivers r.2 o)
        (rs.zip (Store.run v (rs.map Request.op)).1) os ∧
      Represents ((findDisks identify).value dev boot).registry
        (channelBus.after s₀ (h ++ (runRequests hba rs).trace dev h))
        (Store.run v (rs.map Request.op)).2 ∧
      ∀ i r o, rs[i]? = some r → os[i]? = some o → r.isWrite = false →
        ∀ n < 256 * r.count.toNat, o.2.words (.ofNat n) =
          ((Store.last (r.disk, r.lba.toNat + n / 256)
            ((rs.take i).flatMap fun r ↦ r.op.items)).getD (v (r.disk, r.lba.toNat + n / 256)))
              (.ofNat 256 n) := by
  intro dev v os
  have hg : ((findDisks identify).value dev boot).registry.OnSlaves (slaveIdentity s₀) :=
    onSlaves_findDisks identify boot
  have hv : Represents ((findDisks identify).value dev boot).registry (channelBus.after s₀ h) v :=
    fun _ _ _ _ _ ↦ rfl
  obtain ⟨os', s', hrun, hall, hv'⟩ := runs_requests hg hfits hv
  obtain ⟨hos, hafter⟩ := hrun h rfl
  rw [← hos] at hall
  refine ⟨hall, hafter ▸ hv', fun i r o hr ho hread n hn ↦ ?_⟩
  obtain ⟨hi, rfl⟩ := List.getElem?_eq_some_iff.mp hr
  obtain ⟨hi', rfl⟩ := List.getElem?_eq_some_iff.mp ho
  have hanswer := Store.answers_getElem? v (rs.map Request.op) i
  rw [List.getElem?_map, hr, Option.map_some, Option.map_some, ← List.map_take, List.flatMap_map,
    List.getElem?_eq_some_iff] at hanswer
  obtain ⟨hlt, hanswer⟩ := hanswer
  have hdelivers := (List.forall₂_iff_get.mp hall).2 i
    (by rw [List.length_zip]; exact Nat.lt_min.mpr ⟨hi, hlt⟩) hi'
  simp only [List.get_eq_getElem, List.getElem_zip, hanswer] at hdelivers
  exact hdelivers.read hread (hfits _ (List.getElem_mem hi)).indexed hn

/-- The disk of a blank drive that is the slave of a channel. -/
def blankDisk (c : Channel) : Disk := slaveDisk (slaveIdentity fun _ ↦ blank) c

theorem registered_blankDisk (identify : UInt64) (boot : Trace machine) (c : Channel) :
    ((findDisks identify).value (channelBus.device fun _ ↦ blank) boot).registry.Registered
      (blankDisk c) ∧ (blankDisk c).IsSlave :=
  (registered_slave_iff (hasDrives_channelBus _) identify boot _).mpr
    ⟨c, by cases c <;> decide, rfl⟩

/-- One sector is written on each of the slaves' disks, under the same number, and one of them is
read. -/
def writtenTwice : List Request :=
  [⟨blankDisk .primary, 7, 1, ⟨0, fun _ ↦ 1⟩, true⟩,
    ⟨blankDisk .secondary, 7, 1, ⟨0, fun _ ↦ 2⟩, true⟩,
    ⟨blankDisk .primary, 7, 1, ⟨0, fun _ ↦ 0⟩, false⟩]

theorem fits_writtenTwice (identify : UInt64) (boot : Trace machine) :
    ∀ r ∈ writtenTwice, r.Fits ((findDisks identify).value
      (channelBus.device fun _ ↦ blank) boot).registry := by
  have hdisk := registered_blankDisk identify boot
  intro r hr
  simp only [writtenTwice, List.mem_cons, List.not_mem_nil, or_false] at hr
  rcases hr with rfl | rfl | rfl
  · exact ⟨(hdisk .primary).1, (hdisk .primary).2, by decide, by decide⟩
  · exact ⟨(hdisk .secondary).1, (hdisk .secondary).2, by decide, by decide⟩
  · exact ⟨(hdisk .primary).1, (hdisk .primary).2, by decide, by decide⟩

/-- The third request returns the words that were written to this disk. -/
theorem requests_read_last_write_twice :
    ∃ o, ((runRequests AhciState.initial.hba writtenTwice).value
      (channelBus.device fun _ ↦ blank) [])[2]? = some o ∧ o.2.words (.ofNat 255) = 1 := by
  -- no request is for the adapter, and evaluating it would take long
  generalize AhciState.initial.hba = hba
  obtain ⟨hall, -, hread⟩ := requests_read_last_write 0 (fun _ ↦ blank) [] [] hba writtenTwice
    (fits_writtenTwice 0 [])
  have hlen := hall.length_eq
  rw [List.length_zip, Store.length_answers, List.length_map, Nat.min_self] at hlen
  have hthird := List.getElem?_eq_getElem (hlen ▸ (by decide : 2 < writtenTwice.length))
  exact ⟨_, hthird, hread 2 _ _ rfl hthird rfl 255 (by decide)⟩

end Aetherion.Storage
