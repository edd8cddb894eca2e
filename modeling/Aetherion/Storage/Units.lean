import Aetherion.Ata.TaskFile
import Aetherion.Storage.Requests

/-!
# Which drive a request goes to

Detection sends IDENTIFY to each of the two drives of each of the two channels, and makes a disk
out of every answer.  A request to that disk should go to the drive that answered.

The channel is kept: it is in the disk's `base_port`.  The unit is not: `ata_pio_read` and
`ata_pio_write` select the drive with a constant where `is_master` belongs, so every command goes to
the slave of the channel (`requests_go_to_creator_iff`).
-/

set_option autoImplicit false

namespace Aetherion.Storage

open Driver Driver.Prog Ata Ahci

/-- Every read or write command of the run goes to this drive. -/
def GoesTo (t : Trace machine) (c : Channel) (slave : Bool) : Prop :=
  ∀ c' s cmd, cmd ∈ (transfers c'.base).reports s t → c' = c ∧ cmd.slave = slave

/-- The run sends IDENTIFY once, to this drive. -/
def IdentifyGoesTo (t : Trace machine) (c : Channel) (slave : Bool) : Prop :=
  ∀ c' s, ((commands isIdentify c'.base).reports s t).map Command.slave =
    if c' = c then [slave] else []

/-- Between the histories `h₀` and `h₁` this drive answered IDENTIFY, and the disk was made out of
its answer. -/
def CreatedBy (dev : Device machine) (h₀ h₁ : Trace machine) (disk : Disk) (c : Channel)
    (slave : Bool) : Prop :=
  ∃ ch drive h, h₀ <+: h ∧ h ++ (ataProbe ch drive).trace dev h <+: h₁ ∧
    (ataProbe ch drive).value dev h = some disk ∧
    IdentifyGoesTo ((ataProbe ch drive).trace dev h) c slave

/-! ## The other channel -/

section
variable {keep : UInt8 → Bool} {c c' : Channel}

/-- The drives of one channel do not see the ports of the other. -/
theorem ignores_other (hc : c' ≠ c) {reg : UInt16}
    (hreg : reg ∈ ([1, 2, 3, 4, 5, 6, 7] : List UInt16)) (v : UInt8) :
    (commands keep c'.base).Ignores (.out (.outb (c.base + reg) v)) := by
  have hfar : c.base + reg - c'.base ∉ ([2, 3, 4, 5, 6, 7] : List UInt16) := by
    simp only [List.mem_cons, List.not_mem_nil, or_false] at hreg
    rcases hreg with rfl | rfl | rfl | rfl | rfl | rfl | rfl <;>
      cases c <;> cases c' <;> first | exact absurd rfl hc | decide
  simp only [List.mem_cons, List.not_mem_nil, or_false, not_or] at hfar
  obtain ⟨h2, h3, h4, h5, h6, h7⟩ := hfar
  intro t
  simp only [commands, TaskFile.write, if_neg h2, if_neg h3, if_neg h4, if_neg h5, if_neg h6,
    if_neg h7]

theorem emits_other_outb (hc : c' ≠ c) {reg : UInt16}
    (hreg : reg ∈ ([1, 2, 3, 4, 5, 6, 7] : List UInt16)) (v : UInt8) :
    Emits (commands keep c'.base).Ignores (outb (c.base + reg) v) :=
  emits_emit (ignores_other hc hreg v)

theorem emits_other_ataSelectDrive (hc : c' ≠ c) (isMaster : Bool) (lba : UInt64) (lba48 : Bool) :
    Emits (commands keep c'.base).Ignores (ataSelectDrive c.base isMaster lba lba48) := by
  refine Emits.bind (.ite ?_ (emits_pure _)) fun _ ↦ emits_other_outb hc (by decide) _
  refine (emits_other_outb hc (by decide) _).bind fun _ ↦ ?_
  refine (emits_other_outb hc (by decide) _).bind fun _ ↦ ?_
  refine (emits_other_outb hc (by decide) _).bind fun _ ↦ ?_
  refine (emits_other_outb hc (by decide) _).bind fun _ ↦ ?_
  exact emits_other_outb hc (by decide) _

theorem emits_other_ataCommand (hc : c' ≠ c) (lba : UInt64) (lba48 : Bool) (ext short : UInt8) :
    Emits (commands keep c'.base).Ignores (ataCommand c.base lba lba48 ext short) := by
  refine (emits_other_ataSelectDrive hc _ _ _).bind fun _ ↦ ?_
  refine Emits.bind (.ite (emits_other_outb hc (by decide) _) (emits_pure _)) fun _ ↦ ?_
  refine (emits_other_outb hc (by decide) _).bind fun _ ↦ ?_
  refine (emits_other_outb hc (by decide) _).bind fun _ ↦ ?_
  refine (emits_other_outb hc (by decide) _).bind fun _ ↦ ?_
  refine (emits_other_outb hc (by decide) _).bind fun _ ↦ ?_
  exact emits_other_outb hc (by decide) _

theorem emits_other_ataPioRead (hc : c' ≠ c) (lba : UInt64) (count : UInt32)
    (buffer : UInt32 → UInt16) (lba48 : Bool) :
    Emits (commands keep c'.base).Ignores (ataPioRead c.base lba count buffer lba48) := by
  refine (emits_forLoop (fun i buf ↦ ?_) _ _ _).bind fun r ↦ by cases r <;> exact emits_pure _
  refine (emits_other_ataCommand hc _ _ _ _).bind fun _ ↦ ?_
  refine (emits_ataWaitDrq c.base 500).bind fun drq ↦ .ite (emits_pure _) ?_
  refine (emits_forEach (fun _ _ ↦ ?_) _ _ _).bind fun _ ↦ emits_pure _
  exact (emits_ask fun _ ↦ ignores_inp _ _).bind fun _ ↦ emits_pure _

theorem emits_other_ataPioWrite (hc : c' ≠ c) (lba : UInt64) (count : UInt32)
    (buffer : UInt32 → UInt16) (lba48 : Bool) :
    Emits (commands keep c'.base).Ignores (ataPioWrite c.base lba count buffer lba48) := by
  refine (emits_forLoop (fun i buf ↦ ?_) _ _ _).bind fun r ↦ by cases r <;> exact emits_pure _
  refine (emits_other_ataCommand hc _ _ _ _).bind fun _ ↦ ?_
  refine (emits_ataWaitDrq c.base 500).bind fun drq ↦ .ite (emits_pure _) ?_
  refine (emits_forEach (fun _ _ ↦ emits_emit (ignores_outw _ _)) _ _ _).bind fun _ ↦ ?_
  refine (emits_other_outb hc (by decide) _).bind fun _ ↦ ?_
  exact (emits_ataWaitReady c.base 1000).bind fun _ ↦ emits_pure _

end

/-! ## The drive a disk comes from -/

section
variable {keep : UInt8 → Bool} {base : UInt16}

/-- Reading the answer to an IDENTIFY is no command. -/
theorem emits_ataIdentifyReply (basePort : UInt16) :
    Emits (commands keep base).Ignores (ataIdentifyReply basePort) := by
  refine (emits_ask fun _ ↦ ignores_inp _ _).bind fun (status : UInt8) ↦ .ite (emits_pure _) ?_
  refine (emits_ataWaitReady basePort 1000).bind fun ready ↦ .ite (emits_pure _) ?_
  refine (emits_ask fun _ ↦ ignores_inp _ _).bind fun (status : UInt8) ↦ .ite (emits_pure _) ?_
  refine (emits_forEach (fun _ _ ↦ ?_) _ _ _).bind fun _ ↦ emits_pure _
  exact (emits_ask fun _ ↦ ignores_inp _ _).bind fun _ ↦ emits_pure _

/-- Neither is making a disk out of it. -/
theorem emits_ataMakeDisk (ch drive : ℕ) (identify : ℕ → UInt16) :
    Emits (commands keep base).Ignores (ataMakeDisk ch drive identify) := by
  refine Emits.ite (emits_pure _) (Emits.ite (emits_pure _) ?_)
  refine (emits_ask fun _ ↦ ignores_inp _ _).bind fun disk ↦ ?_
  cases disk with
  | none => exact emits_pure _
  | some disk =>
    refine (emits_ask fun _ ↦ ignores_inp _ _).bind fun device ↦ ?_
    cases device with
    | none => exact (emits_emit fun _ ↦ rfl).bind fun _ ↦ emits_pure _
    | some device => exact emits_pure _

theorem emits_ataMakeDisk_elim (ch drive : ℕ) (o : Option (ℕ → UInt16)) :
    Emits (commands keep base).Ignores (o.elim (pure none) (ataMakeDisk ch drive)) := by
  cases o with
  | none => exact emits_pure _
  | some identify => exact emits_ataMakeDisk ch drive identify

end

/-- **A probe sends one IDENTIFY**, to the drive it is a probe of. -/
theorem identifyGoesTo_ataProbe (dev : Device machine) (h : Trace machine) (ch drive : ℕ) :
    IdentifyGoesTo ((ataProbe ch drive).trace dev h) (channels ch) (drive ≠ 0) := by
  intro c' s
  by_cases hc : c' = channels ch
  · obtain ⟨hslave, -, -⟩ := deviceBits_or (decide (drive = 0))
      (n := (((0 : UInt64) >>> 24) &&& 0x0F).toUInt8) (by decide)
    have hcommand : (commands isIdentify c'.base).step (s.select (drive = 0) 0 false)
        (.out (.outb (c'.base + 7) 0xEC)) =
        (s.select (drive = 0) 0 false, [(s.select (drive = 0) 0 false).command 0xEC]) := by
      simp [isIdentify]
    rw [if_pos hc, ataProbe, trace_bind, Observer.reports_append, ataIdentify, trace_bind,
      Observer.reports_append, ← hc, reports_ataSelectDrive, after_ataSelectDrive, trace_bind,
      outb, trace_emit, Observer.reports_append,
      Observer.reports_of_ignores _ (emits_ataIdentifyReply _ dev _),
      Observer.reports_of_ignores _ (emits_ataMakeDisk_elim ch drive _ dev _),
      Observer.reports_cons, hcommand]
    exact congrArg (fun b ↦ [b]) (hslave.trans (by simp))
  · have hprobe : Emits (commands isIdentify c'.base).Ignores (ataProbe ch drive) := by
      refine Emits.bind ?_ (emits_ataMakeDisk_elim ch drive)
      refine (emits_other_ataSelectDrive hc _ _ _).bind fun _ ↦ ?_
      refine (emits_other_outb hc (by decide) _).bind fun _ ↦ ?_
      exact emits_ataIdentifyReply _
    rw [if_neg hc, Observer.reports_of_ignores _ (hprobe dev h), List.map_nil]

/-- Between the histories `h₀` and `h₁` some drive was probed, and the disk came out. -/
def Probed (dev : Device machine) (h₀ h₁ : Trace machine) (disk : Disk) : Prop :=
  ∃ ch drive h, h₀ <+: h ∧ h ++ (ataProbe ch drive).trace dev h <+: h₁ ∧
    (ataProbe ch drive).value dev h = some disk

theorem Probed.mono {dev : Device machine} {h₀ h₁ h₂ : Trace machine} {disk : Disk}
    (hle : h₁ <+: h₂) (hp : Probed dev h₀ h₁ disk) : Probed dev h₀ h₂ disk := by
  obtain ⟨ch, drive, h, hstart, hend, hvalue⟩ := hp
  exact ⟨ch, drive, h, hstart, hend.trans hle, hvalue⟩

/-- Every disk of the table has come out of a probe. -/
def AllProbed (dev : Device machine) (h₀ h₁ : Trace machine) (g : Registry) : Prop :=
  h₀ <+: h₁ ∧ ∀ disk, g.Registered disk → Probed dev h₀ h₁ disk

theorem AllProbed.mono {dev : Device machine} {h₀ h₁ : Trace machine} {g : Registry}
    (hg : AllProbed dev h₀ h₁ g) (t : Trace machine) : AllProbed dev h₀ (h₁ ++ t) g :=
  ⟨hg.1.trans (List.prefix_append ..), fun disk hdisk ↦
    (hg.2 disk hdisk).mono (List.prefix_append ..)⟩

/-- One probe more. -/
theorem AllProbed.ataDetectDrive {dev : Device machine} {h₀ h₁ : Trace machine}
    {s : Registry × ℤ} (hs : AllProbed dev h₀ h₁ s.1) (ch drive : ℕ) :
    AllProbed dev h₀ (h₁ ++ (ataDetectDrive ch drive s).trace dev h₁)
      ((ataDetectDrive ch drive s).value dev h₁).1 := by
  rw [Ata.ataDetectDrive, value_bind, trace_bind]
  cases hprobe : (ataProbe ch drive).value dev h₁ with
  | none => exact hs.mono _
  | some d =>
    refine ⟨(hs.mono _).1, ?_⟩
    intro disk hdisk
    rw [value_bind, value_pure, diskRegister_value_snd] at hdisk
    rcases hdisk.of_add with hold | rfl
    · exact (hs.mono _).2 disk hold
    · refine ⟨ch, drive, h₁, hs.1, ?_, hprobe⟩
      rw [← List.append_assoc]
      exact List.prefix_append ..

/-- **Every disk that detection registers has come out of one of its probes.** -/
theorem allProbed_ataDetectDisks (dev : Device machine) (h₀ : Trace machine) :
    AllProbed dev h₀ (h₀ ++ (ataDetectDisks Registry.empty).trace dev h₀)
      ((ataDetectDisks Registry.empty).value dev h₀).2 := by
  have hempty : AllProbed dev h₀ h₀ Registry.empty :=
    ⟨List.prefix_refl _, fun disk hdisk ↦ absurd hdisk (not_registered_empty disk)⟩
  have hloop := forEach_run (fun ch s ↦ forEach (fun drive s ↦ ataDetectDrive ch drive s) 2 0 s)
    (fun _ s h ↦ AllProbed dev h₀ h s.1) dev 2 0
    (fun ch s h _ _ hs ↦ forEach_run _ (fun _ (s : Registry × ℤ) h ↦ AllProbed dev h₀ h s.1) dev 2 0
      (fun drive s h _ _ hs ↦ hs.ataDetectDrive ch drive) hs) (a := (Registry.empty, 0)) hempty
  rw [ataDetectDisks, trace_bind, value_bind, ← List.append_assoc, value_ite]
  split
  · exact hloop.mono _
  · exact hloop.mono _

/-! ## The drive a request goes to -/

section
variable (dev : Device machine) (h : Trace machine) (lba : UInt64) (count : UInt32)

/-- A program that sends the commands of `count` sectors to the slave of the channel, at least the
first, and nothing to the other channel. -/
theorem goesTo_iff {c : Channel} {t : Trace machine} (code : UInt8) (lba48 : Bool)
    (hother : ∀ c', c' ≠ c → ∀ e ∈ t, (transfers c'.base).Ignores e)
    (hsent : ∀ s, ∃ k ≤ count.toNat, (0 < count.toNat → 0 < k) ∧
      (transfers c.base).reports s t = (List.range k).map (sectorCommand code lba lba48))
    (slave : Bool) : GoesTo t c slave ↔ slave = true ∨ count.toNat = 0 := by
  constructor
  · intro hgoes
    obtain ⟨k, hk, hpos, hrep⟩ := hsent default
    refine or_iff_not_imp_right.mpr fun hcount ↦ ?_
    have hfirst : sectorCommand code lba lba48 0 ∈ (transfers c.base).reports default t := by
      rw [hrep]
      exact List.mem_map_of_mem (List.mem_range.mpr (hpos (by omega)))
    exact (hgoes c default _ hfirst).2.symm
  · intro hslave c' s cmd hcmd
    by_cases hc : c' = c
    · subst hc
      obtain ⟨k, hk, -, hrep⟩ := hsent s
      rw [hrep] at hcmd
      obtain ⟨i, hi, rfl⟩ := List.mem_map.mp hcmd
      rw [List.mem_range] at hi
      exact ⟨rfl, (hslave.resolve_right (by omega)).symm⟩
    · rw [Observer.reports_of_ignores _ (hother c' hc)] at hcmd
      cases hcmd

theorem goesTo_ataPioRead_iff (c : Channel) (buffer : UInt32 → UInt16) (lba48 : Bool)
    (slave : Bool) :
    GoesTo ((ataPioRead c.base lba count buffer lba48).trace dev h) c slave ↔
      slave = true ∨ count.toNat = 0 := by
  refine goesTo_iff lba count (readCode lba48) lba48
    (fun c' hc ↦ emits_other_ataPioRead hc lba count buffer lba48 dev h) (fun s ↦ ?_) slave
  obtain ⟨k, hk, hpos, hrep, -⟩ := reports_ataPioRead c.base dev h s lba count buffer lba48
  exact ⟨k, hk, hpos, hrep⟩

theorem goesTo_ataPioWrite_iff (c : Channel) (buffer : UInt32 → UInt16) (lba48 : Bool)
    (slave : Bool) :
    GoesTo ((ataPioWrite c.base lba count buffer lba48).trace dev h) c slave ↔
      slave = true ∨ count.toNat = 0 := by
  refine goesTo_iff lba count (writeCode lba48) lba48
    (fun c' hc ↦ emits_other_ataPioWrite hc lba count buffer lba48 dev h) (fun s ↦ ?_) slave
  obtain ⟨k, hk, hpos, hrep, -⟩ := reports_ataPioWrite c.base dev h s lba count buffer lba48
  exact ⟨k, hk, hpos, hrep⟩

end

/-- The creator of a disk that came out of a probe is the drive that was probed. -/
theorem creator_eq {dev : Device machine} {h : Trace machine} {ch drive : ℕ} {c : Channel}
    {slave : Bool} (hid : IdentifyGoesTo ((ataProbe ch drive).trace dev h) c slave) :
    c = channels ch ∧ slave = decide (drive ≠ 0) := by
  have heq := (identifyGoesTo_ataProbe dev h ch drive (channels ch) default).symm.trans
    (hid (channels ch) default)
  rw [if_pos rfl] at heq
  split at heq
  · rename_i hc
    exact ⟨hc.symm, (List.singleton_inj.mp heq).symm⟩
  · cases heq

section
variable (hba : Hba) (dev : Device machine) (h : Trace machine) (lba : UInt64) (count : UInt32)
  (buffer : Buffer) (ch drive : ℕ) (words : ℕ → UInt16) (slave : Bool)

theorem goesTo_diskRead_iff :
    GoesTo ((diskRead hba (some (ataDisk ch drive words)) lba count buffer).trace dev h)
      (channels ch) slave ↔ slave = true ∨ count = 0 := by
  have hread : (diskRead hba (some (ataDisk ch drive words)) lba count buffer).trace dev h =
      (ataPioRead (channels ch).base lba count buffer.words (lba48Supported words)).trace dev h :=
    List.append_nil _
  rw [hread, goesTo_ataPioRead_iff, ← UInt32.toNat_inj]
  rfl

theorem goesTo_diskWrite_iff :
    GoesTo ((diskWrite hba (some (ataDisk ch drive words)) lba count buffer).trace dev h)
      (channels ch) slave ↔ slave = true ∨ count = 0 := by
  have hwrite : (diskWrite hba (some (ataDisk ch drive words)) lba count buffer).trace dev h =
      (ataPioWrite (channels ch).base lba count buffer.words (lba48Supported words)).trace dev h :=
    rfl
  rw [hwrite, goesTo_ataPioWrite_iff, ← UInt32.toNat_inj]
  rfl

end

/-- **A request goes to the drive its disk was made from** exactly when that drive is the slave of
its channel, or the request has no sectors.  This is so whatever the drives answered to detection
and whatever they answer now; and every disk was made from some drive. -/
theorem requests_go_to_creator_iff (boot : Device machine) (h₀ : Trace machine) (disk : Disk)
    (hdisk : ((ataDetectDisks Registry.empty).value boot h₀).2.Registered disk) :
    (∃ c slave, CreatedBy boot h₀ (h₀ ++ (ataDetectDisks Registry.empty).trace boot h₀) disk c
      slave) ∧
    ∀ c slave,
      CreatedBy boot h₀ (h₀ ++ (ataDetectDisks Registry.empty).trace boot h₀) disk c slave →
      ∀ hba dev h lba count buffer,
        (GoesTo ((diskRead hba (some disk) lba count buffer).trace dev h) c slave ↔
          slave = true ∨ count = 0) ∧
        (GoesTo ((diskWrite hba (some disk) lba count buffer).trace dev h) c slave ↔
          slave = true ∨ count = 0) := by
  constructor
  · obtain ⟨ch, drive, h, hstart, hend, hvalue⟩ :=
      (allProbed_ataDetectDisks boot h₀).2 disk hdisk
    exact ⟨channels ch, drive ≠ 0, ch, drive, h, hstart, hend, hvalue,
      identifyGoesTo_ataProbe boot h ch drive⟩
  · rintro c slave ⟨ch, drive, h₁, -, -, hvalue, hid⟩ hba dev h lba count buffer
    obtain ⟨rfl, rfl⟩ := creator_eq hid
    obtain ⟨words, rfl⟩ := returns_ataProbe ch drive h₁ disk hvalue
    exact ⟨goesTo_diskRead_iff .., goesTo_diskWrite_iff ..⟩

/-- Detection on the idle machine: the first disk is made from the master of the first channel. -/
theorem idleMachine_master :
    ∃ disk, ((ataDetectDisks Registry.empty).value idleMachine []).2.Registered disk ∧
      CreatedBy idleMachine [] ([] ++ (ataDetectDisks Registry.empty).trace idleMachine []) disk
        .primary false := by
  have hget : ((ataDetectDisks Registry.empty).value idleMachine []).2.get? 0 =
      (ataProbe 0 0).value idleMachine [] := by decide +kernel
  have hsome : ((ataProbe 0 0).value idleMachine []).isSome = true := by decide +kernel
  obtain ⟨disk, hdisk⟩ := Option.isSome_iff_exists.mp hsome
  refine ⟨disk, ⟨0, hget.trans hdisk⟩, 0, 0, [], List.prefix_refl _, ?_, hdisk,
    identifyGoesTo_ataProbe idleMachine [] 0 0⟩
  -- the first probe is where the run of detection begins
  simp only [ataDetectDisks, forEach, Ata.ataDetectDrive, trace_bind, List.append_assoc,
    List.nil_append]
  exact List.prefix_append ..

/-- Detection probes the master of the first channel, and then its slave. -/
theorem trace_ataDetectDisks_prefix (g : Registry) (dev : Device machine) (h : Trace machine) :
    let master := (ataDetectDrive 0 0 (g, 0)).trace dev h
    master ++ (ataProbe 0 1).trace dev (h ++ master) <+: (ataDetectDisks g).trace dev h := by
  intro master
  simp only [ataDetectDisks, forEach, trace_bind, List.append_assoc]
  refine List.prefix_append_right_inj _ |>.mpr ?_
  rw [ataDetectDrive, trace_bind, List.append_assoc]
  exact List.prefix_append ..

/-- The second disk is made from the slave. -/
theorem idleMachine_slave :
    ∃ disk, ((ataDetectDisks Registry.empty).value idleMachine []).2.Registered disk ∧
      CreatedBy idleMachine [] ([] ++ (ataDetectDisks Registry.empty).trace idleMachine []) disk
        .primary true := by
  have hget : ((ataDetectDisks Registry.empty).value idleMachine []).2.get? 1 =
      (ataProbe 0 1).value idleMachine
        ((ataDetectDrive 0 0 (Registry.empty, 0)).trace idleMachine []) := by decide +kernel
  have hsome : ((ataProbe 0 1).value idleMachine
      ((ataDetectDrive 0 0 (Registry.empty, 0)).trace idleMachine [])).isSome = true := by
    decide +kernel
  obtain ⟨disk, hdisk⟩ := Option.isSome_iff_exists.mp hsome
  refine ⟨disk, ⟨1, hget.trans hdisk⟩, 0, 1, _, List.nil_prefix, ?_, hdisk,
    identifyGoesTo_ataProbe idleMachine _ 0 1⟩
  exact trace_ataDetectDisks_prefix Registry.empty idleMachine []

/-- Its requests go there. -/
theorem requests_go_to_creator_slave :
    ∃ disk, ((ataDetectDisks Registry.empty).value idleMachine []).2.Registered disk ∧
      CreatedBy idleMachine [] ([] ++ (ataDetectDisks Registry.empty).trace idleMachine []) disk
        .primary true ∧
      GoesTo ((diskRead AhciState.initial.hba (some disk) 0 1 ⟨0, fun _ ↦ 0⟩).trace
        idleMachine []) .primary true := by
  obtain ⟨disk, hdisk, hcreated⟩ := idleMachine_slave
  exact ⟨disk, hdisk, hcreated, ((requests_go_to_creator_iff idleMachine [] disk hdisk).2 _ _
    hcreated AhciState.initial.hba idleMachine [] 0 1 ⟨0, fun _ ↦ 0⟩).1.mpr (Or.inl rfl)⟩

/-- A read of one sector from the master's disk goes to another drive, and so does a write. -/
theorem requests_miss_the_master :
    ∃ disk, ((ataDetectDisks Registry.empty).value idleMachine []).2.Registered disk ∧
      CreatedBy idleMachine [] ([] ++ (ataDetectDisks Registry.empty).trace idleMachine []) disk
        .primary false ∧
      ¬GoesTo ((diskRead AhciState.initial.hba (some disk) 0 1 ⟨0, fun _ ↦ 0⟩).trace
        idleMachine []) .primary false ∧
      ¬GoesTo ((diskWrite AhciState.initial.hba (some disk) 0 1 ⟨0, fun _ ↦ 0⟩).trace
        idleMachine []) .primary false := by
  obtain ⟨disk, hdisk, hcreated⟩ := idleMachine_master
  refine ⟨disk, hdisk, hcreated, ?_⟩
  obtain ⟨ch, drive, h₁, -, -, hvalue, hid⟩ := hcreated
  obtain ⟨hc, -⟩ := creator_eq hid
  obtain ⟨words, rfl⟩ := returns_ataProbe ch drive h₁ disk hvalue
  rw [hc, goesTo_diskRead_iff, goesTo_diskWrite_iff]
  decide

end Aetherion.Storage
