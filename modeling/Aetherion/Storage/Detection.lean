import Aetherion.Ahci.Ports
import Aetherion.Base.Triple

/-!
# What detection keeps

`findDisks` tries four drives and then at most 32 ports, and the table changes only where one of
them answers.  `triple_findDisks` is the rule for all of it: an invariant over the drive or port
that is next, the table, the number of disks found and the history has to be shown only for one
probe of a drive and one of a port.

Between the probes detection prints messages, and looks for the controller and its ports.  The
invariants must not mind that (`Indifferent`), and do not if they look at nothing but what the heap
has answered (`Unheeding`).
-/

set_option autoImplicit false

namespace Aetherion.Storage

open Driver Driver.Prog Ata Ahci

/-- The exchange does not ask for memory. -/
def Quiet : Exchange → Prop
  | .inp (.malloc _) _ => False
  | _ => True

/-- The assertion is about what the heap has answered, and nothing else of the history. -/
def Unheeding (P : Trace machine → Prop) : Prop := ∀ h e, Quiet e → P h → P (h ++ [e])

/-- The exchanges that detection makes between its probes. -/
inductive Between : Exchange → Prop where
  | print (text : String) : Between (.out (.print text))
  | color (fg bg : Vga.VgaColor) : Between (.out (.color fg bg))
  | address {p : UInt16} (hp : p ∈ [0xCF8, 0xCF9, 0xCFA, 0xCFB]) (v : UInt8) :
      Between (.out (.outb p v))
  | config (v : UInt32) : Between (.inp (.inl 0xCFC) v)
  | register (a : UInt64) (v : UInt32) : Between (.inp (.mmio a) v)

/-- The assertion is about nothing that is exchanged between the probes. -/
def Indifferent (P : Trace machine → Prop) : Prop := ∀ h e, Between e → P h → P (h ++ [e])

/-- None of it asks for memory. -/
theorem Unheeding.indifferent {P : Trace machine → Prop} (hP : Unheeding P) : Indifferent P :=
  fun h e he ↦ hP h e (by cases he <;> trivial)

variable {dev : Device machine}

theorem Indifferent.keep {α : Type} {P : Trace machine → Prop} (hP : Indifferent P) {p : Kernel α}
    (hp : Emits Between p) : Triple dev P p (fun _ ↦ P) := triple_of_emits hp hP

/-! ## Programs that do not ask for memory -/

theorem quiet_ataSelectDrive (base : UInt16) (isMaster : Bool) (lba : UInt64) (lba48 : Bool) :
    Emits Quiet (ataSelectDrive base isMaster lba lba48) := by
  refine Emits.bind (.ite ?_ (emits_pure _)) fun _ ↦ emits_emit trivial
  exact (emits_emit trivial).bind fun _ ↦ (emits_emit trivial).bind fun _ ↦
    (emits_emit trivial).bind fun _ ↦ (emits_emit trivial).bind fun _ ↦ emits_emit trivial

theorem quiet_ataWaitReady (base : UInt16) (timeoutMs : UInt32) :
    Emits Quiet (ataWaitReady base timeoutMs) := by
  refine (emits_forLoop (fun _ _ ↦ ?_) _ _ _).bind fun r ↦ by cases r <;> exact emits_pure _
  exact (emits_ask fun _ ↦ trivial).bind fun _ ↦ .ite (emits_pure _) (emits_pure _)

theorem quiet_ataIdentify (base : UInt16) (isMaster : Bool) :
    Emits Quiet (ataIdentify base isMaster) := by
  refine (quiet_ataSelectDrive _ _ _ _).bind fun _ ↦ (emits_emit trivial).bind fun _ ↦ ?_
  refine (emits_ask fun _ ↦ trivial).bind fun (status : UInt8) ↦ .ite (emits_pure _) ?_
  refine (quiet_ataWaitReady _ _).bind fun ready ↦ .ite (emits_pure _) ?_
  refine (emits_ask fun _ ↦ trivial).bind fun (status : UInt8) ↦ .ite (emits_pure _) ?_
  refine (emits_forEach (fun _ _ ↦ ?_) _ _ _).bind fun _ ↦ emits_pure _
  exact (emits_ask fun _ ↦ trivial).bind fun _ ↦ emits_pure _

theorem quiet_ahciWaitBit (reg : UInt64) (mask : UInt32) (expected : Bool) (timeoutUs : UInt32) :
    Emits Quiet (ahciWaitBit reg mask expected timeoutUs) := by
  refine (emits_forLoop (fun _ _ ↦ ?_) _ _ _).bind fun r ↦ by cases r <;> exact emits_pure _
  exact (emits_ask fun _ ↦ trivial).bind fun _ ↦ .ite (emits_pure _) (emits_pure _)

theorem quiet_ahciPortStart (hba : Hba) (port : AhciPort) :
    Emits Quiet (ahciPortStart hba port) := by
  refine (emits_ask fun _ ↦ trivial).bind fun _ ↦ (emits_emit trivial).bind fun _ ↦ ?_
  refine (quiet_ahciWaitBit _ _ _ _).bind fun _ ↦ (emits_emit trivial).bind fun _ ↦ ?_
  refine (Emits.ite (emits_emit trivial) (emits_pure _)).bind fun _ ↦ ?_
  refine (emits_emit trivial).bind fun _ ↦ ?_
  refine (Emits.ite (emits_emit trivial) (emits_pure _)).bind fun _ ↦ ?_
  refine (emits_ask fun _ ↦ trivial).bind fun _ ↦ (emits_emit trivial).bind fun _ ↦ ?_
  refine (quiet_ahciWaitBit _ _ _ _).bind fun _ ↦ .ite ?_ (emits_pure _)
  exact (emits_emit trivial).bind fun _ ↦ emits_pure _

theorem quiet_awaitCmd (hba : Hba) (port : AhciPort) : Emits Quiet (awaitCmd hba port) := by
  have hpoll (timeout : ℕ) : Emits Quiet (pollCi hba port timeout) := by
    induction timeout with
    | zero => exact emits_pure _
    | succ timeout ih => exact (emits_ask fun _ ↦ trivial).bind fun _ ↦ .ite (emits_pure _) ih
  refine (hpoll _).bind fun timeout ↦ .ite (emits_pure _) ?_
  refine (emits_ask fun _ ↦ trivial).bind fun is ↦ .ite ?_ (emits_pure _)
  exact (emits_emit trivial).bind fun _ ↦ emits_pure _

theorem quiet_ahciIdentify (hba : Hba) (port : AhciPort) (identify : UInt64) :
    Emits Quiet (ahciIdentify hba port identify) := by
  refine Emits.bind (.bind ?_ fun _ ↦ (emits_emit trivial).bind fun _ ↦ quiet_awaitCmd _ _)
    fun r ↦ .ite (emits_pure _) ((emits_ask fun _ ↦ trivial).bind fun _ ↦ emits_pure _)
  refine (emits_emit trivial).bind fun _ ↦ (emits_emit trivial).bind fun _ ↦ ?_
  refine (emits_emit trivial).bind fun _ ↦ (emits_emit trivial).bind fun _ ↦ ?_
  refine (emits_emit trivial).bind fun _ ↦ (emits_ask fun _ ↦ trivial).bind fun _ ↦ ?_
  exact (emits_emit trivial).bind fun _ ↦ emits_emit trivial

/-! ## What is exchanged between the probes -/

theorem between_print (text : String) : Emits Between (vgaWrite text) := emits_emit (.print text)

theorem between_color (fg bg : Vga.VgaColor) : Emits Between (vgaSetColor fg bg) :=
  emits_emit (.color fg bg)

theorem between_diskRegister (g : Registry) (d : Disk) :
    Emits Between (diskRegister g (some d)) := by
  refine .dite (fun _ ↦ (between_print _).bind fun _ ↦ emits_pure _) fun _ ↦ ?_
  exact (between_color _ _).bind fun _ ↦ (between_print _).bind fun _ ↦
    (between_print _).bind fun _ ↦ (between_print _).bind fun _ ↦
    (between_print _).bind fun _ ↦ (between_print _).bind fun _ ↦
    (between_color _ _).bind fun _ ↦ emits_pure _

theorem between_portRead (hba : Hba) (port : AhciPort) (offset : UInt32) :
    Emits Between (portRead hba port offset) := emits_ask (.register _)

theorem between_hbaRead (hba : Hba) (offset : UInt32) : Emits Between (hbaRead hba offset) :=
  emits_ask (.register _)

theorem between_pciRead32 (bus device func reg : UInt8) :
    Emits Between (pciRead32 bus device func reg) := by
  have haddress {p : UInt16} (hp : p ∈ [0xCF8, 0xCF9, 0xCFA, 0xCFB]) (v : UInt8) :
      Emits Between (outb p v) := emits_emit (.address hp v)
  exact (haddress (by decide) _).bind fun _ ↦ (haddress (by decide) _).bind fun _ ↦
    (haddress (by decide) _).bind fun _ ↦ (haddress (by decide) _).bind fun _ ↦
    emits_ask .config

/-! ## One probe -/

/-- What a probe may end with: no disk, and nothing has changed, or a disk, which comes into the
table and is counted. -/
def AfterProbe (I : Registry → ℤ → Trace machine → Prop) (g : Registry) (found : ℤ) :
    Option Disk → Trace machine → Prop
  | none, h => I g found h
  | some d, h => I (g.add d) (found + 1) h

section
variable {identify : UInt64}

/-- A disk that has been found is registered, whatever comes of it. -/
theorem triple_diskRegister {J : Registry → Trace machine → Prop} (hJ : ∀ g, Indifferent (J g))
    (g : Registry) (d : Disk) :
    Triple dev (J (g.add d)) (diskRegister g (some d)) (fun r ↦ J r.2) := by
  refine (((hJ (g.add d)).keep (between_diskRegister g d)).and_returns
    (returns_diskRegister g d)).mono (fun h hh ↦ hh) fun r h hr ↦ ?_
  rw [hr.2]
  exact hr.1

/-! ## The drives -/

/-- The rule for `ata_detect_disks`: `I k g found` holds when drive `k` of the four is next. -/
theorem triple_ataDetectDisks {I : ℕ → Registry → ℤ → Trace machine → Prop}
    (hI : ∀ k g found, Indifferent (I k g found))
    (hprobe : ∀ ch drive g found, ch < 2 → drive < 2 →
      Triple dev (I (2 * ch + drive) g found) (ataProbe ch drive)
        (AfterProbe (I (2 * ch + drive + 1)) g found)) (g : Registry) :
    Triple dev (I 0 g 0) (ataDetectDisks g) (fun r ↦ I 4 r.2 r.1) := by
  refine Triple.bind (Q := fun s : Registry × ℤ ↦ I 4 s.1 s.2) ?_ fun s ↦ ?_
  · refine triple_forEach (fun ch (s : Registry × ℤ) ↦ I (2 * ch) s.1 s.2) 2 0
      (a := (g, 0)) fun ch s _ hch ↦ ?_
    refine triple_forEach (fun drive (s : Registry × ℤ) ↦ I (2 * ch + drive) s.1 s.2) 2 0
      (a := s) fun drive s _ hdrive ↦ ?_
    refine (hprobe ch drive s.1 s.2 (by omega) (by omega)).bind fun o ↦ ?_
    cases o with
    | none => exact triple_pure fun h hh ↦ hh
    | some d =>
      exact (triple_diskRegister (fun g ↦ hI (2 * ch + drive + 1) g (s.2 + 1)) s.1 d).bind
        fun r ↦ triple_pure fun h hh ↦ hh
  · refine .ite (fun _ ↦ ?_) fun _ ↦ triple_pure fun h hh ↦ hh
    exact ((hI 4 s.1 s.2).keep (between_color _ _)).bind fun _ ↦
      ((hI 4 s.1 s.2).keep (between_print _)).bind fun _ ↦
      ((hI 4 s.1 s.2).keep (between_color _ _)).bind fun _ ↦ triple_pure fun h hh ↦ hh

/-! ## The ports -/

section
variable {I : UInt64 → ℕ → Registry → ℤ → Trace machine → Prop}
  (hI : ∀ abar i g found, Indifferent (I abar i g found))
  (hskip : ∀ abar i g found h, I abar i g found h → I abar (i + 1) g found h)
  (hprobe : ∀ hba i g found, Ready (hba.port i) →
    Triple dev (I hba.abar (Fin.val i) g found) (ahciProbe hba i identify)
      (AfterProbe (I hba.abar (i + 1)) g found))
include hI hskip hprobe

/-- The rule for `ahci_detect_ports`: `I abar i g found` holds when port `i` of the controller at
`abar` is next.  A port has memory of its own when it is probed. -/
theorem triple_ahciDetectPorts {s : AhciState} (hs : PortsReady 0 s .empty) (g : Registry) :
    Triple dev (I s.hba.abar 0 g 0) (ahciDetectPorts s g identify)
      (fun r ↦ I r.2.1.hba.abar 32 r.2.2 r.1) := by
  let J (i : ℕ) (s : AhciState × Registry × ℤ) (h : Trace machine) : Prop :=
    PortsReady i s.1 .empty ∧ I s.1.hba.abar i s.2.1 s.2.2 h
  refine Triple.bind (Q := J 32) ?_ fun s ↦ triple_pure fun h hh ↦ hh.2
  refine (triple_forEach J 32 0 (a := (s, g, 0)) fun i s _ hi ↦ triple_and fun hready ↦ ?_).mono
    (fun h hh ↦ ⟨hs, hh⟩) fun _ _ hh ↦ hh
  obtain ⟨j, rfl⟩ : ∃ j : Fin 32, j.val = i := ⟨⟨i, by omega⟩, rfl⟩
  have hj : Fin.ofNat 32 j.val = j := Fin.ext (Nat.mod_eq_of_lt j.isLt)
  change Triple dev _ (ahciDetectPort identify (Fin.ofNat 32 j.val) s) _
  rw [hj]
  have hpass := hI s.1.hba.abar j s.2.1 s.2.2
  have hnumbered := (hready.setPort (s.1.numberedPort j) (hready.slots j)).skip
  obtain ⟨hallocated, hport⟩ := hready.allocated
  refine .ite (fun _ ↦ triple_pure fun h hh ↦ ⟨hready.skip, hskip _ j _ _ h hh⟩) fun _ ↦ ?_
  refine (hpass.keep (between_portRead _ _ _)).bind fun sig ↦ .ite (fun _ ↦ ?_) fun _ ↦ ?_
  · exact (hpass.keep (between_print _)).bind fun _ ↦
      triple_pure fun h hh ↦ ⟨hnumbered, hskip _ j _ _ h hh⟩
  · refine (hprobe _ j s.2.1 s.2.2 hport).bind fun o ↦ ?_
    cases o with
    | none => exact triple_pure fun h hh ↦ ⟨hallocated, hh⟩
    | some d =>
      exact (triple_diskRegister (fun g ↦ hI _ (j + 1) g (s.2.2 + 1)) s.2.1 d).bind
        fun r ↦ triple_pure fun h hh ↦ ⟨hallocated, hh⟩

variable (hcontrol : ∀ hba g v, Triple dev (I hba.abar 0 g 0) (hbaWrite hba 0x04 v)
  (fun _ ↦ I hba.abar 0 g 0))
include hcontrol

/-- The rule for what is done with a controller that has been found: only then it is known where
it is. -/
theorem triple_ahciSetup (g : Registry) (bus device func : UInt8) :
    Triple dev (fun h ↦ ∀ abar, I abar 0 g 0 h) (ahciSetup .initial g identify bus device func)
      (fun r ↦ I r.2.1.hba.abar 32 r.2.2 r.1) := by
  have hkeep {α : Type} {p : Kernel α} (hp : Emits Between p) :
      Triple dev (fun h ↦ ∀ abar, I abar 0 g 0 h) p (fun _ h ↦ ∀ abar, I abar 0 g 0 h) :=
    triple_forall fun abar ↦ (hI abar 0 g 0).keep hp
  refine (hkeep (between_print _)).bind fun _ ↦ (hkeep (between_pciRead32 _ _ _ _)).bind
    fun bar5 ↦ (hkeep (.ite (between_pciRead32 _ _ _ _) (emits_pure _))).bind fun upper ↦ ?_
  let hba : Hba := { AhciState.initial.hba with
    abar := (bar5 &&& ~~~0xF).toUInt64 ||| (upper.toUInt64 <<< 32) }
  have hat {α : Type} {p : Kernel α} (hp : Emits Between p) :
      Triple dev (I hba.abar 0 g 0) p (fun _ ↦ I hba.abar 0 g 0) := (hI hba.abar 0 g 0).keep hp
  refine Triple.mono (P := I hba.abar 0 g 0) ?_ (fun h hh ↦ hh hba.abar) fun _ _ hh ↦ hh
  refine (hat (between_print _)).bind fun _ ↦ (hat (between_hbaRead _ _)).bind fun ghc ↦ ?_
  refine (Triple.ite (fun _ ↦ hcontrol hba g _) fun _ ↦ triple_pure fun _ ↦ id).bind fun _ ↦
    (hat (between_hbaRead _ _)).bind fun ghc ↦ ?_
  refine (hcontrol hba g _).bind fun _ ↦ (hat (between_hbaRead _ _)).bind fun cap ↦
    (hat (between_hbaRead _ _)).bind fun impl ↦ ?_
  have hready : PortsReady 0 { AhciState.initial with hba := hba.withCaps cap impl } .empty :=
    portsReady_initial (Registry.all_empty _) rfl
  exact (hat (between_print _)).bind fun _ ↦ triple_ahciDetectPorts hI hskip hprobe hready g

/-- The rule for `ahci_init`, which finds a controller or does not. -/
theorem triple_ahciInit (g : Registry) :
    Triple dev (fun h ↦ ∀ abar, I abar 0 g 0 h) (ahciInit .initial g identify)
      (fun r ↦ I r.2.1.hba.abar 32 r.2.2 r.1) := by
  let P (h : Trace machine) : Prop := ∀ abar, I abar 0 g 0 h
  let R (r : ℤ × AhciState × Registry) : Trace machine → Prop := I r.2.1.hba.abar 32 r.2.2 r.1
  have hkeep {α : Type} {p : Kernel α} (hp : Emits Between p) : Triple dev P p (fun _ ↦ P) :=
    triple_forall fun abar ↦ (hI abar 0 g 0).keep hp
  have hall (abar : UInt64) (i : ℕ) (h : Trace machine) (hh : I abar 0 g 0 h) :
      I abar i g 0 h := by
    induction i with
    | zero => exact hh
    | succ i ih => exact hskip abar i g 0 h ih
  refine (hkeep (between_color _ _)).bind fun _ ↦ (hkeep (between_print _)).bind fun _ ↦
    (hkeep (between_color _ _)).bind fun _ ↦ ?_
  refine (triple_forLoop (fun _ _ ↦ P) R 256 0 fun bus _ _ _ ↦ ?_).bind fun r ↦ ?_
  · refine triple_forLoop (fun _ _ ↦ P) _ 32 0 fun device _ _ _ ↦ ?_
    refine triple_forLoop (fun _ _ ↦ P) _ 8 0 fun func _ _ _ ↦ ?_
    refine (hkeep (between_pciRead32 _ _ _ _)).bind fun classCode ↦
      .ite (fun _ ↦ ?_) fun _ ↦ triple_pure fun h hh ↦ hh
    exact (triple_ahciSetup hI hskip hprobe hcontrol g _ _ _).bind fun r ↦
      triple_pure fun h hh ↦ hh
  · cases r with
    | error r => exact triple_pure fun h hh ↦ hh
    | ok _ =>
      exact (hkeep (between_color _ _)).bind fun _ ↦ (hkeep (between_print _)).bind fun _ ↦
        (hkeep (between_color _ _)).bind fun _ ↦ triple_pure fun h hh ↦ hall _ 32 h (hh _)

end
end

/-- **The rule for the whole of detection**, with one invariant for the drives and one for the
ports. -/
theorem triple_findDisks {A : ℕ → Registry → ℤ → Trace machine → Prop}
    {B : ℤ → UInt64 → ℕ → Registry → ℤ → Trace machine → Prop} {identify : UInt64}
    (hA : ∀ k g found, Indifferent (A k g found))
    (hB : ∀ n abar i g found, Indifferent (B n abar i g found))
    (hata : ∀ ch drive g found, ch < 2 → drive < 2 →
      Triple dev (A (2 * ch + drive) g found) (ataProbe ch drive)
        (AfterProbe (A (2 * ch + drive + 1)) g found))
    (hnext : ∀ g n h, A 4 g n h → ∀ abar, B n abar 0 g 0 h)
    (hskip : ∀ n abar i g found h, B n abar i g found h → B n abar (i + 1) g found h)
    (hcontrol : ∀ n hba g v, Triple dev (B n hba.abar 0 g 0) (hbaWrite hba 0x04 v)
      (fun _ ↦ B n hba.abar 0 g 0))
    (hahci : ∀ n hba i g found, Ready (hba.port i) →
      Triple dev (B n hba.abar (Fin.val i) g found) (ahciProbe hba i identify)
        (AfterProbe (B n hba.abar (i + 1)) g found)) :
    Triple dev (A 0 Registry.empty 0) (findDisks identify)
      (fun k ↦ B k.ataFound k.ahci.hba.abar 32 k.registry k.ahciFound) := by
  have hkeep (g : Registry) {α : Type} {p : Kernel α} (hp : Emits Between p) :
      Triple dev (A 0 g 0) p (fun _ ↦ A 0 g 0) := (hA 0 g 0).keep hp
  refine Triple.bind (Q := fun g ↦ A 0 g 0) ?_ fun g ↦ ?_
  · exact (hkeep _ (between_color _ _)).bind fun _ ↦ (hkeep _ (between_print _)).bind fun _ ↦
      (hkeep _ (between_color _ _)).bind fun _ ↦ triple_pure fun h hh ↦ hh
  refine Triple.bind (Q := fun r : ℤ × Registry ↦ A 4 r.2 r.1) ?_ fun ata ↦ ?_
  · exact (hkeep _ (between_color _ _)).bind fun _ ↦ (hkeep _ (between_print _)).bind fun _ ↦
      (hkeep _ (between_color _ _)).bind fun _ ↦ triple_ataDetectDisks hA hata g
  · exact ((triple_ahciInit (hB ata.1) (hskip ata.1) (hahci ata.1) (hcontrol ata.1) ata.2).mono
      (hnext ata.2 ata.1) fun _ _ hh ↦ hh).bind fun r ↦ triple_pure fun h hh ↦ hh

end Aetherion.Storage
