import Aetherion.Base.Triple
import Aetherion.Ata.Driver

/-!
# Writing only to a drive that is ready

A drive takes no notice of what is written to its registers while it is busy or in the middle of a
transfer.  `unguarded` follows a run and reports every register write that is not covered by a
status read: one since the last command byte or data word that showed BSY and DRQ clear.

The driver selects the drive, sends the command and flushes the cache without looking at the status
first.  So every register write of a read request is reported (`caught_ataPioRead`), and so is
every FLUSH CACHE (`caught_ataPioWrite`); a request is free of them only when it is empty
(`protocol_safe_iff`).
-/

set_option autoImplicit false

namespace Aetherion.Ata

open Driver Driver.Prog

/-! ## The protocol -/

/-- BSY and DRQ are clear. -/
def idle (status : UInt8) : Bool := status &&& 0x88 = 0

/-- A write to the command register or to another register of the task file: which, and what. -/
def registerWrite (base : UInt16) : Exchange → Option (UInt16 × UInt8)
  | .out (.outb p v) => if 1 ≤ p - base ∧ p - base ≤ 7 then some (p - base, v) else none
  | _ => none

/-- The register writes that are not covered.  The state is whether the channel at `base` has been
seen idle since the last command byte or data word. -/
def unguarded (base : UInt16) : Observer machine Bool (UInt16 × UInt8) where
  step seen e :=
    (match e with
      | .out (.outb p _) => if p - base = 7 then false else seen
      | .out (.outw p _) => if p = base then false else seen
      | .inp (.inw p) _ => if p = base then false else seen
      | .inp (.inb p) status => seen || (p - base = 7 && idle status)
      | _ => seen,
      if seen then [] else (registerWrite base e).toList)

/-- A run keeps to the protocol.  Nothing is known of the channel when it starts. -/
def KeepsProtocol {α : Type} (p : Kernel α) (base : UInt16) (dev : Device machine)
    (h : Trace machine) : Prop := (unguarded base).reports false (p.trace dev h) = []

/-! ## What is caught -/

section
variable {base : UInt16} {keep : UInt16 × UInt8 → Bool} {h₀ h : Trace machine} {seen : Bool}

/-- Since `h₀`, all register writes of the kind asked for have been reported, and the channel has
been seen idle as `seen` says. -/
def Caught (base : UInt16) (keep : UInt16 × UInt8 → Bool) (h₀ : Trace machine) (seen : Bool)
    (h : Trace machine) : Prop :=
  ∃ t, h = h₀ ++ t ∧ (unguarded base).after false t = seen ∧
    ((unguarded base).reports false t).filter keep = (t.filterMap (registerWrite base)).filter keep

/-- The same, whatever has been seen. -/
def CaughtAll (base : UInt16) (keep : UInt16 × UInt8 → Bool) (h₀ : Trace machine)
    (h : Trace machine) : Prop := ∃ seen, Caught base keep h₀ seen h

theorem caught_refl : Caught base keep h₀ false h₀ := ⟨[], by simp, rfl, rfl⟩

/-- One more exchange that is reported if it is to be. -/
theorem Caught.push (hc : Caught base keep h₀ seen h) (e : Exchange)
    (he : seen = true → ∀ w ∈ registerWrite base e, keep w = false) :
    Caught base keep h₀ ((unguarded base).step seen e).1 (h ++ [e]) := by
  obtain ⟨t, rfl, hafter, hrep⟩ := hc
  refine ⟨t ++ [e], by rw [List.append_assoc], ?_, ?_⟩
  · rw [Observer.after_append, hafter]
    rfl
  · have hlast : ((unguarded base).reports seen [e]).filter keep =
        ([e].filterMap (registerWrite base)).filter keep := by
      have hstep : (unguarded base).reports seen [e] =
          if seen then [] else (registerWrite base e).toList := List.append_nil _
      rw [hstep]
      cases hw : registerWrite base e with
      | none => cases seen <;> simp [hw]
      | some w =>
        cases seen with
        | false => simp [hw]
        | true => simp [hw, he rfl w hw]
    rw [Observer.reports_append, List.filter_append, hrep, hafter, hlast, List.filterMap_append,
      List.filter_append]

/-- Register writes that nothing covers leave it so. -/
theorem Caught.outb (hc : Caught base keep h₀ false h) (p : UInt16) (v : UInt8) :
    Caught base keep h₀ false (h ++ [.out (.outb p v)]) := by
  have hpush := hc.push (.out (.outb p v)) (fun hf ↦ absurd hf Bool.false_ne_true)
  have hstep : ((unguarded base).step false (.out (.outb p v))).1 = false := ite_self _
  rwa [hstep] at hpush

/-- A byte that is not of the kind asked for. -/
theorem CaughtAll.outb (hc : CaughtAll base keep h₀ h) {reg : UInt16} {v : UInt8}
    (hkeep : keep (reg, v) = false) :
    CaughtAll base keep h₀ (h ++ [.out (.outb (base + reg) v)]) := by
  obtain ⟨seen, hc⟩ := hc
  refine ⟨_, hc.push _ fun _ w hw ↦ ?_⟩
  rw [registerWrite, register_of_port, Option.mem_def, Option.ite_none_right_eq_some] at hw
  rw [← Option.some.inj hw.2, hkeep]

theorem CaughtAll.inp (hc : CaughtAll base keep h₀ h) (i : In) (r : Reply i) :
    CaughtAll base keep h₀ (h ++ [.inp i r]) := by
  obtain ⟨seen, hc⟩ := hc
  exact ⟨_, hc.push _ fun _ w hw ↦ nomatch hw⟩

/-! ## The parts of a request -/

variable {dev : Device machine}

/-- A read of a data word. -/
theorem triple_inw : Triple dev (CaughtAll base keep h₀) (inw base)
    (fun _ ↦ Caught base keep h₀ false) := by
  refine triple_ask fun h hc ↦ ?_
  obtain ⟨seen, hc⟩ := hc
  have hpush := hc.push (.inp (.inw base) (dev h (.inw base))) fun _ w hw ↦ nomatch hw
  have hstep : ((unguarded base).step seen (.inp (.inw base) (dev h (.inw base)))).1 = false :=
    if_pos rfl
  rwa [hstep] at hpush

/-- A write of one. -/
theorem triple_outw (w : UInt16) : Triple dev (CaughtAll base keep h₀) (outw base w)
    (fun _ ↦ Caught base keep h₀ false) := by
  refine triple_emit fun h hc ↦ ?_
  obtain ⟨seen, hc⟩ := hc
  have hpush := hc.push (.out (.outw base w)) fun _ w hw ↦ nomatch hw
  have hstep : ((unguarded base).step seen (.out (.outw base w))).1 = false := if_pos rfl
  rwa [hstep] at hpush

/-- The words of a sector. -/
theorem triple_words {σ : Type} {body : ℕ → σ → Kernel σ}
    (hbody : ∀ i a, Triple dev (CaughtAll base keep h₀) (body i a)
      (fun _ ↦ Caught base keep h₀ false)) (a : σ) :
    Triple dev (CaughtAll base keep h₀) (forEach body 256 0 a)
      (fun _ ↦ Caught base keep h₀ false) := by
  refine (triple_forEach (fun i _ h ↦ CaughtAll base keep h₀ h ∧
    (0 < i → Caught base keep h₀ false h)) 256 0 fun i a _ _ ↦ ?_).mono
    (fun h hc ↦ ⟨hc, fun hpos ↦ absurd hpos (Nat.lt_irrefl 0)⟩) fun _ h hc ↦ hc.2 (by decide)
  exact (hbody i a).mono (fun h hc ↦ hc.1) fun _ h hc ↦ ⟨⟨false, hc⟩, fun _ ↦ hc⟩

/-- Waiting reads the status, and nothing else. -/
theorem triple_of_reads {α : Type} {p : Kernel α} (hp : Emits (fun e ↦ ∃ i r, e = .inp i r) p) :
    Triple dev (CaughtAll base keep h₀) p (fun _ ↦ CaughtAll base keep h₀) := by
  refine triple_of_emits hp fun h e he hc ↦ ?_
  obtain ⟨i, r, rfl⟩ := he
  exact hc.inp i r

theorem reads_ataWaitReady (timeoutMs : UInt32) :
    Emits (fun e ↦ ∃ i r, e = .inp i r) (ataWaitReady base timeoutMs) := by
  refine (emits_forLoop (fun _ _ ↦ ?_) _ _ _).bind fun r ↦ by cases r <;> exact emits_pure _
  exact (emits_ask fun r ↦ ⟨_, r, rfl⟩).bind fun _ ↦ .ite (emits_pure _) (emits_pure _)

theorem reads_ataWaitDrq (timeoutMs : UInt32) :
    Emits (fun e ↦ ∃ i r, e = .inp i r) (ataWaitDrq base timeoutMs) := by
  refine (emits_forLoop (fun _ _ ↦ ?_) _ _ _).bind fun r ↦ by cases r <;> exact emits_pure _
  exact (emits_ask fun r ↦ ⟨_, r, rfl⟩).bind fun _ ↦
    .ite (emits_pure _) (.ite (emits_pure _) (emits_pure _))

/-- A command is register writes, and its last byte is the command's own. -/
theorem writes_ataCommand {E : Exchange → Prop} (lba : UInt64) (lba48 : Bool) {ext short : UInt8}
    (hregister : ∀ reg v, reg ≠ 7 → E (.out (.outb (base + reg) v)))
    (hcommand : ∀ v ∈ [ext, short], E (.out (.outb (base + 7) v))) :
    Emits E (ataCommand base lba lba48 ext short) := by
  have hwrite {reg : UInt16} (hreg : reg ≠ 7) (v : UInt8) : Emits E (outb (base + reg) v) :=
    emits_emit (hregister reg v hreg)
  refine Emits.bind (.bind (.ite ?_ (emits_pure _)) fun _ ↦ hwrite (by decide) _) fun _ ↦ ?_
  · exact (hwrite (by decide) _).bind fun _ ↦ (hwrite (by decide) _).bind fun _ ↦
      (hwrite (by decide) _).bind fun _ ↦ (hwrite (by decide) _).bind fun _ ↦ hwrite (by decide) _
  · refine Emits.bind (.ite (hwrite (by decide) _) (emits_pure _)) fun _ ↦ ?_
    refine (hwrite (by decide) _).bind fun _ ↦ (hwrite (by decide) _).bind fun _ ↦ ?_
    refine (hwrite (by decide) _).bind fun _ ↦ (hwrite (by decide) _).bind fun _ ↦ ?_
    exact emits_emit (hcommand _ (by cases lba48 <;> simp))

/-- Nothing covers the writes of a command that comes after a data word. -/
theorem triple_ataCommand (lba : UInt64) (lba48 : Bool) (ext short : UInt8) :
    Triple dev (Caught base keep h₀ false) (ataCommand base lba lba48 ext short)
      (fun _ ↦ Caught base keep h₀ false) := by
  refine triple_of_emits (E := fun e : Exchange ↦ ∃ p v, e = .out (.outb p v))
    (writes_ataCommand lba lba48 (fun _ _ _ ↦ ⟨_, _, rfl⟩) fun _ _ ↦ ⟨_, _, rfl⟩) ?_
  rintro h e ⟨p, v, rfl⟩ hc
  exact hc.outb p v

/-- **All of a read request.** -/
theorem caught_ataPioRead (lba : UInt64) (count : UInt32) (buffer : UInt32 → UInt16)
    (lba48 : Bool) :
    Triple dev (Caught base keep h₀ false) (ataPioRead base lba count buffer lba48)
      (fun _ ↦ CaughtAll base keep h₀) := by
  refine (triple_forLoop (fun _ _ ↦ Caught base keep h₀ false) (fun _ ↦ CaughtAll base keep h₀)
    _ 0 fun sector buf _ _ ↦ ?_).bind fun r ↦ ?_
  · refine (triple_ataCommand _ lba48 _ _).bind fun _ ↦ ?_
    refine ((triple_of_reads (reads_ataWaitDrq 500)).mono (fun h hc ↦ ⟨false, hc⟩)
      fun _ h hc ↦ hc).bind fun drq ↦ .ite (fun _ ↦ triple_pure fun h hc ↦ hc) fun _ ↦ ?_
    refine (triple_words (fun i buf ↦ ?_) _).bind fun _ ↦ triple_pure fun h hc ↦ hc
    exact triple_inw.bind fun _ ↦ triple_pure fun h hc ↦ hc
  · cases r with
    | error buf => exact triple_pure fun h hc ↦ hc
    | ok buf => exact triple_pure fun h hc ↦ ⟨false, hc⟩

/-- FLUSH CACHE. -/
def isFlush (w : UInt16 × UInt8) : Bool := w = (7, 0xE7)

/-- **The flushes of a write request**, which come right after the data of a sector. -/
theorem caught_ataPioWrite (lba : UInt64) (count : UInt32) (buffer : UInt32 → UInt16)
    (lba48 : Bool) :
    Triple dev (CaughtAll base isFlush h₀) (ataPioWrite base lba count buffer lba48)
      (fun _ ↦ CaughtAll base isFlush h₀) := by
  refine (triple_forLoop (fun _ _ ↦ CaughtAll base isFlush h₀) (fun _ ↦ CaughtAll base isFlush h₀)
    _ 0 fun sector _ _ _ ↦ ?_).bind fun r ↦ ?_
  · refine Triple.bind (triple_of_emits (E := fun e : Exchange ↦ ∃ reg v,
      e = .out (.outb (base + reg) v) ∧ isFlush (reg, v) = false) ?_ ?_) fun _ ↦ ?_
    · refine writes_ataCommand _ lba48 (fun reg v hreg ↦ ⟨reg, v, rfl, ?_⟩)
        fun v hv ↦ ⟨7, v, rfl, ?_⟩
      · simp [isFlush, hreg]
      · rcases List.mem_pair.mp hv with rfl | rfl
        · rfl
        · rfl
    · rintro h e ⟨reg, v, rfl, hkeep⟩ hc
      exact hc.outb hkeep
    refine (triple_of_reads (reads_ataWaitDrq 500)).bind fun drq ↦
      .ite (fun _ ↦ triple_pure fun h hc ↦ hc) fun _ ↦ ?_
    refine (triple_words (fun i _ ↦ triple_outw _) _).bind fun _ ↦ ?_
    have hflush : Triple dev (Caught base isFlush h₀ false) (outb (base + 7) 0xE7)
        (fun _ ↦ CaughtAll base isFlush h₀) :=
      triple_emit fun h hc ↦ ⟨false, hc.outb (base + 7) 0xE7⟩
    refine hflush.bind fun _ ↦ ?_
    exact (triple_of_reads (reads_ataWaitReady 1000)).bind fun _ ↦ triple_pure fun h hc ↦ hc
  · cases r with
    | error _ => exact triple_pure fun h hc ↦ hc
    | ok _ => exact triple_pure fun h hc ↦ hc

end

/-- In a run that has been followed from its start, what is caught is what the run wrote. -/
theorem CaughtAll.reports_eq {base : UInt16} {keep : UInt16 × UInt8 → Bool} {h t : Trace machine}
    (hc : CaughtAll base keep h (h ++ t)) :
    ((unguarded base).reports false t).filter keep =
      (t.filterMap (registerWrite base)).filter keep := by
  obtain ⟨seen, t', ht, -, hrep⟩ := hc
  rw [List.append_cancel_left ht]
  exact hrep

/-- **FLUSH CACHE is never covered**: no write request reads the status between the last word of a
sector and the flush that follows it. -/
theorem flushes_unguarded (base : UInt16) (lba : UInt64) (count : UInt32)
    (buffer : UInt32 → UInt16) (lba48 : Bool) (dev : Device machine) (h : Trace machine) :
    let t := (ataPioWrite base lba count buffer lba48).trace dev h
    ((unguarded base).reports false t).filter isFlush =
      (t.filterMap (registerWrite base)).filter isFlush :=
  (caught_ataPioWrite lba count buffer lba48 h ⟨false, caught_refl⟩).reports_eq

/-- **Nothing that a read request writes is covered.** -/
theorem reads_unguarded (base : UInt16) (lba : UInt64) (count : UInt32)
    (buffer : UInt32 → UInt16) (lba48 : Bool) (dev : Device machine) (h : Trace machine) :
    let t := (ataPioRead base lba count buffer lba48).trace dev h
    (unguarded base).reports false t = t.filterMap (registerWrite base) := by
  have hcaught : Triple dev (Caught base (fun _ ↦ true) h false)
      (ataPioRead base lba count buffer lba48) (fun _ ↦ CaughtAll base (fun _ ↦ true) h) :=
    caught_ataPioRead lba count buffer lba48
  simpa using (hcaught h caught_refl).reports_eq

/-! ## Requests -/

section
variable {base : UInt16} {dev : Device machine} {h : Trace machine} {α β : Type}

/-- What starts with a breach of the protocol is one. -/
theorem not_keepsProtocol_bind {p : Kernel α} (hp : ¬KeepsProtocol p base dev h)
    (f : α → Kernel β) : ¬KeepsProtocol (p >>= f) base dev h := by
  rw [KeepsProtocol, trace_bind, Observer.reports_append, List.append_eq_nil_iff]
  exact fun hnil ↦ hp hnil.1

theorem not_keepsProtocol_ataCommand (lba : UInt64) (lba48 : Bool) (ext short : UInt8) :
    ¬KeepsProtocol (ataCommand base lba lba48 ext short) base dev h := by
  have hwrite (reg : UInt16) (hreg : 1 ≤ reg ∧ reg ≤ 7) (v : UInt8) :
      ¬KeepsProtocol (outb (base + reg) v) base dev h := by
    have hrep : (unguarded base).reports false ((outb (base + reg) v).trace dev h) =
        (if 1 ≤ base + reg - base ∧ base + reg - base ≤ 7 then
          some (base + reg - base, v) else none).toList ++ [] := rfl
    rw [KeepsProtocol, hrep, register_of_port, if_pos hreg]
    exact List.cons_ne_nil _ _
  refine not_keepsProtocol_bind ?_ _
  cases lba48 with
  | true => exact not_keepsProtocol_bind (not_keepsProtocol_bind (hwrite 1 (by decide) _) _) _
  | false => exact hwrite 6 (by decide) _

/-- A request for a sector or more starts with a command. -/
theorem not_keepsProtocol_forLoop {ε σ : Type} {body : ℕ → σ → Kernel (Except ε σ)} {a : σ}
    (hbody : ¬KeepsProtocol (body 0 a) base dev h) {count : UInt32} (hcount : count ≠ 0)
    (f : Except ε σ → Kernel β) :
    ¬KeepsProtocol (forLoop body count.toNat 0 a >>= f) base dev h := by
  obtain ⟨n, hn⟩ := Nat.exists_eq_succ_of_ne_zero
    (fun hzero ↦ hcount (UInt32.toNat_inj.mp hzero) : count.toNat ≠ 0)
  rw [hn]
  exact not_keepsProtocol_bind (not_keepsProtocol_bind hbody _) _

end

/-- **A request keeps to the protocol** only when it asks for no sector. -/
theorem protocol_safe_iff (base : UInt16) (lba : UInt64) (count : UInt32)
    (buffer : UInt32 → UInt16) (lba48 : Bool) (dev : Device machine) (h : Trace machine) :
    (KeepsProtocol (ataPioRead base lba count buffer lba48) base dev h ↔ count = 0) ∧
      (KeepsProtocol (ataPioWrite base lba count buffer lba48) base dev h ↔ count = 0) := by
  constructor
  · refine ⟨fun hkeeps ↦ by_contra fun hcount ↦ ?_, fun hcount ↦ by rw [hcount]; rfl⟩
    exact not_keepsProtocol_forLoop (not_keepsProtocol_bind
      (not_keepsProtocol_ataCommand _ lba48 0x24 0x20) _) hcount _ hkeeps
  · refine ⟨fun hkeeps ↦ by_contra fun hcount ↦ ?_, fun hcount ↦ by rw [hcount]; rfl⟩
    exact not_keepsProtocol_forLoop (not_keepsProtocol_bind
      (not_keepsProtocol_ataCommand _ lba48 0x34 0x30) _) hcount _ hkeeps

/-- Writing one sector to a drive that is always busy. -/
theorem write_to_busy_drive :
    ¬KeepsProtocol (ataPioWrite 0x1F0 0 1 (fun _ ↦ 0) false) 0x1F0 (steadyMachine 0x80 0 0) [] :=
  not_keepsProtocol_forLoop (not_keepsProtocol_bind
    (not_keepsProtocol_ataCommand _ false 0x34 0x30) _) (by decide) _

end Aetherion.Ata
