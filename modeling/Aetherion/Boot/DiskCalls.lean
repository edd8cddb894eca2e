import Aetherion.Boot.Stage2

/-!
# The disk calls of stage 2

What the parts of stage 2 ask the BIOS and the processor for (`diskCalls`, `cpuids`), in the order
of the code: the rest of what they do is quiet.  A pass through the loop of `read_chs` makes the
call that `readChsPass` says (`ensures_readChsLoop`).
-/

set_option autoImplicit false

namespace Aetherion.Boot.Stage2

open RealMode Driver Driver.Prog

/-! ## What a run has asked for -/

/-- The disk calls, with their replies. -/
def diskCalls (t : Trace bios) : List (Regs × Regs) :=
  t.filterMap fun
    | .inp (.int13 r) r' => some (r, r')
    | _ => none

/-- The uses of `cpuid`, with the replies. -/
def cpuids (t : Trace bios) : List (UInt32 × Cpuid) :=
  t.filterMap fun
    | .inp (.cpuid leaf) r => some (leaf, r)
    | _ => none

/-- The calls that read sectors without a packet. -/
def reads (calls : List (Regs × Regs)) : List (Regs × Regs) := calls.filter (·.1.call.ah = 0x02)

/-- `cpuid` has reported long mode. -/
def HasLongMode (l : List (UInt32 × Cpuid)) : Prop :=
  ∃ largest features, l = [(0x80000000, largest), (0x80000001, features)] ∧
    0x80000001 ≤ largest.eax ∧ features.edx &&& lmBit ≠ 0

section
variable {t u : Trace bios} {pre chunks : List (Regs × Regs)}

theorem diskCalls_append : diskCalls (t ++ u) = diskCalls t ++ diskCalls u :=
  List.filterMap_append

theorem cpuids_append : cpuids (t ++ u) = cpuids t ++ cpuids u := List.filterMap_append

theorem reads_append : reads (pre ++ chunks) = reads pre ++ reads chunks := List.filter_append ..

end

/-! ## Code that asks for nothing -/

/-- The variables are as they were, and there has been no disk call and no `cpuid`. -/
structure Quiet (s : State) (h : Trace bios) (s' : State) (h' : Trace bios) : Prop where
  vars : s'.vars = s.vars
  calls : diskCalls h' = diskCalls h
  cpuids : cpuids h' = cpuids h

theorem Quiet.refl (s : State) (h : Trace bios) : Quiet s h s h := ⟨rfl, rfl, rfl⟩

theorem Quiet.trans {s s' s'' : State} {h h' h'' : Trace bios} (hs : Quiet s h s' h')
    (hs' : Quiet s' h' s'' h'') : Quiet s h s'' h'' :=
  ⟨hs'.vars.trans hs.vars, hs'.calls.trans hs.calls, hs'.cpuids.trans hs.cpuids⟩

/-- The code is quiet, and does not stop. -/
def IsQuiet {α : Type} (c : Code α) : Prop := ∀ dev s h,
  Ensures dev c (fun _ s' h' ↦ Quiet s h s' h') (fun _ _ ↦ False) s h

section
variable {α β : Type} {dev : Device bios} {c : Code α} {f : α → Code β}
  {Q : α → State → Trace bios → Prop} {E : Stop → Trace bios → Prop} {s : State} {h : Trace bios}

theorem IsQuiet.ensures (hc : IsQuiet c) (hQ : ∀ a s' h', Quiet s h s' h' → Q a s' h') :
    Ensures dev c Q E s h := (hc dev s h).mono hQ fun _ _ ↦ False.elim

theorem IsQuiet.bind (hc : IsQuiet c) (hf : ∀ a, IsQuiet (f a)) : IsQuiet (c >>= f) :=
  fun dev _ _ ↦ ensures_bind (hc.ensures fun a s' h' hs ↦
    (hf a dev s' h').mono (fun _ _ _ hs' ↦ hs.trans hs') fun _ _ ↦ id)

theorem isQuiet_get : IsQuiet (get : Code State) := fun _ s h ↦ ensures_get (.refl s h)

theorem isQuiet_modify {g : State → State} (hg : ∀ s, (g s).vars = s.vars) :
    IsQuiet (modify g : Code Unit) := fun _ s _ ↦ ensures_modify ⟨hg s, rfl, rfl⟩

/-- One more instruction on registers. -/
theorem isQuiet_modify_then {g : State → State} (hg : ∀ s, (g s).vars = s.vars) (hc : IsQuiet c) :
    IsQuiet (do modify g; c) := (isQuiet_modify hg).bind fun _ ↦ hc

theorem isQuiet_get_then {f : State → Code α} (hf : ∀ s, IsQuiet (f s)) :
    IsQuiet (do let s ← get; f s) := isQuiet_get.bind hf

theorem isQuiet_emit (o : Out) : IsQuiet (emit o) := fun _ _ _ ↦
  ensures_emit ⟨rfl, by rw [diskCalls_append]; exact List.append_nil _,
    by rw [cpuids_append]; exact List.append_nil _⟩

/-- A question that is neither a disk call nor a `cpuid`. -/
theorem isQuiet_ask {i : In} (hcalls : ∀ r, diskCalls [.inp i r] = [])
    (hcpuids : ∀ r, cpuids [.inp i r] = []) : IsQuiet (ask i) := fun _ _ _ ↦ ensures_ask fun r ↦
  ⟨rfl, by rw [diskCalls_append, hcalls, List.append_nil],
    by rw [cpuids_append, hcpuids, List.append_nil]⟩

theorem isQuiet_teletype : IsQuiet teletype :=
  isQuiet_modify_then (fun _ ↦ rfl) (isQuiet_get_then fun _ ↦ isQuiet_emit _)

theorem isQuiet_dbgPutc (L : Labels) (site : Site) : IsQuiet (dbgPutc L site) :=
  isQuiet_modify_then (fun _ ↦ rfl) isQuiet_teletype

theorem isQuiet_dbgPutNibble : IsQuiet dbgPutNibble :=
  isQuiet_modify_then (fun _ ↦ rfl)
    (isQuiet_modify_then (fun s ↦ by split <;> rfl) isQuiet_teletype)

theorem isQuiet_dbgPutHex : IsQuiet dbgPutHex :=
  isQuiet_get_then fun _ ↦ isQuiet_modify_then (fun _ ↦ rfl)
    (isQuiet_dbgPutNibble.bind fun _ ↦ isQuiet_modify_then (fun _ ↦ rfl) isQuiet_dbgPutNibble)

theorem isQuiet_print (text : List UInt8) : IsQuiet (print text) := by
  induction text with
  | nil => exact isQuiet_modify fun _ ↦ rfl
  | cons c text ih =>
    exact isQuiet_modify_then (fun _ ↦ rfl) (isQuiet_teletype.bind fun _ ↦ ih)

/-- A message changes nothing but the end. -/
theorem ensures_die {L : Labels} {site : Site} {msg : UInt16} {Q : Unit → State → Trace bios → Prop}
    (hE : ∀ h', diskCalls h' = diskCalls h → cpuids h' = cpuids h → E .halted h') :
    Ensures dev (die L site msg) Q E s h := by
  refine ensures_bind ((isQuiet_dbgPutc L site).ensures fun _ s₁ h₁ hs₁ ↦ ?_)
  refine ensures_bind (ensures_modify (ensures_bind ((isQuiet_print _).ensures ?_)))
  intro _ s₂ h₂ hs₂
  exact ensures_throw (hE h₂ (hs₂.calls.trans hs₁.calls) (hs₂.cpuids.trans hs₁.cpuids))

end

/-! ## One disk call -/

section
variable {dev : Device bios} {Q : Unit → State → Trace bios → Prop} {E : Stop → Trace bios → Prop}
  {s : State} {h : Trace bios} {calls : List (Regs × Regs)}

/-- The call is made, and the reply decides how it goes on. -/
theorem ensures_int13 (hstop : ∀ r h', diskCalls h' = diskCalls h ++ [(s.toRegs, r)] →
      Overwrites s.call → E .overwritten h')
    (hQ : ∀ r h', diskCalls h' = diskCalls h ++ [(s.toRegs, r)] → cpuids h' = cpuids h →
      ¬Overwrites s.call → Q () { s with toRegs := r } h') : Ensures dev int13 Q E s h := by
  refine ensures_bind (ensures_get (ensures_bind (ensures_ask fun (r : Regs) ↦ ?_)))
  have hcalls : diskCalls (h ++ [.inp (.int13 s.toRegs) r]) = diskCalls h ++ [(s.toRegs, r)] :=
    diskCalls_append
  have hcpuids : cpuids (h ++ [.inp (.int13 s.toRegs) r]) = cpuids h := by
    rw [cpuids_append]
    exact List.append_nil _
  exact ensures_ite (fun hover ↦ ensures_throw (hstop r _ hcalls hover)) fun hover ↦
    ensures_modify (hQ r _ hcalls hcpuids hover)

/-! ## The parts of stage 2 -/

/-- A call of this function, for the boot drive. -/
def IsCall (ah : UInt8) (v : Chs) (r : Regs) : Prop := r.call.ah = ah ∧ r.call.dl = v.bootDrive

/-- The registers are loaded for a call that reads no sectors, and it is made. -/
theorem ensures_call {α : Type} {g : State → State} {rest : Code α}
    {Q : α → State → Trace bios → Prop} (ah : UInt8) (hah : ah ≠ 0x02)
    (hg : ∀ s, (g s).vars = s.vars ∧ IsCall ah s.vars (g s).toRegs)
    (hQ : ∀ c s' h', IsCall ah s.vars c → diskCalls h' = diskCalls h ++ [(c, s'.toRegs)] →
      cpuids h' = cpuids h → s'.vars = s.vars → Ensures dev rest Q E s' h') :
    Ensures dev (do modify g; int13; rest) Q E s h := by
  obtain ⟨hvars, hcall⟩ := hg s
  refine ensures_bind (ensures_modify (ensures_bind (ensures_int13 ?_ ?_)))
  · exact fun _ _ _ hover ↦ absurd (hcall.1.symm.trans hover.1) hah
  · exact fun r h' hcalls hcpuids _ ↦ hQ _ _ h' hcall hcalls hcpuids hvars

theorem ensures_getDriveParams (hQ : ∀ c r s' h', IsCall 0x08 s.vars c →
      diskCalls h' = diskCalls h ++ [(c, r)] → cpuids h' = cpuids h → s'.vars = r.params s.vars →
      Q () s' h') : Ensures dev getDriveParams Q E s h := by
  refine ensures_bind (ensures_get (ensures_call 0x08 (by decide)
    (fun s ↦ ⟨rfl, high_setHigh .., low_setLow ..⟩) fun c s₁ h₁ hc hcalls hcpuids hvars ↦ ?_))
  refine ensures_bind (ensures_modify (ensures_modify ?_))
  exact hQ c s₁.toRegs _ h₁ hc hcalls hcpuids (congrArg s₁.params hvars)

theorem ensures_cpuid {leaf : UInt32} {Q : Cpuid → State → Trace bios → Prop}
    (hQ : ∀ r s' h', s'.vars = s.vars → diskCalls h' = diskCalls h →
      cpuids h' = cpuids h ++ [(leaf, r)] → Q r s' h') : Ensures dev (cpuid leaf) Q E s h := by
  refine ensures_bind (ensures_ask fun r ↦ ensures_bind (ensures_modify (ensures_pure ?_)))
  refine hQ r _ _ rfl ?_ cpuids_append
  rw [diskCalls_append]
  exact List.append_nil _

/-- The carry flag says whether there is no long mode. -/
theorem ensures_checkCpu64 (hnone : cpuids h = [])
    (hQ : ∀ s' h', s'.vars = s.vars → diskCalls h' = diskCalls h →
      (s'.cf = false ↔ HasLongMode (cpuids h')) → Q () s' h') : Ensures dev checkCpu64 Q E s h := by
  have hshort {l : List (UInt32 × Cpuid)} (hl : l.length < 2) : ¬HasLongMode l := by
    rintro ⟨largest, features, rfl, -⟩
    exact absurd hl (by simp)
  have hpushfd : IsQuiet pushfd := isQuiet_ask (fun _ ↦ rfl) fun _ ↦ rfl
  refine ensures_bind (hpushfd.ensures fun eflags s₁ h₁ hs₁ ↦ ?_)
  refine ensures_bind ((isQuiet_emit _).ensures fun _ s₂ h₂ hs₂ ↦ ?_)
  refine ensures_bind (hpushfd.ensures fun eflags' s₃ h₃ hs₃ ↦ ?_)
  refine ensures_bind ((isQuiet_emit _).ensures fun _ s₄ h₄ hs₄ ↦ ?_)
  have hquiet := ((hs₁.trans hs₂).trans hs₃).trans hs₄
  have hcpuids := hquiet.cpuids.trans hnone
  refine ensures_bind (ensures_modify (ensures_ite (fun _ ↦ ensures_modify ?_) fun _ ↦ ?_))
  · refine hQ _ h₄ hquiet.vars hquiet.calls (iff_of_false (by simp) (hshort ?_))
    rw [hcpuids]
    exact Nat.two_pos
  refine ensures_bind (ensures_cpuid fun largest s₅ h₅ hvars₅ hcalls₅ hcpuids₅ ↦ ?_)
  rw [hcpuids, List.nil_append] at hcpuids₅
  refine ensures_ite (fun _ ↦ ensures_modify ?_) fun hlargest ↦ ?_
  · refine hQ _ h₅ (hvars₅.trans hquiet.vars) (hcalls₅.trans hquiet.calls)
      (iff_of_false (by simp) (hshort ?_))
    rw [hcpuids₅]
    exact Nat.one_lt_two
  refine ensures_bind (ensures_cpuid fun features s₆ h₆ hvars₆ hcalls₆ hcpuids₆ ↦ ?_)
  rw [hcpuids₅] at hcpuids₆
  have hvars := hvars₆.trans (hvars₅.trans hquiet.vars)
  have hcalls := hcalls₆.trans (hcalls₅.trans hquiet.calls)
  refine ensures_ite (fun hlm ↦ ensures_modify ?_) fun hlm ↦ ensures_modify ?_
  · refine hQ _ h₆ hvars hcalls (iff_of_false (by simp) ?_)
    rintro ⟨largest', features', hl, -, hfeatures⟩
    rw [hcpuids₆] at hl
    simp only [List.singleton_append, List.cons.injEq, Prod.mk.injEq, true_and, and_true] at hl
    exact hfeatures (hl.2 ▸ hlm)
  · exact hQ _ h₆ hvars hcalls (iff_of_true rfl
      ⟨largest, features, hcpuids₆, UInt32.not_lt.mp hlargest, hlm⟩)

section
variable {L : Labels}

theorem ensures_checkLba {Q : Bool → State → Trace bios → Prop}
    (hQ : ∀ b c r s' h', IsCall 0x41 s.vars c → diskCalls h' = diskCalls h ++ [(c, r)] →
      cpuids h' = cpuids h → s'.vars = s.vars → Q b s' h') :
    Ensures dev (checkLba L) Q E s h := by
  refine ensures_bind ((isQuiet_dbgPutc L .lbaChk).ensures fun _ s₁ h₁ hs₁ ↦ ?_)
  refine ensures_call 0x41 (by decide) (fun s ↦ ⟨rfl, high_setHigh .., low_setLow ..⟩)
    fun c s₂ h₂ hc hcalls hcpuids hvars ↦ ensures_bind (ensures_get (ensures_pure ?_))
  rw [hs₁.vars] at hc
  rw [hs₁.calls] at hcalls
  exact hQ _ c _ s₂ h₂ hc hcalls (hcpuids.trans hs₁.cpuids) (hvars.trans hs₁.vars)

/-- The packet has been read unless the call has failed. -/
theorem ensures_readLba {Q : Bool → State → Trace bios → Prop}
    (hQ : ∀ c r s' h', IsCall 0x42 s.vars c → diskCalls h' = diskCalls h ++ [(c, r)] →
      cpuids h' = cpuids h → s'.vars = s.vars → Q (!r.cf) s' h') :
    Ensures dev (readLba L) Q E s h := by
  refine ensures_bind ((isQuiet_dbgPutc L .lbaOk).ensures fun _ s₁ h₁ hs₁ ↦ ?_)
  refine ensures_bind ((isQuiet_dbgPutc L .lbaRead).ensures fun _ s₂ h₂ hs₂ ↦ ?_)
  have hs := hs₁.trans hs₂
  refine ensures_call 0x42 (by decide) (fun s ↦ ⟨rfl, high_setHigh .., low_setLow ..⟩)
    fun c s₃ h₃ hc hcalls hcpuids hvars ↦ ensures_bind (ensures_get ?_)
  rw [hs.vars] at hc
  rw [hs.calls] at hcalls
  have hend {s' : State} {h' : Trace bios} (hs' : Quiet s₃ h₃ s' h') : Q (!s₃.cf) s' h' :=
    hQ c s₃.toRegs s' h' hc (hs'.calls.trans hcalls)
      (hs'.cpuids.trans (hcpuids.trans hs.cpuids)) (hs'.vars.trans (hvars.trans hs.vars))
  refine ensures_ite (fun hcf ↦ ?_) fun hcf ↦ ?_
  · refine ensures_bind (ensures_modify (ensures_bind (isQuiet_dbgPutHex.ensures ?_)))
    intro _ s₄ h₄ hs₄
    refine ensures_bind ((isQuiet_dbgPutc L .lbaError).ensures fun _ s₅ h₅ hs₅ ↦ ensures_pure ?_)
    have hlast : Q (!s₃.cf) s₅ h₅ := hend ⟨hs₅.vars.trans hs₄.vars, hs₅.calls.trans hs₄.calls,
      hs₅.cpuids.trans hs₄.cpuids⟩
    rwa [hcf] at hlast
  · refine ensures_bind ((isQuiet_dbgPutc L .lbaDone).ensures fun _ s₄ h₄ hs₄ ↦ ensures_pure ?_)
    have hlast := hend hs₄
    rwa [Bool.eq_false_iff.mpr hcf] at hlast

/-! ## A pass through the loop -/

theorem setHigh_char (r : UInt16) : setHigh (setLow r Site.chsLoop.char) 0x0E = dbgPutcAx 0x49 := by
  have hlow := congrArg UInt8.toNat (low_setLow r Site.chsLoop.char)
  rw [low, UInt16.toNat_toUInt8] at hlow
  rw [← UInt16.toNat_inj, toNat_setHigh, hlow]
  rfl

theorem call_loadCall (s : State) : (loadCall s).call = s.vars.int13 := by
  simp only [Regs.call, loadCall, Chs.int13, high_setLow, high_setHigh, low_setLow]

/-- AX after the debug character of the loop. -/
theorem ensures_chsLoop (hQ : ∀ s' h', Quiet s h s' h' → s'.ax = dbgPutcAx 0x49 → Q () s' h') :
    Ensures dev (dbgPutc L .chsLoop) Q E s h := by
  refine ensures_bind (ensures_modify (ensures_bind (ensures_modify (ensures_bind
    (ensures_get (ensures_emit (hQ _ _ ⟨rfl, ?_, ?_⟩ (setHigh_char _))))))))
  · rw [diskCalls_append]
    exact List.append_nil _
  · rw [cpuids_append]
    exact List.append_nil _

/-- The size of a chunk, which is always the largest. -/
theorem ensures_chunkSize {rest : Code Unit} (hax : s.ax = dbgPutcAx 0x49)
    (hQ : ∀ s', s'.vars = { s.vars with cnt := 16 } → Ensures dev rest Q E s' h) :
    Ensures dev (do
      modify fun s ↦ { s with cx := maxChsRead }
      modify fun s ↦ if s.cx.toInt16 ≤ s.ax.toInt16 then s else { s with cx := s.ax }
      modify fun s ↦ { s with vars := { s.vars with cnt := s.cx } }
      rest) Q E s h := by
  refine ensures_bind (ensures_modify (ensures_bind (ensures_modify (ensures_bind
    (ensures_modify (hQ _ ?_))))))
  have hsize : maxChsRead.toInt16 ≤ s.ax.toInt16 := by
    rw [hax]
    decide
  rw [if_pos hsize]
  rfl

theorem readChsPass_fault {v : Chs} (hleft : v.left ≠ 0)
    (hv : lba2chs { v with cnt := 16 } = none) : readChsPass v = .fault := by
  have hsize : (if maxChsRead.toInt16 ≤ (dbgPutcAx 0x49).toInt16 then maxChsRead
      else dbgPutcAx 0x49) = 16 := by decide
  rw [readChsPass, if_neg hleft]
  simp only [hsize, hv]

/-- **One pass**: what `readChsPass` says, and a disk call for it. -/
theorem ensures_readChsLoop {n : ℕ}
    (hdone : readChsPass s.vars = .done → ∀ s', s'.cf = false → Q () s' h)
    (hfault : readChsPass s.vars = .fault → ∀ h', diskCalls h' = diskCalls h → E .divideError h')
    (hover : ∀ c call v r h', readChsPass s.vars = .read call v → c.call = call →
      diskCalls h' = diskCalls h ++ [(c, r)] → Overwrites call → E .overwritten h')
    (hfail : ∀ c call v s' h', readChsPass s.vars = .read call v → c.call = call →
      diskCalls h' = diskCalls h ++ [(c, s'.toRegs)] → cpuids h' = cpuids h → s'.cf = true →
      Q () s' h')
    (hread : ∀ c call v r s' h', readChsPass s.vars = .read call v → c.call = call →
      diskCalls h' = diskCalls h ++ [(c, r)] → cpuids h' = cpuids h → ¬Overwrites call →
      r.cf = false → s'.vars = v → Ensures dev (readChsLoop L n) Q E s' h') :
    Ensures dev (readChsLoop L (n + 1)) Q E s h := by
  refine ensures_bind (ensures_modify (ensures_bind (ensures_get (ensures_ite (fun hax ↦
    ensures_modify ?_) fun hax ↦ ensures_bind (ensures_chsLoop fun s₁ h₁ hs₁ hax₁ ↦ ?_)))))
  · have hleft : s.vars.left = 0 := hax
    exact hdone (by rw [readChsPass, if_pos hleft]) _ rfl
  have hleft : s.vars.left ≠ 0 := hax
  refine ensures_chunkSize hax₁ fun s₂ hvars₂ ↦ ensures_bind (ensures_bind (ensures_get ?_))
  have hvars : s₂.vars = { s.vars with cnt := 16 } := by rw [hvars₂, hs₁.vars]
  rw [hvars]
  cases hchs : lba2chs { s.vars with cnt := 16 } with
  | none => exact ensures_throw (hfault (readChsPass_fault hleft hchs) h₁ hs₁.calls)
  | some v =>
    have hpass := readChsPass_eq hleft hchs
    have hcall : (loadCall { s₂ with vars := v }).call = v.int13 := call_loadCall _
    refine ensures_modify (ensures_bind (ensures_modify (ensures_bind (ensures_int13 ?_ ?_))))
    · intro r h' hcalls hoverwrites
      rw [hs₁.calls] at hcalls
      exact hover _ _ _ r h' hpass hcall hcalls (hcall ▸ hoverwrites)
    · intro r h' hcalls hcpuids hoverwrites
      rw [hs₁.calls] at hcalls
      rw [hs₁.cpuids] at hcpuids
      refine ensures_bind (ensures_get (ensures_ite (fun hcf ↦ ensures_modify ?_) fun hcf ↦ ?_))
      · have hr : { r with cf := true } = r := congrArg (Regs.mk _ _ _ _ _ _ _) hcf.symm
        refine hfail _ _ _ _ h' hpass hcall (hcalls.trans ?_) hcpuids rfl
        exact congrArg (fun r ↦ diskCalls h ++ [(_, r)]) hr.symm
      · exact ensures_bind (ensures_modify (hread _ _ _ r _ h' hpass hcall hcalls hcpuids
          (hcall ▸ hoverwrites) (Bool.eq_false_iff.mpr hcf) rfl))

/-- A pass with nothing left to read. -/
theorem ensures_readChsLoop_done {n : ℕ} (hpass : readChsPass s.vars = .done)
    (hQ : ∀ s', s'.cf = false → Q () s' h) : Ensures dev (readChsLoop L (n + 1)) Q E s h := by
  refine ensures_readChsLoop (fun _ ↦ hQ) (fun hpass' ↦ ?_) (fun _ _ _ _ _ hpass' ↦ ?_)
    (fun _ _ _ _ _ hpass' ↦ ?_) fun _ _ _ _ _ _ hpass' ↦ ?_
  all_goals cases hpass.symm.trans hpass'

/-- A pass that divides by zero. -/
theorem ensures_readChsLoop_fault {n : ℕ} (hpass : readChsPass s.vars = .fault)
    (hE : ∀ h', diskCalls h' = diskCalls h → E .divideError h') :
    Ensures dev (readChsLoop L (n + 1)) Q E s h := by
  refine ensures_readChsLoop (fun hpass' ↦ ?_) (fun _ ↦ hE) (fun _ _ _ _ _ hpass' ↦ ?_)
    (fun _ _ _ _ _ hpass' ↦ ?_) fun _ _ _ _ _ _ hpass' ↦ ?_
  all_goals cases hpass.symm.trans hpass'

/-- A pass that reads. -/
theorem ensures_readChsLoop_read {n : ℕ} {call : Int13} {v : Chs}
    (hpass : readChsPass s.vars = .read call v)
    (hover : ∀ c r h', c.call = call → diskCalls h' = diskCalls h ++ [(c, r)] →
      Overwrites call → E .overwritten h')
    (hfail : ∀ c s' h', c.call = call → diskCalls h' = diskCalls h ++ [(c, s'.toRegs)] →
      cpuids h' = cpuids h → s'.cf = true → Q () s' h')
    (hread : ∀ c r s' h', c.call = call → diskCalls h' = diskCalls h ++ [(c, r)] →
      cpuids h' = cpuids h → ¬Overwrites call → r.cf = false → s'.vars = v →
      Ensures dev (readChsLoop L n) Q E s' h') :
    Ensures dev (readChsLoop L (n + 1)) Q E s h := by
  refine ensures_readChsLoop (fun hpass' ↦ by cases hpass.symm.trans hpass')
    (fun hpass' ↦ by cases hpass.symm.trans hpass') (fun c call' v' r h' hpass' ↦ ?_)
    (fun c call' v' s' h' hpass' ↦ ?_) fun c call' v' r s' h' hpass' ↦ ?_
  all_goals obtain ⟨rfl, rfl⟩ := Pass.read.inj (hpass.symm.trans hpass')
  · exact hover c r h'
  · exact hfail c s' h'
  · exact hread c r s' h'

end

end

end Aetherion.Boot.Stage2
