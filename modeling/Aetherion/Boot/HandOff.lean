import Aetherion.Boot.Stage1

/-!
# Handing over the boot drive

Stage 1 leaves the number of the boot drive for stage 2 at `0x7BFF`.  That is the highest byte of
its stack.  When it is written, DS has just been pushed there, and comes back with the drive in its
upper half; and the next call writes its return address to the same place.
-/

set_option autoImplicit false

namespace Aetherion.Boot

open RealMode Driver

/-! ## Balanced routines -/

/-- The variables that `get_drive_params` writes to. -/
def Labels.Params (L : Labels) (x : ℕ) : Prop :=
  x = L.heads.toNat ∨ x = L.heads.toNat + 1 ∨ x = L.secsTrk.toNat ∨ x = L.secsTrk.toNat + 1

variable {L : Labels} {fuel : ℕ} {s s' : Cpu} {free : ℕ → Prop}

/-- **A debug character** is balanced, but right below the stack it leaves the address it has
returned to. -/
theorem wp_callDbgPutc (c : Site) (hroom : Room free 0x7E00 2 s) :
    Wp (callDbgPutc L c) (fun _ s' ↦ Balanced free 0x7E00 s s' ∧ low s'.dx = low s.dx ∧
      s'.ram (linear s.ss s.sp - 1) = high (L.ret c + 1)) s := by
  have hle := hroom.le_sp
  obtain ⟨htop, hdrop⟩ := (Balanced.refl (s.push (L.ret c))).pop hroom
  refine wp_bind (wp_push (wp_bind ?_))
  refine wp_bind (wp_pop (wp_bind ?_))
  refine wp_modify_of (fun t ↦ Scratch (s.push (L.ret c)).drop t ∧ t.dx = s.dx ∧ t.si = L.ret c)
    ⟨⟨rfl, rfl, rfl, rfl⟩, rfl, htop⟩ fun t₁ ⟨ht₁, hdx₁, hsi₁⟩ ↦ wp_bind ?_
  refine wp_modify_of (fun t ↦ Scratch t₁ t ∧ t.dx = s.dx ∧ t.si = L.ret c + 1)
    ⟨⟨rfl, rfl, rfl, rfl⟩, hdx₁, congrArg (· + 1) hsi₁⟩ fun t₂ ⟨ht₂, hdx₂, hsi₂⟩ ↦ wp_bind ?_
  refine wp_get ?_
  rw [hsi₂]
  refine wp_bind (wp_push (wp_bind ?_))
  refine wp_modify_of (fun t ↦ Scratch (t₂.push (L.ret c + 1)) t ∧ t.dx = s.dx)
    ⟨⟨rfl, rfl, rfl, rfl⟩, hdx₂⟩ fun t₃ ⟨ht₃, hdx₃⟩ ↦ ?_
  refine wp_int fun t₄ ht₄ ↦ wp_bind (wp_pop ?_)
  have hbalanced : Balanced free 0x7E00 s t₂ := hdrop.trans (ht₁.balanced.trans ht₂.balanced)
  obtain ⟨htop₄, hdrop₄⟩ := (ht₃.balanced.trans ht₄.balanced).pop (hroom.balanced hbalanced)
  rw [if_pos htop₄]
  have hle₂ : 2 ≤ t₂.sp.toNat := (hroom.balanced hbalanced).le_sp
  have hlin : linear t₂.ss t₂.sp = linear s.ss s.sp := by rw [hbalanced.ss, hbalanced.sp]
  have hfin := hroom.le_fin
  have hsp : s.sp.toNat ≤ linear s.ss s.sp := Nat.le_add_left ..
  refine wp_pure ⟨hbalanced.trans hdrop₄, ?_, ?_⟩
  · have hdl : low t₄.dx = low t₃.dx := ht₄.dl fun h ↦ absurd h.1 (by decide)
    exact hdl.trans (congrArg low hdx₃)
  · -- the byte is above the stack pointer of the BIOS
    have hbyte : t₄.ram (linear s.ss s.sp - 1) = t₃.ram (linear s.ss s.sp - 1) :=
      ht₄.ram _ (by rw [ht₃.ss, ht₃.sp, linear_push hle₂, hlin]; omega) (by omega)
    exact hbyte.trans (by rw [ht₃.ram, ← hlin, ram_push_high hle₂])

/-- Any other routine, if it is balanced. -/
theorem wp_callAt {R : Cpu → Prop} {body : Stage1 Unit} (c : Site) (hroom : Room free 0x7E00 2 s)
    (hbody : Wp body (fun _ s' ↦ Balanced free 0x7E00 (s.push (L.ret c)) s' ∧ R s'.drop)
      (s.push (L.ret c))) :
    Wp (callAt L c body) (fun _ s' ↦ Balanced free 0x7E00 s s' ∧ R s') s := wp_call hroom hbody

/-- And one of which nothing else is needed. -/
theorem wp_callBalanced {body : Stage1 Unit} (c : Site) (hroom : Room free 0x7E00 2 s)
    (hbody : Wp body (fun _ s' ↦ Balanced free 0x7E00 (s.push (L.ret c)) s') (s.push (L.ret c))) :
    Wp (callAt L c body) (fun _ s' ↦ Balanced free 0x7E00 s s') s := by
  have hcall := wp_callAt (R := fun _ ↦ True) c hroom (hbody.mono fun _ _ h ↦ ⟨h, trivial⟩)
  exact hcall.mono fun _ _ h ↦ h.1

theorem wp_dbgPutNibble : Wp dbgPutNibble (fun _ s' ↦ Balanced free 0x7E00 s s') s := by
  have hfits (t : Cpu) : Scratch t (if low t.ax ≤ 0x39 then t
      else { t with ax := setLow t.ax (low t.ax + 7) }) := by
    split <;> exact ⟨rfl, rfl, rfl, rfl⟩
  refine wp_scratch (.refl s) (fun _ ↦ ⟨rfl, rfl, rfl, rfl⟩) fun t₁ ht₁ ↦ ?_
  refine wp_scratch ht₁ hfits fun t₂ ht₂ ↦ ?_
  refine wp_scratch ht₂ (fun _ ↦ ⟨rfl, rfl, rfl, rfl⟩) fun t₃ ht₃ ↦ ?_
  exact wp_int fun t₄ ht₄ ↦ ht₃.balanced.trans ht₄.balanced

theorem wp_dbgPutHex (hroom : Room free 0x7E00 4 s) :
    Wp (dbgPutHex L) (fun _ s' ↦ Balanced free 0x7E00 s s') s := by
  refine wp_bind (wp_get (wp_bind (wp_push (wp_bind ?_))))
  refine wp_modify_of (Scratch (s.push s.ax)) ⟨rfl, rfl, rfl, rfl⟩ fun t₁ ht₁ ↦ wp_bind ?_
  have hroom₁ : Room free 0x7E00 2 t₁ := (hroom.push s.ax).balanced ht₁.balanced
  refine (wp_callBalanced .upperNibble hroom₁ wp_dbgPutNibble).mono fun _ t₂ ht₂ ↦ ?_
  obtain ⟨-, hdrop⟩ := (ht₁.balanced.trans ht₂).pop (hroom.mono (by decide))
  refine wp_bind (wp_pop (wp_bind ?_))
  refine wp_modify_of (Scratch t₂.drop) ⟨rfl, rfl, rfl, rfl⟩ fun t₃ ht₃ ↦ ?_
  have hbalanced := hdrop.trans ht₃.balanced
  have hroom₃ : Room free 0x7E00 2 t₃ := (hroom.mono (by decide)).balanced hbalanced
  exact (wp_callBalanced .lowerNibble hroom₃ wp_dbgPutNibble).mono fun _ _ ht₄ ↦
    hbalanced.trans ht₄

theorem wp_print : Wp (print fuel) (fun _ s' ↦ Balanced free 0x7E00 s s') s := by
  induction fuel generalizing s with
  | zero => exact wp_stop nofun
  | succ fuel ih =>
    refine wp_scratch (.refl s) (fun _ ↦ ⟨rfl, rfl, rfl, rfl⟩) fun t₁ ht₁ ↦ ?_
    refine wp_bind (wp_get (wp_ite (fun _ ↦ wp_pure ht₁.balanced) fun _ ↦ ?_))
    refine wp_scratch ht₁ (fun _ ↦ ⟨rfl, rfl, rfl, rfl⟩) fun t₂ ht₂ ↦ wp_bind ?_
    refine wp_int fun t₃ ht₃ ↦ ih.mono fun _ t₄ ht₄ ↦ ?_
    exact ht₂.balanced.trans (ht₃.balanced.trans ht₄)

/-- After a message nothing comes. -/
theorem wp_die {Q : Unit → Cpu → Prop} (c : Site) (msg : UInt16) (hroom : Room free 0x7E00 2 s) :
    Wp (die L fuel c msg) Q s := by
  refine wp_bind (wp_modify_of (Scratch s) ⟨rfl, rfl, rfl, rfl⟩ fun t ht ↦ wp_bind ?_)
  have hroom' : Room free 0x7E00 2 t := hroom.balanced ht.balanced
  exact (wp_callBalanced c hroom' wp_print).mono fun _ _ _ ↦ wp_stop nofun

/-! ## The drive parameters -/

/-- A `pop` into a register that nothing depends on. -/
theorem wp_pop_into {Q : Unit → Cpu → Prop} {g : UInt16 → Cpu → Cpu} {rest : Stage1 Unit}
    {v : UInt16} (hg : ∀ v t, Balanced free 0x7E00 t (g v t)) (hroom : Room free 0x7E00 2 s)
    (h : Balanced free 0x7E00 (s.push v) s')
    (hrest : ∀ t, Balanced free 0x7E00 s t → Wp rest Q t) :
    Wp (do let v ← pop; modify (g v); rest) Q s' := by
  obtain ⟨-, hdrop⟩ := h.pop hroom
  exact wp_bind (wp_pop (wp_bind (wp_modify (hrest _ (hdrop.trans (hg _ _))))))

/-- **All that was pushed comes back.** -/
theorem wp_popParams {ax bx cx dx es di : UInt16} (hroom : Room free 0x7E00 12 s)
    (h : Balanced free 0x7E00
      ((((((s.push ax).push bx).push cx).push dx).push es).push di) s') :
    Wp popParams (fun _ t ↦ Balanced free 0x7E00 s t) s' := by
  have hreg (t t' : Cpu) (hds : t'.ds = t.ds) (hss : t'.ss = t.ss) (hsp : t'.sp = t.sp)
      (hram : t'.ram = t.ram) : Balanced free 0x7E00 t t' :=
    ⟨hds, hss, hsp, fun _ _ _ _ ↦ congrFun hram _⟩
  have hroom₁ := hroom.push ax
  have hroom₂ := hroom₁.push bx
  have hroom₃ := hroom₂.push cx
  have hroom₄ := hroom₃.push dx
  have hroom₅ := hroom₄.push es
  refine wp_pop_into (fun _ _ ↦ hreg _ _ rfl rfl rfl rfl) hroom₅ h fun t₅ h₅ ↦ ?_
  refine wp_pop_into (fun _ _ ↦ hreg _ _ rfl rfl rfl rfl) (hroom₄.mono (by decide)) h₅
    fun t₄ h₄ ↦ ?_
  refine wp_pop_into (fun _ _ ↦ hreg _ _ rfl rfl rfl rfl) (hroom₃.mono (by decide)) h₄
    fun t₃ h₃ ↦ ?_
  refine wp_pop_into (fun _ _ ↦ hreg _ _ rfl rfl rfl rfl) (hroom₂.mono (by decide)) h₃
    fun t₂ h₂ ↦ ?_
  refine wp_pop_into (fun _ _ ↦ hreg _ _ rfl rfl rfl rfl) (hroom₁.mono (by decide)) h₂
    fun t₁ h₁ ↦ ?_
  obtain ⟨-, hdrop⟩ := h₁.pop (hroom.mono (by decide))
  exact wp_bind (wp_pop (wp_modify (hdrop.trans (hreg _ _ rfl rfl rfl rfl))))

theorem wp_pushParams (hroom : Room free 0x7E00 12 s) :
    Wp pushParams (fun _ t ↦ t.ds = s.ds ∧ ∀ t', Balanced free 0x7E00 t t' →
      Wp popParams (fun _ u ↦ Balanced free 0x7E00 s u) t') s := by
  refine wp_bind (wp_get ?_)
  refine wp_bind (wp_push (wp_bind (wp_push (wp_bind (wp_push ?_)))))
  refine wp_bind (wp_push (wp_bind (wp_push (wp_push ?_))))
  exact ⟨by simp only [Cpu.push_ds], fun t h ↦ wp_popParams hroom h⟩

/-- A store to the parameters. -/
theorem balanced_store16 (hds : s.ds = 0) {off v : UInt16}
    (hoff : (off = L.heads ∨ off = L.secsTrk)) :
    Balanced L.Params 0x7E00 s (s.store16 s.ds off v) := by
  have hlin (o : UInt16) : linear s.ds o = o.toNat := by rw [hds, linear]; simp
  have hheads := L.heads_mem
  have hsecs := L.secsTrk_mem
  refine ⟨rfl, rfl, rfl, fun x _ _ hfree ↦ ?_⟩
  rw [Labels.Params] at hfree
  have hnext : (off + 1).toNat = off.toNat + 1 := by
    rw [UInt16.toNat_add, show UInt16.toNat 1 = 1 from rfl]
    rcases hoff with rfl | rfl <;> omega
  rw [ram_store16, hlin, hlin, hnext]
  rw [Function.update_of_ne, Function.update_of_ne] <;> rcases hoff with rfl | rfl <;> omega

theorem wp_storeParams (hds : s.ds = 0) :
    Wp (storeParams L) (fun _ s' ↦ Balanced L.Params 0x7E00 s s') s := by
  have hstore (t : Cpu) (ht : t.ds = 0) {off : UInt16} (v : UInt16)
      (hoff : off = L.heads ∨ off = L.secsTrk) := balanced_store16 (v := v) ht hoff
  refine wp_bind (wp_get (wp_ite (fun _ ↦ ?_) fun _ ↦ ?_))
  · exact wp_modify ((hstore s hds 18 (.inr rfl)).trans
      (hstore (s.store16 s.ds L.secsTrk 18) hds 2 (.inl rfl)))
  · refine wp_bind (wp_modify_of (Scratch s) ⟨rfl, rfl, rfl, rfl⟩ fun t₁ ht₁ ↦ wp_bind ?_)
    have hds₁ : t₁.ds = 0 := ht₁.ds.trans hds
    refine wp_modify_of (Balanced L.Params 0x7E00 t₁) (hstore t₁ hds₁ _ (.inr rfl)) fun t₂ ht₂ ↦ ?_
    refine wp_bind (wp_modify_of (Scratch t₂) ⟨rfl, rfl, rfl, rfl⟩ fun t₃ ht₃ ↦ ?_)
    have hds₃ : t₃.ds = 0 := ht₃.ds.trans (ht₂.ds.trans hds₁)
    exact wp_modify (ht₁.balanced.trans (ht₂.trans (ht₃.balanced.trans
      (hstore t₃ hds₃ _ (.inl rfl)))))

theorem wp_getDriveParams (hroom : Room L.Params 0x7E00 12 s) (hds : s.ds = 0) :
    Wp (getDriveParams L) (fun _ s' ↦ Balanced L.Params 0x7E00 s s') s := by
  refine wp_bind ((wp_pushParams hroom).mono fun _ t ⟨ht, hpop⟩ ↦ wp_bind ?_)
  refine wp_modify_of (Balanced L.Params 0x7E00 t) ⟨rfl, rfl, rfl, fun _ _ _ _ ↦ rfl⟩
    fun t₁ ht₁ ↦ wp_bind (wp_int fun t₂ ht₂ ↦ wp_bind ?_)
  have hbalanced := ht₁.trans ht₂.balanced
  exact (wp_storeParams (hbalanced.ds.trans (ht.trans hds))).mono fun _ t₃ ht₃ ↦
    hpop t₃ (hbalanced.trans ht₃)

theorem wp_divMem (off : UInt16) : Wp (divMem off) (fun _ s' ↦ Scratch s s') s := by
  refine wp_bind (wp_get ?_)
  split
  · exact wp_stop nofun
  · exact wp_modify ⟨rfl, rfl, rfl, rfl⟩

/-- **The fallback** gives the drive to the BIOS, and it is in DL afterwards. -/
theorem wp_readChsFallback : Wp (readChsFallback L) (fun _ s' ↦ Balanced free 0x7E00 s s' ∧
    low s'.dx = s.load8 s.ds L.bootDrive) s := by
  -- up to the drive, only general registers change
  refine wp_scratch (.refl s) (fun _ ↦ ⟨rfl, rfl, rfl, rfl⟩) fun t₁ ht₁ ↦ wp_bind ?_
  refine (wp_divMem L.secsTrk).mono fun _ t₂ ht₂ ↦ ?_
  refine wp_scratch (ht₁.trans ht₂) (fun _ ↦ ⟨rfl, rfl, rfl, rfl⟩) fun t₃ ht₃ ↦ ?_
  refine wp_scratch ht₃ (fun _ ↦ ⟨rfl, rfl, rfl, rfl⟩) fun t₄ ht₄ ↦ ?_
  refine wp_scratch ht₄ (fun _ ↦ ⟨rfl, rfl, rfl, rfl⟩) fun t₅ ht₅ ↦ wp_bind ?_
  refine (wp_divMem L.heads).mono fun _ t₆ ht₆ ↦ ?_
  refine wp_scratch (ht₅.trans ht₆) (fun _ ↦ ⟨rfl, rfl, rfl, rfl⟩) fun t₇ ht₇ ↦ ?_
  refine wp_scratch ht₇ (fun _ ↦ ⟨rfl, rfl, rfl, rfl⟩) fun t₈ ht₈ ↦ ?_
  refine wp_scratch ht₈ (fun _ ↦ ⟨rfl, rfl, rfl, rfl⟩) fun t₉ hsame ↦ wp_bind ?_
  have hdrive : t₉.load8 t₉.ds L.bootDrive = s.load8 s.ds L.bootDrive := by
    rw [Cpu.load8, Cpu.load8, hsame.ds, hsame.ram]
  refine wp_modify_of (fun t ↦ Scratch t₉ t ∧ low t.dx = s.load8 s.ds L.bootDrive)
    ⟨⟨rfl, rfl, rfl, rfl⟩, (low_setLow _ _).trans hdrive⟩ fun u₁ h₁ ↦ wp_bind ?_
  obtain ⟨hu₁, hdl₁⟩ := h₁
  refine wp_modify_of (fun t ↦ Scratch u₁ t ∧ t.dx = u₁.dx ∧ t.ax = 0x1000)
    ⟨⟨rfl, rfl, rfl, rfl⟩, rfl, rfl⟩ fun u₂ h₂ ↦ ?_
  obtain ⟨hu₂, hdx₂, hax₂⟩ := h₂
  refine wp_int fun u₃ hu₃ ↦ ⟨?_, ?_⟩
  · exact (hsame.trans (hu₁.trans hu₂)).balanced.trans hu₃.balanced
  · -- AH is 10h by now, so DL is kept
    have hdl₃ : low u₃.dx = low u₂.dx := hu₃.dl fun h ↦ absurd h.2 (by rw [hax₂]; decide)
    rw [hdl₃, hdx₂, hdl₁]

/-! ## The boot sector -/

/-- Between its calls stage 1 has its segments at zero, its stack empty, and the drive in its
variable. -/
structure At (L : Labels) (d : UInt8) (s : Cpu) : Prop where
  ds : s.ds = 0
  ss : s.ss = 0
  sp : s.sp = 0x7C00
  drive : s.ram L.bootDrive.toNat = d

variable {d : UInt8}

theorem At.linear_sp (h : At L d s) : linear s.ss s.sp = 0x7C00 := by
  rw [h.ss, h.sp]
  rfl

theorem At.room (h : At L d s) {n : ℕ} (hn : n ≤ 0x7C00) : Room L.Params 0x7E00 n s := by
  have hheads := L.heads_mem
  have hsecs := L.secsTrk_mem
  refine ⟨?_, ?_, fun x hx ↦ ?_⟩
  · rw [h.sp]
    exact hn
  · rw [h.linear_sp]
    decide
  · rw [Labels.Params] at hx
    rw [h.linear_sp]
    omega

/-- The drive is not among the parameters. -/
theorem Labels.not_params (L : Labels) : ¬L.Params L.bootDrive.toNat := by
  have hheads := L.heads_mem
  have hsecs := L.secsTrk_mem
  have hone : UInt16.toNat 1 = 1 := rfl
  obtain ⟨hh, hh'⟩ := L.bootDrive_heads
  obtain ⟨hs, hs'⟩ := L.bootDrive_secsTrk
  simp only [Ne, ← UInt16.toNat_inj, UInt16.toNat_add, hone] at hh hh' hs hs'
  rw [Labels.Params]
  omega

theorem At.balanced (h : At L d s) (hb : Balanced L.Params 0x7E00 s s') : At L d s' where
  ds := hb.ds.trans h.ds
  ss := hb.ss.trans h.ss
  sp := hb.sp.trans h.sp
  drive := by
    have hmem := L.bootDrive_mem
    rw [← h.drive]
    exact hb.ram _ (by rw [h.linear_sp]; omega) (by omega) L.not_params

theorem At.scratch (h : At L d s) (hs : Scratch s s') : At L d s' := h.balanced hs.balanced

/-- The variable is the drive. -/
theorem At.load (h : At L d s) : s.load8 s.ds L.bootDrive = d := by
  rw [Cpu.load8, h.ds, linear, show 16 * UInt16.toNat 0 + L.bootDrive.toNat = _ from Nat.zero_add _]
  exact h.drive

/-- The variable is above the stack. -/
theorem At.load_push (h : At L d s) (v : UInt16) :
    (s.push v).load8 (s.push v).ds L.bootDrive = d := by
  have hmem := L.bootDrive_mem
  have hle : linear s.ss s.sp ≤ linear s.ds L.bootDrive := by
    rw [h.linear_sp, linear]
    omega
  rw [← h.load, Cpu.load8, Cpu.load8, Cpu.push_ds]
  exact ram_push_of_le (h.room (n := 2) (by decide)).le_sp hle

/-- A debug character changes nothing of this, and not DL. -/
theorem at_callDbgPutc (h : At L d s) (c : Site) :
    Wp (callDbgPutc L c) (fun _ s' ↦ At L d s' ∧ low s'.dx = low s.dx) s :=
  (wp_callDbgPutc c (h.room (by decide))).mono fun _ _ ⟨hb, hdl, _⟩ ↦ ⟨h.balanced hb, hdl⟩

theorem wp_start : Wp (start L) (fun _ s' ↦ At L (low s.dx) s') s := by
  refine wp_bind (wp_modify_of (fun t ↦ t.ds = 0 ∧ t.ss = 0 ∧ t.sp = 0x7C00 ∧ t.dx = s.dx)
    ⟨rfl, rfl, rfl, rfl⟩ fun t₁ ⟨hds₁, hss₁, hsp₁, hdx₁⟩ ↦ wp_bind ?_)
  have hat : At L (low s.dx) (t₁.store8 t₁.ds L.bootDrive (low t₁.dx)) := by
    refine ⟨hds₁, hss₁, hsp₁, ?_⟩
    rw [ram_store8, hds₁, hdx₁, linear,
      show 16 * UInt16.toNat 0 + L.bootDrive.toNat = _ from Nat.zero_add _]
    exact Function.update_self ..
  exact wp_modify ((at_callDbgPutc hat .started).mono fun _ _ h ↦ h.1)

theorem at_enableA20 (h : At L d s) : Wp (enableA20 L fuel) (fun _ s' ↦ At L d s') s := by
  have hon (t : Cpu) (ht : At L d t) : Wp (callDbgPutc L .a20On) (fun _ s' ↦ At L d s') t :=
    (at_callDbgPutc ht .a20On).mono fun _ _ h ↦ h.1
  refine wp_bind (wp_inb fun v ↦ wp_bind ?_)
  refine wp_modify_of (At L d) (h.scratch ⟨rfl, rfl, rfl, rfl⟩) fun t₁ ht₁ ↦ ?_
  refine wp_ite (fun _ ↦ hon t₁ ht₁) fun _ ↦ wp_bind ?_
  refine wp_modify_of (At L d) (ht₁.scratch ⟨rfl, rfl, rfl, rfl⟩) fun t₂ ht₂ ↦ ?_
  refine wp_bind (wp_outb (wp_bind (wp_inb fun v' ↦ wp_bind ?_)))
  refine wp_modify_of (At L d) (ht₂.scratch ⟨rfl, rfl, rfl, rfl⟩) fun t₃ ht₃ ↦ ?_
  refine wp_ite (fun _ ↦ hon t₃ ht₃) fun _ ↦ wp_bind ?_
  exact (at_callDbgPutc ht₃ .a20Failed).mono fun _ t₄ ht₄ ↦ wp_die _ _ (ht₄.1.room (by decide))

theorem at_getDriveParams (h : At L d s) :
    Wp (callAt L .driveParams (getDriveParams L)) (fun _ s' ↦ At L d s') s := by
  have hroom : Room L.Params 0x7E00 12 (s.push (L.ret .driveParams)) :=
    (h.room (n := 14) (by decide)).push _
  have hcall := wp_callBalanced .driveParams (h.room (by decide)) (wp_getDriveParams hroom h.ds)
  exact hcall.mono fun _ _ hb ↦ h.balanced hb

theorem at_checkLba (h : At L d s) : Wp (checkLba L) (fun _ s' ↦ At L d s') s := by
  refine wp_bind ((at_callDbgPutc h .lbaCheck).mono fun _ t₁ ⟨ht₁, _⟩ ↦ wp_bind ?_)
  refine wp_modify_of (At L d) (ht₁.scratch ⟨rfl, rfl, rfl, rfl⟩) fun t₂ ht₂ ↦ ?_
  refine wp_bind (wp_int fun t₃ ht₃ ↦ wp_bind (wp_get (wp_pure ?_)))
  exact ht₂.balanced ht₃.balanced

/-- With a packet, the drive is in DL at the end. -/
theorem at_readLba (h : At L d s) :
    Wp (readLba L) (fun loaded s' ↦ At L d s' ∧ (loaded = true → low s'.dx = d)) s := by
  refine wp_bind ((at_callDbgPutc h .lbaOk).mono fun _ t₁ ⟨ht₁, _⟩ ↦ wp_bind ?_)
  refine (at_callDbgPutc ht₁ .lbaRead).mono fun _ t₂ ⟨ht₂, _⟩ ↦ wp_bind ?_
  refine wp_modify_of (fun t ↦ At L d t ∧ low t.dx = d)
    ⟨ht₂.scratch ⟨rfl, rfl, rfl, rfl⟩, (low_setLow _ _).trans ht₂.load⟩
    fun t₃ ⟨ht₃, hdl₃⟩ ↦ wp_bind (wp_get (wp_bind (wp_push (wp_bind ?_))))
  -- until it comes back from the stack, only DS is not what it was
  let Pushed (t : Cpu) : Prop := Scratch (t₃.push t₃.ds) { t with ds := t₃.ds } ∧ low t.dx = d
  refine wp_modify_of (fun t ↦ Pushed t ∧ t.ax = 0x07C0) ⟨⟨⟨rfl, rfl, rfl, rfl⟩, hdl₃⟩, rfl⟩
    fun t₄ ⟨⟨ht₄, hdl₄⟩, hax₄⟩ ↦ wp_bind ?_
  refine wp_modify_of (fun t ↦ Pushed t ∧ t.ax = setHigh 0x07C0 0x42)
    ⟨⟨⟨rfl, ht₄.ss, ht₄.sp, ht₄.ram⟩, hdl₄⟩, congrArg (setHigh · 0x42) hax₄⟩
    fun t₅ ⟨⟨ht₅, hdl₅⟩, hax₅⟩ ↦ wp_bind (wp_int fun t₆ ht₆ ↦ wp_bind (wp_pop (wp_bind ?_)))
  have hdl₆ : low t₆.dx = d :=
    (ht₆.dl fun h ↦ absurd h.2 (by rw [hax₅]; decide)).trans hdl₅
  have hss₅ : t₅.ss = (t₃.push t₃.ds).ss := ht₅.ss
  have hsp₅ : t₅.sp = (t₃.push t₃.ds).sp := ht₅.sp
  have hpushed : Balanced L.Params 0x7E00 (t₃.push t₃.ds) { t₆ with ds := t₃.ds } :=
    ⟨rfl, ht₆.ss.trans hss₅, ht₆.sp.trans hsp₅, fun x hx hlt _ ↦
      (ht₆.ram x (by rwa [hss₅, hsp₅]) hlt).trans (congrFun ht₅.ram x)⟩
  obtain ⟨htop, hdrop⟩ := hpushed.pop (ht₃.room (by decide))
  refine wp_modify_of (fun t ↦ At L d t ∧ low t.dx = d)
    ⟨ht₃.balanced ⟨htop, hdrop.ss, hdrop.sp, hdrop.ram⟩, hdl₆⟩ fun t₇ ⟨ht₇, hdl₇⟩ ↦ ?_
  refine wp_bind (wp_get (wp_ite (fun _ ↦ wp_bind ?_) fun _ ↦ wp_bind ?_))
  · refine wp_modify_of (At L d) (ht₇.scratch ⟨rfl, rfl, rfl, rfl⟩)
      fun t₈ ht₈ ↦ wp_bind ?_
    have hroom : Room L.Params 0x7E00 4 (t₈.push (L.ret .lbaErrorCode)) :=
      (ht₈.room (n := 6) (by decide)).push _
    have hcall := wp_callBalanced .lbaErrorCode (ht₈.room (by decide))
      (wp_dbgPutHex (L := L) hroom)
    refine hcall.mono fun _ t₉ hb ↦ wp_bind ?_
    exact (at_callDbgPutc (ht₈.balanced hb) .lbaError).mono fun _ _ h ↦ wp_pure ⟨h.1, nofun⟩
  · exact (at_callDbgPutc ht₇ .lbaDone).mono fun _ _ h ↦ wp_pure ⟨h.1, fun _ ↦ h.2.trans hdl₇⟩

/-- And without one. -/
theorem at_useChs (h : At L d s) :
    Wp (useChs L fuel) (fun _ s' ↦ At L d s' ∧ low s'.dx = d) s := by
  refine wp_bind ((at_callDbgPutc h .chsFallback).mono fun _ t₁ ⟨ht₁, _⟩ ↦ wp_bind ?_)
  have hcall := wp_callAt (L := L) (R := fun t ↦ low t.dx = d) .readChs (ht₁.room (by decide))
    (wp_readChsFallback.mono fun _ t ⟨hb, hdl⟩ ↦ ⟨hb, hdl.trans (ht₁.load_push _)⟩)
  refine hcall.mono fun _ t₂ ⟨hb, hdl⟩ ↦ wp_bind (wp_get ?_)
  have ht₂ := ht₁.balanced hb
  refine wp_ite (fun _ ↦ wp_die _ _ (ht₂.room (by decide))) fun _ ↦ ?_
  exact (at_callDbgPutc ht₂ .chsDone).mono fun _ _ h ↦ ⟨h.1, h.2.trans hdl⟩

/-- **Whichever way stage 2 is read**, the drive is in DL when that is done. -/
theorem at_loadStage2 (h : At L d s) :
    Wp (loadStage2 L fuel) (fun _ s' ↦ At L d s' ∧ low s'.dx = d) s := by
  refine wp_bind ((at_checkLba h).mono fun lba t₁ ht₁ ↦ wp_ite (fun _ ↦ wp_bind ?_) fun _ ↦ ?_)
  · refine (at_readLba ht₁).mono fun loaded t₂ ⟨ht₂, hdl₂⟩ ↦ wp_ite (fun hloaded ↦ ?_) fun _ ↦ ?_
    · exact wp_pure ⟨ht₂, hdl₂ hloaded⟩
    · exact at_useChs ht₂
  · exact at_useChs ht₁

/-! ## The hand-off -/

/-- How stage 1 leaves the processor: DS is the drive in its upper half, and the byte for stage 2 is
that of an address. -/
structure HandedOver (L : Labels) (d : UInt8) (s : Cpu) : Prop where
  ds : s.ds = Words.ofBytes16 0 d
  byte : s.ram 0x7BFF = high (L.ret .jumpStage2 + 1)

/-- **The store goes into the saved DS**, and the return address over it. -/
theorem at_handOff (h : At L d s) (hdl : low s.dx = d) :
    Wp (handOff L) (fun _ s' ↦ HandedOver L d s') s := by
  have hle : 2 ≤ s.sp.toNat := (h.room (n := 2) (by decide)).le_sp
  refine wp_bind (wp_get (wp_bind (wp_push (wp_bind ?_))))
  rw [h.ds]
  refine wp_modify_of (fun t ↦ Scratch (s.push 0) { t with ds := s.ds } ∧ t.ds = 0 ∧ low t.dx = d)
    ⟨⟨rfl, rfl, rfl, rfl⟩, rfl, hdl⟩ fun t₁ h₁ ↦ wp_bind ?_
  obtain ⟨ht₁, hds₁, hdl₁⟩ := h₁
  have hlin₁ : linear t₁.ds 0x7BFF = 0x7BFF := by
    rw [hds₁]
    rfl
  have hpushed : t₁.ram 0x7BFE = 0 := by
    rw [show t₁.ram = (s.push 0).ram from ht₁.ram, ram_push hle, h.linear_sp]
    rfl
  -- the store
  refine wp_modify_of (fun t ↦ t.ss = 0 ∧ t.sp = 0x7BFE ∧ t.ram 0x7BFE = 0 ∧ t.ram 0x7BFF = d)
    ⟨?_, ?_, ?_, ?_⟩ fun t₂ h₂ ↦ wp_bind (wp_pop (wp_bind ?_))
  · exact ht₁.ss.trans h.ss
  · refine ht₁.sp.trans ?_
    change s.sp - 2 = 0x7BFE
    rw [h.sp]
    rfl
  · rw [ram_store8, hlin₁, Function.update_of_ne (by decide), hpushed]
  · rw [ram_store8, hlin₁, Function.update_self, hdl₁]
  -- the saved DS
  obtain ⟨hss₂, hsp₂, hlow₂, hhigh₂⟩ := h₂
  have htop : t₂.top = Words.ofBytes16 0 d := by
    rw [Cpu.top, Cpu.load16, Cpu.load8, Cpu.load8, hss₂, hsp₂]
    exact congrArg₂ Words.ofBytes16 hlow₂ hhigh₂
  refine wp_modify_of (fun t ↦ t.ds = Words.ofBytes16 0 d ∧ t.ss = 0 ∧ t.sp = 0x7C00)
    ⟨htop, hss₂, congrArg (· + 2) hsp₂⟩ fun t₃ h₃ ↦ ?_
  obtain ⟨hds₃, hss₃, hsp₃⟩ := h₃
  have hlin : linear t₃.ss t₃.sp = 0x7C00 := by rw [hss₃, hsp₃]; rfl
  have hroom : Room (fun _ ↦ False) 0x7E00 2 t₃ :=
    ⟨by rw [hsp₃]; decide, by rw [hlin]; decide, fun _ hx ↦ hx.elim⟩
  refine (wp_callDbgPutc .jumpStage2 hroom).mono fun _ t₄ h₄ ↦ ?_
  obtain ⟨hb, -, hbyte⟩ := h₄
  rw [hlin] at hbyte
  exact ⟨hb.ds.trans hds₃, hbyte⟩

/-- **Stage 1**, whatever the BIOS and the ports answer. -/
theorem wp_stage1 (L : Labels) (fuel : ℕ) (s : Cpu) :
    Wp (stage1 L fuel) (fun _ s' ↦ HandedOver L (low s.dx) s') s := by
  refine wp_bind (wp_start.mono fun _ t₁ ht₁ ↦ wp_bind ?_)
  refine (at_enableA20 ht₁).mono fun _ t₂ ht₂ ↦ wp_bind ?_
  refine (at_getDriveParams ht₂).mono fun _ t₃ ht₃ ↦ wp_bind ?_
  exact (at_loadStage2 ht₃).mono fun _ t₄ ⟨ht₄, hdl₄⟩ ↦ at_handOff ht₄ hdl₄

/-! ## What stage 2 finds -/

/-- Stage 2 takes the byte at `0x7BFF`. -/
theorem stage2Start_bootDrive (bootDrive : UInt16) (s : Cpu) :
    (stage2Start bootDrive s).load8 0x1000 bootDrive = s.ram 0x7BFF := by
  let t : Cpu := { s with ax := 0x1000, ds := 0x1000, es := 0x1000, ss := 0x1000, sp := 0x9000 }
  have hroom : Room (fun _ ↦ False) 0x100000 2 t := ⟨show 2 ≤ UInt16.toNat 0x9000 by decide,
    show linear 0x1000 0x9000 ≤ 0x100000 by decide, fun _ hx ↦ hx.elim⟩
  have htop : (t.push 0x1000).top = 0x1000 := ((Balanced.refl (t.push 0x1000)).pop hroom).1
  have hbyte : (t.push 0x1000).ram 0x7BFF = s.ram 0x7BFF := by
    have hlin : linear t.ss t.sp = 0x19000 := (by decide : linear 0x1000 0x9000 = 0x19000)
    rw [ram_push hroom.le_sp, hlin, Function.update_of_ne (by decide),
      Function.update_of_ne (by decide)]
  have hstored : (stage2Start bootDrive s).ram =
      Function.update (t.push 0x1000).ram (linear (t.push 0x1000).top bootDrive)
        (low (setLow t.bx (low (setLow t.dx ((t.push 0x1000).ram (linear 0 0x7BFF)))))) := rfl
  rw [Cpu.load8, hstored, htop, Function.update_self, low_setLow, low_setLow]
  exact hbyte

/-- The byte of a return address of stage 1. -/
theorem Labels.high_ret (L : Labels) (c : Site) :
    high (L.ret c + 1) = 0x7C ∨ high (L.ret c + 1) = 0x7D := by
  obtain ⟨hlow, hlt⟩ := L.ret_mem c
  have hnext : (L.ret c + 1).toNat = (L.ret c).toNat + 1 := by
    rw [UInt16.toNat_add, show UInt16.toNat 1 = 1 from rfl]
    omega
  have hhigh : (high (L.ret c + 1)).toNat = ((L.ret c).toNat + 1) / 256 := by
    rw [toNat_high, hnext]
  rw [← UInt8.toNat_inj, ← UInt8.toNat_inj, hhigh, show UInt8.toNat 0x7C = 124 from rfl,
    show UInt8.toNat 0x7D = 125 from rfl]
  omega

/-- **The drive is never handed over with DS intact.**  In every run of stage 1 that comes to the
far jump, stage 2 takes the upper byte of a return address for the drive, and DS is 256 times the
drive; so if one of them is right, the other is not. -/
theorem hand_off_never (L : Labels) (fuel : ℕ) (bootDrive : UInt16) (dev : Device (bios 0x7E00))
    (s : Cpu) (h : Trace (bios 0x7E00)) :
    match ((stage1 L fuel).run s).run.value dev h with
    | .error reason => reason ≠ .stray
    | .ok (_, s') =>
      (stage2Start bootDrive s').load8 0x1000 bootDrive = high (L.ret .jumpStage2 + 1) ∧
        s'.ds.toNat = 256 * (low s.dx).toNat ∧
        ¬((stage2Start bootDrive s').load8 0x1000 bootDrive = low s.dx ∧ s'.ds = 0) := by
  have hrun := wp_stage1 L fuel s dev h
  split
  · next reason heq => rwa [heq] at hrun
  · next s' heq =>
    rw [heq] at hrun
    obtain ⟨hds, hbyte⟩ := hrun
    have hstored := stage2Start_bootDrive bootDrive s'
    have hds' : s'.ds.toNat = 256 * (low s.dx).toNat := by
      have hlt := (low s.dx).toNat_lt
      rw [hds, Words.ofBytes16, UInt16.toNat_ofNat', show UInt8.toNat 0 = 0 from rfl]
      omega
    refine ⟨hstored.trans hbyte, hds', ?_⟩
    rintro ⟨hdrive, hzero⟩
    -- DS is only zero for drive `0`, and no return address has that for its upper byte
    rw [hzero] at hds'
    have hdl : low s.dx = 0 := UInt8.toNat_inj.mp (by simpa using hds'.symm)
    rw [hstored, hbyte, hdl] at hdrive
    rcases L.high_ret .jumpStage2 with hhigh | hhigh <;> rw [hhigh] at hdrive <;>
      exact absurd hdrive (by decide)

/-! ## A run -/

/-- The addresses that the calls push, as stage 1 is assembled. -/
def siteAddress : Site → UInt16
  | .started => 0x7C13
  | .a20On => 0x7C27
  | .driveParams => 0x7C2B
  | .lbaCheck => 0x7C2E
  | .lbaOk => 0x7C4A
  | .lbaRead => 0x7C4E
  | .lbaErrorCode => 0x7C68
  | .lbaError => 0x7C6B
  | .lbaDone => 0x7C71
  | .chsFallback => 0x7C77
  | .readChs => 0x7C7B
  | .chsDone => 0x7C80
  | .jumpStage2 => 0x7C8E
  | .printDisk => 0x7C9A
  | .a20Failed => 0x7C9E
  | .printA20 => 0x7CA5
  | .upperNibble => 0x7CB8
  | .lowerNibble => 0x7CBC

/-- The labels of stage 1, as it is assembled. -/
def assembled : Labels where
  ret := siteAddress
  bootDrive := 0x7D43
  heads := 0x7D44
  secsTrk := 0x7D46
  dap := 0x7D80
  msgDisk := 0x7D48
  msgA20 := 0x7D5D
  ret_mem c := by cases c <;> decide
  bootDrive_mem := by decide
  heads_mem := by decide
  secsTrk_mem := by decide
  bootDrive_heads := by decide
  bootDrive_secsTrk := by decide

/-- A BIOS that knows LBA packets and makes no errors, on a machine with the A20 gate open. -/
def lbaBios : Device (bios 0x7E00)
  | _, .inb _ => (2 : UInt8)
  | _, .int _ s =>
    ⟨if high s.ax = 0x41 then { s with cf := false, bx := 0xAA55, cx := 1 }
      else { s with cf := false }, by
      split <;> exact ⟨rfl, rfl, rfl, fun _ ↦ rfl, fun _ _ _ ↦ rfl⟩⟩

/-- A processor that is told to boot from a drive. -/
def bootFrom (drive : UInt8) : Cpu :=
  ⟨0, 0, 0, drive.toUInt16, 0, 0, 0, 0, 0, 0, false, fun _ ↦ 0⟩

/-- Booted from drive `0x80`, stage 2 takes `0x7C` for it, and DS is `0x8000`. -/
theorem drive_0x80_is_lost :
    ∃ s', ((stage1 assembled 0).run (bootFrom 0x80)).run.value lbaBios [] = .ok ((), s') ∧
      (stage2Start 0x0400 s').load8 0x1000 0x0400 = 0x7C ∧ s'.ds = 0x8000 := by
  have hrun : (((stage1 assembled 0).run (bootFrom 0x80)).run.value lbaBios []).toOption.map
      (fun r ↦ (r.2.ds, r.2.ram 0x7BFF)) = some (0x8000, 0x7C) := by decide +kernel
  cases hvalue : ((stage1 assembled 0).run (bootFrom 0x80)).run.value lbaBios [] with
  | error reason =>
    rw [hvalue] at hrun
    cases hrun
  | ok r =>
    rw [hvalue] at hrun
    obtain ⟨hds, hbyte⟩ := Prod.mk.inj (Option.some_inj.mp hrun)
    exact ⟨r.2, rfl, (stage2Start_bootDrive 0x0400 r.2).trans hbyte, hds⟩

end Aetherion.Boot
