import Aetherion.Keyboard.Queue

/-!
# The wake-up that can be lost

`keyboard_getchar` tests `keyboard_has_key` and then executes `hlt`, with interrupts enabled all
the time.  An interrupt that falls between the two puts its character into the ring, and then the
processor halts all the same: the character waits until the next interrupt.

`no_lost_wakeup_iff` says that this is the only way to sleep on a waiting character.  The invariant
is `Session.Awake`: on the way into `hlt` and during it, the ring is empty.
-/

set_option autoImplicit false

namespace Aetherion.Keyboard

/-- The processor is halted in `keyboard_getchar`, and a character is waiting. -/
def Session.Overslept (s : Session) : Prop := s.pc = .halted ∧ s.kb.kbHead ≠ s.kb.kbTail

/-- No interrupt that brings a character falls between the test and the `hlt`. -/
def NoKeyBeforeHlt (steps : List Step) : Prop :=
  ∀ pre scancode, pre ++ [.irq scancode] <+: steps → (run pre).pc = .hlt →
    decoded (run pre).kb scancode = none

/-- **The invariant**: nobody goes to sleep on a character. -/
def Session.Awake (s : Session) : Prop := s.pc = .hlt ∨ s.pc = .halted → s.kb.stored = []

theorem run_concat (steps : List Step) (l : Step) : run (steps ++ [l]) = (run steps).step l := by
  rw [run, List.foldl_append]
  rfl

variable {s : Session}

theorem Session.Awake.not_overslept (ha : s.Awake) (h : s.Inv) : ¬s.Overslept := by
  rintro ⟨hpc, hne⟩
  exact (stored_ne_nil_iff h.inRange).mpr hne (ha (.inr hpc))

/-- An interrupt leaves the invariant alone, unless it brings a character just before `hlt`: a
processor that is halted already is woken up. -/
theorem Session.Awake.irq (ha : s.Awake) (h : s.Inv) {scancode : UInt8}
    (hkey : s.pc = .hlt → decoded s.kb scancode = none) : (s.irq scancode).Awake := by
  intro hpc
  have hhlt : s.pc = .hlt := by
    cases hs : s.pc <;> simp [Session.irq, Pc.wake, hs] at hpc ⊢
  rw [stored_irq h.inRange, handlerStored_eq h.inRange, hkey hhlt, ha (.inl hhlt)]
  rfl

/-- The reader executes `hlt` only after it has found the ring empty. -/
theorem Session.Awake.cpu (ha : s.Awake) (h : s.Inv) : s.cpu.Awake := by
  rw [Session.cpu]
  cases hs : s.pc with
  | hasKey =>
    intro hpc
    by_contra hne
    have hkey : keyboardHasKey s.kb = true := decide_eq_true ((stored_ne_nil_iff h.inRange).mp hne)
    simp [hkey] at hpc
  | hlt => exact fun _ ↦ ha (.inl hs)
  | halted => exact fun _ ↦ ha (.inr hs)
  | popTest =>
    intro hpc
    simp only at hpc
    split at hpc <;> simp [Session.ret] at hpc
  | popRead => exact fun hpc ↦ by simp at hpc
  | popAdvance sc => exact fun hpc ↦ by simp [Session.ret] at hpc

/-- A run in which no key comes just before `hlt` keeps the invariant throughout. -/
theorem awake_run {steps : List Step} (hkeys : NoKeyBeforeHlt steps) {pre : List Step}
    (hpre : pre <+: steps) : (run pre).Awake := by
  induction pre using List.reverseRecOn with
  | nil => exact fun hpc ↦ by simp [run, Session.initial] at hpc
  | append_singleton pre l ih =>
    have ha := ih ((List.prefix_append pre [l]).trans hpre)
    rw [run_concat]
    cases l with
    | irq scancode => exact ha.irq (inv_run pre) (hkeys pre scancode hpre)
    | cpu => exact ha.cpu (inv_run pre)

/-! ## Only then -/

/-- On the way into `hlt` with a character waiting. -/
def Session.Drowsy (s : Session) : Prop := s.pc = .hlt ∧ s.kb.stored ≠ []

/-- More interrupts do not help: whatever comes before the reader's next step, that step halts the
processor. -/
theorem Session.Drowsy.overslept (hd : s.Drowsy) (h : s.Inv) (steps : List Step) :
    ∃ pre, pre <+: steps ++ [.cpu] ∧ (pre.foldl Session.step s).Overslept := by
  induction steps generalizing s with
  | nil => exact ⟨[.cpu], List.prefix_rfl, by
      simp [Session.step, Session.cpu, hd.1, Session.Overslept,
        (stored_ne_nil_iff h.inRange).mp hd.2]⟩
  | cons l steps ih =>
    cases l with
    | cpu => exact ⟨[.cpu], by simp, by
        simp [Session.step, Session.cpu, hd.1, Session.Overslept,
          (stored_ne_nil_iff h.inRange).mp hd.2]⟩
    | irq scancode =>
      have hd' : (s.irq scancode).Drowsy := by
        refine ⟨by simp [Session.irq, hd.1, Pc.wake], ?_⟩
        rw [stored_irq h.inRange]
        exact List.append_ne_nil_of_left_ne_nil hd.2 _
      obtain ⟨pre, hpre, hover⟩ := ih hd' (h.irq scancode)
      exact ⟨.irq scancode :: pre, (List.prefix_cons_inj _).mpr hpre, hover⟩

/-- **A wake-up is lost exactly when a key comes between the test and the `hlt`.**  The reader is
given one more step, in which to execute the `hlt`. -/
theorem no_lost_wakeup_iff (steps : List Step) :
    (∀ pre, pre <+: steps ++ [.cpu] → ¬(run pre).Overslept) ↔ NoKeyBeforeHlt steps := by
  constructor
  · intro hsleep pre scancode hpre hpc
    by_contra hkey
    obtain ⟨post, rfl⟩ := hpre
    have hinv := inv_run pre
    have hd : ((run pre).irq scancode).Drowsy := by
      refine ⟨by simp [Session.irq, hpc, Pc.wake], ?_⟩
      -- the reader has found the ring empty, so there is room
      obtain ⟨c, hc⟩ := Option.ne_none_iff_exists'.mp hkey
      rw [stored_irq hinv.inRange, handlerStored_eq hinv.inRange, hc]
      by_cases hroom : (run pre).kb.stored.length < 255
      · simp [hroom]
      · exact List.append_ne_nil_of_left_ne_nil (by intro he; simp [he] at hroom) _
    obtain ⟨mid, hmid, hover⟩ := hd.overslept (hinv.irq scancode) post
    refine hsleep (pre ++ [.irq scancode] ++ mid) ?_ ?_
    · rw [List.append_assoc _ post]
      exact (List.prefix_append_right_inj _).mpr hmid
    · rw [run, List.foldl_append, ← run, run_concat]
      exact hover
  · intro hkeys pre hpre
    refine Session.Awake.not_overslept ?_ (inv_run pre)
    rcases List.prefix_concat_iff.mp hpre with rfl | hpre
    · rw [run_concat]
      exact (awake_run hkeys List.prefix_rfl).cpu (inv_run steps)
    · exact awake_run hkeys hpre

/-- The reader finds the ring empty, the key `a` comes, and the reader halts. -/
theorem sleeps_on_a_key :
    (run [.cpu, .irq 0x1E, .cpu]).Overslept ∧
      (run [.cpu, .irq 0x1E, .cpu]).kb.stored = [97] := by
  refine ⟨⟨rfl, by decide⟩, rfl⟩

end Aetherion.Keyboard
