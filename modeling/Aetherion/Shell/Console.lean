import Aetherion.Keyboard.Modifiers
import Aetherion.Shell.MainLoop

/-!
# The lines that reach the dispatcher

The keyboard, its interrupt handler, the ring, and the loop of the shell that takes characters out
of it, all together: a `Console`.  One `Step` is an interrupt or a step of the loop, and a schedule
is any order of them.

What the dispatcher gets to see does not depend on the schedule (`schedule_independent`).  The
flags of the decoder are a matter of the scancodes alone, the ring hands on what it is given, each
character once and in order, and the line editor sees nothing but the characters; so the lines are
those of a user whose characters are decoded and edited one after the other, as long as the ring is
never full and everything is read in the end.
-/

set_option autoImplicit false

namespace Aetherion.Shell

open Keyboard Vga

/-! ## The console -/

/-- The keyboard driver, and the loop of `kernel_main` that reads from it. -/
structure Console where
  /-- The driver, and where the loop stands in `keyboard_getchar`. -/
  session : Session
  /-- What `keyboard_getchar` has returned, until the loop has dealt with it. -/
  char : Option UInt8
  /-- The locals of the loop. -/
  editor : Editor
  /-- Every line the dispatcher has seen. -/
  lines : List (List UInt8)
  /-- The processor has executed `cli; hlt`. -/
  stopped : Bool

/-- What the commands do to the terminal, which may be different every time: the number is how many
lines there were before. -/
abbrev Execs := ℕ → Exec

/-- The loop deals with a character.  That is one step, since the handler shares nothing with this
part of the loop. -/
def Console.key (execs : Execs) (s : Console) (c : UInt8) : Console :=
  if IsEnter c then
    let e := enterKey (execs s.lines.length) s.editor
    { s with char := none, editor := e.editor, lines := s.lines ++ [e.line], stopped := e.stopped }
  else
    { s with char := none, editor := editKey s.editor c }

/-- One step of the loop: it deals with the character it has, or goes on asking for one. -/
def Console.cpu (execs : Execs) (s : Console) : Console :=
  if s.stopped then s
  else match s.char with
    | some c => s.key execs c
    | none =>
      { s with
        session := s.session.cpu
        char := s.session.cpu.returned[s.session.returned.length]? }

/-- A machine that has stopped takes no interrupts. -/
def Console.step (execs : Execs) (s : Console) : Step → Console
  | .irq scancode => if s.stopped then s else { s with session := s.session.irq scancode }
  | .cpu => s.cpu execs

/-- The loop is about to ask for its first character. -/
def Console.initial (t : Term) (buf : ℕ → UInt8) : Console :=
  ⟨Session.initial, none, atPrompt t buf, [], false⟩

/-- No interrupt of the run comes to a machine that has stopped, and none brings a character for
which there is no room. -/
def Console.Lossless (execs : Execs) (s : Console) : List Step → Prop
  | [] => True
  | .irq scancode :: steps =>
    (s.stopped = false ∧ (decoded s.session.kb scancode = none ∨
      s.session.kb.stored.length < 255)) ∧ (s.step execs (.irq scancode)).Lossless execs steps
  | .cpu :: steps => (s.step execs .cpu).Lossless execs steps

instance Console.decidableLossless (execs : Execs) :
    (s : Console) → (steps : List Step) → Decidable (s.Lossless execs steps)
  | _, [] => .isTrue trivial
  | s, .irq scancode :: steps =>
    have := decidableLossless execs (s.step execs (.irq scancode)) steps
    inferInstanceAs (Decidable (_ ∧ _))
  | s, .cpu :: steps => decidableLossless execs (s.step execs .cpu) steps

/-- A run of the console in which no character is lost and all are dealt with in the end. -/
structure Schedule where
  /-- What the commands do to the terminal. -/
  execs : Execs
  /-- The terminal at the first prompt. -/
  term : Term
  /-- What is in `cmd_buf` at the first prompt. -/
  buf : ℕ → UInt8
  /-- The interrupts and the steps of the loop. -/
  steps : List Step
  /-- Nothing is lost. -/
  lossless : (Console.initial term buf).Lossless execs steps
  /-- Nothing is left in the ring. -/
  drained : (steps.foldl (Console.step execs) (Console.initial term buf)).session.kb.stored = []
  /-- Nothing is left to deal with. -/
  idle : (steps.foldl (Console.step execs) (Console.initial term buf)).char = none

/-- Where a schedule ends. -/
def Schedule.final (sch : Schedule) : Console :=
  sch.steps.foldl (Console.step sch.execs) (Console.initial sch.term sch.buf)

/-- The scancodes of a schedule. -/
def Schedule.stream (sch : Schedule) : List UInt8 := scancodes sch.steps

/-! ## The characters of a stream -/

/-- The characters of a stream of scancodes, decoded one after the other. -/
def decodeStream (m : Mods) : List UInt8 → List UInt8
  | [] => []
  | sc :: scs => (m.decode sc).toList ++ decodeStream (m.step sc) scs

/-! ## The invariant -/

/-- The loop has returned some characters, and what it has dealt with of them is typed and entered
as the line editor has it. -/
def Console.Typed (s : Console) : Prop :=
  ∃ done, s.session.returned = done ++ s.char.toList ∧ s.lines = linesOf done ∧
    (s.stopped = false → s.editor.Holds (typing done).line)

/-- **The invariant**, after the characters `keys` have been decoded under flags that are now `m`:
the ring has been given `keys`, and the loop has returned some of them and typed what it has dealt
with. -/
structure Console.Inv (s : Console) (keys : List UInt8) (m : Mods) : Prop where
  session : s.session.Inv
  mods : s.session.kb.mods = m
  accepted : s.session.accepted = keys
  balanced : s.session.view.Balanced
  typed : s.Typed

theorem typed_initial (t : Term) (buf : ℕ → UInt8) : (Console.initial t buf).Typed :=
  ⟨[], rfl, rfl, fun _ ↦ holds_nil _ _⟩

theorem inv_initial (t : Term) (buf : ℕ → UInt8) :
    (Console.initial t buf).Inv [] Mods.initial where
  session := Keyboard.inv_initial
  mods := rfl
  accepted := rfl
  balanced := (show Session.initial.view = Fifo.empty from rfl) ▸ Fifo.balanced_empty
  typed := typed_initial t buf

variable {s : Console} {keys : List UInt8} {m : Mods} {execs : Execs}

/-- An interrupt puts its character behind the others. -/
theorem Console.Inv.irq (h : s.Inv keys m) {scancode : UInt8} (hrun : s.stopped = false)
    (hroom : decoded s.session.kb scancode = none ∨ s.session.kb.stored.length < 255) :
    (s.step execs (.irq scancode)).Inv (keys ++ (m.decode scancode).toList) (m.step scancode) := by
  have hstored : handlerStored s.session.kb scancode = (m.decode scancode).toList := by
    rw [handlerStored_eq h.session.inRange, ← h.mods, ← decoded_eq_decode]
    rcases hroom with hnone | hroom
    · rw [hnone]
      rfl
    · cases decoded s.session.kb scancode with
      | none => rfl
      | some c => exact if_pos hroom
  rw [Console.step, if_neg (by simp [hrun])]
  refine ⟨h.session.irq scancode, ?_, ?_, ?_, h.typed⟩
  · exact (mods_keyboardHandler ..).trans (by rw [h.mods])
  · change s.session.accepted ++ handlerStored s.session.kb scancode = _
    rw [h.accepted, hstored]
  · change s.session.returned ++ (s.session.irq scancode).kb.stored =
      s.session.accepted ++ handlerStored s.session.kb scancode
    rw [stored_irq h.session.inRange, ← List.append_assoc]
    exact congrArg (· ++ _) h.balanced

/-- A step of the reader returns nothing, or one character. -/
theorem returned_cpu (s : Session) :
    s.cpu.returned = s.returned ∨ ∃ c, s.cpu.returned = s.returned ++ [c] := by
  rw [Session.cpu]
  cases s.pc with
  | popTest =>
    simp only
    split
    · exact Or.inr ⟨0, rfl⟩
    · exact Or.inl rfl
  | popAdvance sc => exact Or.inr ⟨sc, rfl⟩
  | hasKey | hlt | halted | popRead => exact Or.inl rfl

/-- The reader takes from the ring what it returns. -/
theorem balanced_cpu {s : Session} (h : s.Inv) (hb : s.view.Balanced) : s.cpu.view.Balanced := by
  rw [view_cpu h]
  exact List.foldlRecOn _ (Fifo.step 255) hb fun _ h op _ ↦ h.step 255 op

/-- A step of the reader, on the way to the next character. -/
theorem Console.Typed.read (h : s.Typed) (hchar : s.char = none) :
    ({ s with
      session := s.session.cpu
      char := s.session.cpu.returned[s.session.returned.length]? } : Console).Typed := by
  obtain ⟨done, hdone, hlines, hholds⟩ := h
  rw [hchar, Option.toList_none, List.append_nil] at hdone
  refine ⟨done, ?_, hlines, hholds⟩
  rcases returned_cpu s.session with hret | ⟨c, hret⟩
  · simp [hret, hdone]
  · simp [hret, hdone]

/-- **The loop deals with a character** as the line editor does. -/
theorem Console.Typed.key (h : s.Typed) {c : UInt8} (hchar : s.char = some c)
    (hrun : s.stopped = false) (execs : Execs) : (s.key execs c).Typed := by
  obtain ⟨done, hdone, hlines, hholds⟩ := h
  have hholds := hholds hrun
  have hdone' : s.session.returned = done ++ [c] := by rw [hdone, hchar, Option.toList_some]
  rw [Console.key]
  by_cases hc : IsEnter c
  · rw [if_pos hc]
    obtain ⟨hline, hnext⟩ := hholds.enterKey (execs s.lines.length)
    refine ⟨done ++ [c], by simpa using hdone', ?_, ?_⟩
    · rw [linesOf, typing_concat, Typing.key, if_pos hc]
      simp only [hline]
      rw [hlines, linesOf]
    · intro hstop
      rw [typing_concat, Typing.key, if_pos hc]
      exact hnext hstop
  · rw [if_neg hc]
    refine ⟨done ++ [c], by simpa using hdone', ?_, ?_⟩
    · rw [linesOf, typing_concat, Typing.key, if_neg hc]
      exact hlines
    · intro _
      rw [typing_concat, Typing.key, if_neg hc]
      exact hholds.editKey c

/-- A step of the loop. -/
theorem Console.Typed.cpu (h : s.Typed) (execs : Execs) : (s.step execs .cpu).Typed := by
  rw [Console.step, Console.cpu]
  cases hrun : s.stopped with
  | true => exact h
  | false =>
    cases hchar : s.char with
    | some c => exact h.key hchar hrun execs
    | none =>
      simp only [Bool.false_eq_true, if_false]
      exact hrun ▸ h.read hchar

/-- **No step types anything else**, whatever is lost on the way to the loop. -/
theorem Console.Typed.run (h : s.Typed) (execs : Execs) (steps : List Step) :
    (steps.foldl (Console.step execs) s).Typed := by
  refine List.foldlRecOn steps (Console.step execs) h fun s h l _ ↦ ?_
  cases l with
  | irq scancode =>
    rw [Console.step]
    split
    · exact h
    · exact h
  | cpu => exact h.cpu execs

/-- The session after a step of the loop. -/
theorem session_cpu (s : Console) (execs : Execs) :
    (s.step execs .cpu).session = s.session ∨ (s.step execs .cpu).session = s.session.cpu := by
  rw [Console.step, Console.cpu]
  split
  · exact .inl rfl
  · split
    · rw [Console.key]
      split <;> exact .inl rfl
    · exact .inr rfl

theorem Console.Inv.cpu (h : s.Inv keys m) : (s.step execs .cpu).Inv keys m := by
  have htyped := h.typed.cpu execs
  rcases session_cpu s execs with hsession | hsession
  · exact ⟨hsession ▸ h.session, hsession ▸ h.mods, hsession ▸ h.accepted, hsession ▸ h.balanced,
      htyped⟩
  · exact ⟨hsession ▸ h.session.cpu, hsession ▸ (mods_cpu _).trans h.mods,
      hsession ▸ (accepted_cpu _).trans h.accepted, hsession ▸ balanced_cpu h.session h.balanced,
      htyped⟩

/-! ## Schedules -/

/-- **A run in which nothing is lost** decodes the stream and types it. -/
theorem Console.Inv.run (h : s.Inv keys m) {steps : List Step} (hless : s.Lossless execs steps) :
    (steps.foldl (Console.step execs) s).Inv (keys ++ decodeStream m (scancodes steps))
      ((scancodes steps).foldl Mods.step m) := by
  induction steps generalizing s keys m with
  | nil => simpa [scancodes, decodeStream] using h
  | cons l steps ih =>
    cases l with
    | irq scancode =>
      obtain ⟨⟨hrun, hroom⟩, hrest⟩ := hless
      have hirq : (s.step execs (.irq scancode)).Inv _ _ := h.irq hrun hroom
      have hnext := ih hirq hrest
      rwa [List.append_assoc] at hnext
    | cpu => exact ih h.cpu hless

/-- The lines of a schedule are those of its stream. -/
theorem Schedule.lines_eq (sch : Schedule) :
    sch.final.lines = linesOf (decodeStream Mods.initial sch.stream) := by
  have h : sch.final.Inv (decodeStream Mods.initial sch.stream) _ :=
    (inv_initial sch.term sch.buf).run sch.lossless
  obtain ⟨done, hdone, hlines, -⟩ := h.typed
  have hreturned : sch.final.session.returned = sch.final.session.accepted := by
    have hbalanced : sch.final.session.returned ++ sch.final.session.kb.stored = _ := h.balanced
    rwa [show sch.final.session.kb.stored = [] from sch.drained, List.append_nil] at hbalanced
  rw [show sch.final.char = none from sch.idle, Option.toList_none, List.append_nil] at hdone
  rw [hlines, ← hdone, hreturned, h.accepted]

/-- **What the dispatcher sees does not depend on the schedule.**  Two schedules of one stream of
scancodes have the same lines, and they are those of editing the decoded characters one after the
other. -/
theorem schedule_independent (sch₁ sch₂ : Schedule) (h : sch₁.stream = sch₂.stream) :
    sch₁.final.lines = sch₂.final.lines ∧
      sch₁.final.lines = linesOf (decodeStream Mods.initial sch₁.stream) := by
  refine ⟨?_, sch₁.lines_eq⟩
  rw [sch₁.lines_eq, sch₂.lines_eq, h]

/-- A blank screen, and commands that print nothing. -/
def quietTerm : Term := ⟨0, 0, 15, fun _ ↦ vgaEntry space 15⟩

/-- `a`, then Enter, both before the loop has taken its first step. -/
def typedAhead : Schedule where
  execs _ _ t := t
  term := quietTerm
  buf _ := 0
  steps := .irq 0x1E :: .irq 0x1C :: List.replicate 10 .cpu
  lossless := by decide +kernel
  drained := by decide +kernel
  idle := by decide +kernel

/-- The same keys, with the loop halted between them. -/
def typedSlowly : Schedule where
  execs _ _ t := t
  term := quietTerm
  buf _ := 0
  steps := [.cpu, .cpu, .irq 0x1E] ++ List.replicate 7 .cpu ++ .irq 0x1C :: List.replicate 5 .cpu
  lossless := by decide +kernel
  drained := by decide +kernel
  idle := by decide +kernel

theorem schedule_independent_two_keys : typedAhead.final.lines = typedSlowly.final.lines ∧
    typedAhead.final.lines = linesOf (decodeStream Mods.initial typedAhead.stream) :=
  schedule_independent typedAhead typedSlowly rfl

end Aetherion.Shell
