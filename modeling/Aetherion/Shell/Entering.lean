import Aetherion.Shell.Prompt
import Aetherion.Shell.Typeable

/-!
# The lines that can be entered

The whole way from the keys to the dispatcher, and what it lets through.  A loop that is left alone
has dealt with everything after a number of steps that is known in advance (`Console.work`), so keys
that come slowly enough lose nothing (`Console.Rests.slowly`).

With that, and with the keys for each character, any line of printable characters gets through that
fits into the buffer, and no other does (`lines_typed_iff`).
-/

set_option autoImplicit false

namespace Aetherion.Shell

open Keyboard Vga

/-! ## The loop, left alone -/

/-- How many steps the reader needs until all characters that are waiting have been dealt with and
the processor is halted. -/
def readerWork (waiting : ℕ) : Pc → ℕ
  | .hasKey => 5 * waiting + 2
  | .hlt => 1
  | .halted => 0
  | .popTest => 5 * waiting + 1
  | .popRead => 5 * waiting
  | .popAdvance _ => 5 * waiting - 1

/-- How many steps the loop needs until there is nothing left to do. -/
def Console.work (s : Console) : ℕ :=
  let waiting := s.session.kb.stored.length
  if s.stopped then 0
  else if s.char.isSome then 5 * waiting + 3
  else readerWork waiting s.session.pc

/-- The loop is not asleep while characters are waiting, nor about to fall asleep. -/
def Console.Awake (s : Console) : Prop :=
  s.session.pc = .hlt ∨ s.session.pc = .halted → s.session.kb.stored = []

/-- Between two characters of the loop the reader is at the beginning. -/
def Console.Fresh (s : Console) : Prop := s.char.isSome → s.session.pc = .hasKey

variable {s : Console} {keys : List UInt8} {m : Mods} {execs : Execs}

theorem keyboardHasKey_iff (h : s.session.Inv) :
    keyboardHasKey s.session.kb = true ↔ s.session.kb.stored ≠ [] := by
  rw [stored_ne_nil_iff h.inRange, keyboardHasKey]
  exact decide_eq_true_iff

/-- The loop has dealt with a character. -/
theorem key_session (s : Console) (execs : Execs) (c : UInt8) :
    (s.key execs c).session = s.session ∧ (s.key execs c).char = none := by
  rw [Console.key]
  split <;> exact ⟨rfl, rfl⟩

/-- The loop goes on, and is not about to oversleep. -/
structure Console.Up (s : Console) : Prop where
  inv : s.session.Inv
  awake : s.Awake
  fresh : s.Fresh

/-- The reader has taken a character. -/
theorem read_cpu {sc : UInt8} (h : s.session.Inv) (hpc : s.session.pc = .popAdvance sc) :
    s.session.kb.stored = sc :: s.session.cpu.kb.stored ∧ s.session.cpu.pc = .hasKey ∧
      s.session.cpu.returned = s.session.returned ++ [sc] := by
  have hk := h.knows
  rw [hpc] at hk
  replace hk : s.session.kb.stored.head? = some sc := hk
  have hcons := stored_eq_cons h.inRange (by rintro he; simp [he] at hk)
  have hhead := hcons
  rw [hcons, List.head?_cons, Option.some_inj] at hk
  rw [Session.cpu, hpc]
  exact ⟨hhead.trans (by rw [hk]; rfl), rfl, rfl⟩

/-- A step of the reader that moves on without taking a character. -/
theorem Console.Up.moved (h : s.Up) (hrun : s.stopped = false) (hchar : s.char = none) {pc : Pc}
    (hcpu : s.session.cpu = { s.session with pc := pc })
    (hawake : pc = .hlt ∨ pc = .halted → s.session.kb.stored = [])
    (hwork : readerWork s.session.kb.stored.length pc ≤
      readerWork s.session.kb.stored.length s.session.pc - 1) :
    (s.step execs .cpu).Up ∧ (s.step execs .cpu).work ≤ s.work - 1 := by
  have hstep : s.step execs .cpu = { s with session := { s.session with pc := pc } } := by
    rw [Console.step, Console.cpu, hrun, hchar, ← hcpu]
    simp [hcpu]
  have hinv := h.inv.cpu
  rw [hcpu] at hinv
  rw [hstep]
  refine ⟨⟨hinv, hawake, ?_⟩, ?_⟩
  · rw [Console.Fresh, hchar]
    intro hread
    cases hread
  · rw [Console.work, Console.work, hrun, hchar]
    exact hwork

/-- **A step of the loop** leaves less to do. -/
theorem Console.Up.cpu (h : s.Up) :
    (s.step execs .cpu).Up ∧ (s.step execs .cpu).work ≤ s.work - 1 := by
  cases hrun : s.stopped with
  | true =>
    rw [Console.step, Console.cpu, if_pos hrun]
    exact ⟨h, by simp [Console.work, hrun]⟩
  | false =>
    cases hchar : s.char with
    | some c =>
      obtain ⟨hsession, hnone⟩ := key_session s execs c
      have hpc := h.fresh (by rw [hchar]; rfl)
      have hstep : s.step execs .cpu = s.key execs c := by
        simp [Console.step, Console.cpu, hrun, hchar]
      rw [hstep]
      refine ⟨⟨hsession ▸ h.inv, ?_, ?_⟩, ?_⟩
      · rw [Console.Awake, hsession]
        exact h.awake
      · simp [Console.Fresh, hnone]
      · simp only [Console.work, hsession, hnone, hpc, hrun, hchar]
        split <;> simp [readerWork]
    | none =>
      cases hpc : s.session.pc with
      | hasKey =>
        have hcpu : s.session.cpu =
            { s.session with pc := if keyboardHasKey s.session.kb then .popTest else .hlt } := by
          rw [Session.cpu, hpc]
        by_cases hkey : keyboardHasKey s.session.kb = true
        · rw [if_pos hkey] at hcpu
          exact h.moved hrun hchar hcpu (by simp) (by rw [hpc]; exact le_rfl)
        · have hnil : s.session.kb.stored = [] := by
            by_contra hne
            exact hkey ((keyboardHasKey_iff h.inv).mpr hne)
          rw [if_neg hkey] at hcpu
          exact h.moved hrun hchar hcpu (fun _ ↦ hnil) (by rw [hpc, hnil]; exact le_rfl)
      | hlt =>
        have hcpu : s.session.cpu = { s.session with pc := .halted } := by rw [Session.cpu, hpc]
        exact h.moved hrun hchar hcpu (fun _ ↦ h.awake (.inl hpc)) (by rw [hpc]; exact le_rfl)
      | halted =>
        have hcpu : s.session.cpu = { s.session with pc := .halted } := by
          rw [Session.cpu, hpc]
          exact congrArg (fun pc ↦ { s.session with pc := pc }) hpc
        exact h.moved hrun hchar hcpu (fun _ ↦ h.awake (.inr hpc)) (by rw [hpc]; exact le_rfl)
      | popTest =>
        have hne : s.session.kb.stored ≠ [] := by
          have hk := h.inv.knows
          rwa [hpc] at hk
        have hcpu : s.session.cpu = { s.session with pc := .popRead } := by
          rw [Session.cpu, hpc]
          exact if_neg ((stored_ne_nil_iff h.inv.inRange).mp hne)
        exact h.moved hrun hchar hcpu (by simp) (by rw [hpc]; exact le_rfl)
      | popRead =>
        have hcpu : s.session.cpu = { s.session with
            pc := .popAdvance (s.session.kb.kbBuffer s.session.kb.kbTail.toNat) } := by
          rw [Session.cpu, hpc]
        exact h.moved hrun hchar hcpu (by simp) (by rw [hpc]; exact le_rfl)
      | popAdvance sc =>
        obtain ⟨hstored, hnext, hreturned⟩ := read_cpu h.inv hpc
        have hstep : s.step execs .cpu =
            { s with session := s.session.cpu, char := some sc } := by
          simp [Console.step, Console.cpu, hrun, hchar, hreturned]
        rw [hstep]
        refine ⟨⟨h.inv.cpu, ?_, ?_⟩, ?_⟩
        · simp [Console.Awake, hnext]
        · simp [Console.Fresh, hnext]
        · simp [Console.work, readerWork, hrun, hchar, hpc, hstored]
          omega

/-- **Left alone for long enough, the loop has nothing left to do.** -/
theorem Console.Up.drains (h : s.Up) (execs : Execs) {n : ℕ} (hn : s.work ≤ n) :
    let s' := (List.replicate n Step.cpu).foldl (Console.step execs) s
    s'.Up ∧ s'.work = 0 := by
  induction n generalizing s with
  | zero => exact ⟨h, Nat.le_zero.mp hn⟩
  | succ n ih =>
    have hcpu : (s.step execs .cpu).Up ∧ _ := h.cpu
    exact ih hcpu.1 (by omega)

/-- Then nothing is waiting, and the processor is halted until the next key. -/
theorem Console.Up.rests (h : s.Up) (hwork : s.work = 0) (hrun : s.stopped = false) :
    s.session.kb.stored = [] ∧ s.char = none ∧ s.session.pc = .halted := by
  rw [Console.work, hrun] at hwork
  simp only [Bool.false_eq_true, if_false] at hwork
  split at hwork
  · omega
  · rename_i hchar
    have hpc : s.session.pc = .halted := by
      cases hpc : s.session.pc with
      | halted => rfl
      | popRead =>
        have hk := h.inv.knows
        rw [hpc] at hk
        have hpos : 0 < s.session.kb.stored.length := List.length_pos_iff.mpr hk
        simp only [hpc, readerWork] at hwork
        omega
      | popAdvance sc =>
        have hk := h.inv.knows
        rw [hpc] at hk
        have hpos : 0 < s.session.kb.stored.length :=
          List.length_pos_iff.mpr (by rintro he; simp [Pc.Knows, he] at hk)
        simp only [hpc, readerWork] at hwork
        omega
      | hasKey | hlt | popTest =>
        simp only [hpc, readerWork] at hwork
        omega
    exact ⟨h.awake (.inr hpc), by simpa using hchar, hpc⟩

/-! ## Lines -/

/-- A line that can be entered. -/
structure Enterable (l : List UInt8) : Prop where
  length_le : l.length ≤ 255
  printable : ∀ c ∈ l, 32 ≤ c ∧ c < 127

theorem enterable_nil : Enterable [] := ⟨Nat.zero_le _, List.forall_mem_nil _⟩

theorem Enterable.editLine {l : List UInt8} (h : Enterable l) (c : UInt8) :
    Enterable (editLine l c) := by
  rw [Shell.editLine]
  split_ifs with h8 hc
  · refine ⟨?_, fun d hd ↦ h.printable d (List.dropLast_subset _ hd)⟩
    rw [List.length_dropLast]
    exact Nat.le_trans (Nat.sub_le ..) h.length_le
  · obtain ⟨hlow, hhigh, hlt⟩ := hc
    refine ⟨by rw [List.length_append]; exact hlt, fun d hd ↦ ?_⟩
    rcases List.mem_append.mp hd with hd | hd
    · exact h.printable d hd
    · rw [List.mem_singleton.mp hd]
      exact ⟨hlow, hhigh⟩
  · exact h

/-- Only such lines are entered. -/
theorem enterable_typing (keys : List UInt8) :
    Enterable (typing keys).line ∧ ∀ l ∈ linesOf keys, Enterable l := by
  induction keys using List.reverseRecOn with
  | nil => exact ⟨enterable_nil, List.forall_mem_nil _⟩
  | append_singleton keys c ih =>
    obtain ⟨hline, hlines⟩ := ih
    rw [linesOf_concat, typing_concat, Typing.key]
    split
    · refine ⟨enterable_nil, fun l hl ↦ ?_⟩
      rcases List.mem_append.mp hl with hl | hl
      · exact hlines l hl
      · rwa [List.mem_singleton.mp hl]
    · exact ⟨hline.editLine c, hlines⟩

/-- What has been entered stays entered. -/
theorem linesOf_prefix (keys more : List UInt8) : linesOf keys <+: linesOf (keys ++ more) := by
  induction more using List.reverseRecOn with
  | nil => rw [List.append_nil]
  | append_singleton more c ih =>
    rw [← List.append_assoc, linesOf_concat]
    split
    · exact ih.trans (List.prefix_append ..)
    · exact ih

/-- The characters of a line, typed at its beginning. -/
theorem typing_line {keys l : List UInt8} (hl : Enterable l) (hnew : (typing keys).line = []) :
    typing (keys ++ l) = ⟨l, linesOf keys⟩ := by
  obtain ⟨hlen, hprintable⟩ := hl
  induction l using List.reverseRecOn with
  | nil =>
    rw [List.append_nil, linesOf, ← hnew]
  | append_singleton l c ih =>
    rw [List.length_append, List.length_singleton] at hlen
    obtain ⟨hlow, hhigh⟩ := hprintable c (List.mem_append_right _ (List.mem_singleton_self c))
    rw [← List.append_assoc, typing_concat, ih (by omega) fun d hd ↦ hprintable d
      (List.mem_append_left _ hd), Typing.key, if_neg, Shell.editLine, if_neg,
      if_pos ⟨hlow, hhigh, Nat.lt_of_succ_le hlen⟩]
    · rintro rfl
      exact absurd hlow (by decide)
    · rintro (rfl | rfl) <;> exact absurd hlow (by decide)

/-- What has to be typed for some lines, each of them with Enter. -/
def textOf (lines : List (List UInt8)) : List UInt8 := lines.flatMap (· ++ [10])

/-- **Entering lines enters these lines.** -/
theorem typing_textOf {lines : List (List UInt8)} (hlines : ∀ l ∈ lines, Enterable l) :
    typing (textOf lines) = ⟨[], lines⟩ := by
  induction lines using List.reverseRecOn with
  | nil => rfl
  | append_singleton lines l ih =>
    have hearlier := ih fun l' hl' ↦ hlines l' (List.mem_append_left _ hl')
    have hl := hlines l (List.mem_append_right _ (List.mem_singleton_self l))
    rw [textOf, List.flatMap_append, List.flatMap_singleton, ← List.append_assoc, typing_concat,
      ← textOf, typing_line hl (by rw [hearlier]), Typing.key, if_pos (.inl rfl), linesOf, hearlier]

/-! ## Where the shell ends -/

theorem enterKey_stopped_iff (exec : Exec) (e : Editor) :
    (enterKey exec e).stopped = true ↔ dispatch (enterKey exec e).line = .reboot := by
  rw [enterKey_line, enterKey]
  have hempty (hlen : ¬e.cmdLen > 0) : dispatch (cString (Function.update e.cmdBuf e.cmdLen 0)) ≠
      .reboot := by
    have hline : cString (Function.update e.cmdBuf e.cmdLen 0) = [] := by
      have hzero : e.cmdLen = 0 := by omega
      rw [hzero, cString, cmdBufSize, List.range_succ_eq_map, List.map_cons, Function.update_self]
      rfl
    rw [hline]
    decide
  split
  · exact iff_of_true rfl ‹_ ∧ _›.2
  · rename_i hnot
    refine iff_of_false Bool.false_ne_true fun hreboot ↦ hnot ⟨?_, hreboot⟩
    by_contra hlen
    exact hempty hlen hreboot

/-- Nothing but a `reboot` stops the loop, and it is the last line. -/
structure Console.Ends (s : Console) : Prop where
  stopped : s.stopped = true → ∃ l ∈ s.lines, dispatch l = .reboot
  going : s.stopped = false → ∀ l ∈ s.lines, dispatch l ≠ .reboot
  earlier : ∀ l ∈ s.lines.dropLast, dispatch l ≠ .reboot

theorem ends_initial (t : Term) (buf : ℕ → UInt8) : (Console.initial t buf).Ends :=
  ⟨fun h ↦ absurd h Bool.false_ne_true, fun _ ↦ List.forall_mem_nil _, List.forall_mem_nil _⟩

theorem Console.Ends.step (h : s.Ends) (l : Step) : (s.step execs l).Ends := by
  cases l with
  | irq sc =>
    rw [Console.step]
    split
    · exact h
    · exact ⟨h.stopped, h.going, h.earlier⟩
  | cpu =>
    rw [Console.step, Console.cpu]
    split
    · exact h
    rename_i hrun
    rw [Bool.not_eq_true] at hrun
    cases s.char with
    | none => exact ⟨h.stopped, h.going, h.earlier⟩
    | some c =>
      simp only [Console.key]
      split
      · have hstop := enterKey_stopped_iff (execs s.lines.length) s.editor
        refine ⟨fun h' ↦ ⟨_, List.mem_append_right _ (List.mem_singleton_self _), hstop.mp h'⟩,
          fun h' l hl ↦ ?_, ?_⟩
        · rcases List.mem_append.mp hl with hl | hl
          · exact h.going hrun l hl
          · rw [List.mem_singleton.mp hl]
            exact fun hreboot ↦ Bool.false_ne_true (h'.symm.trans (hstop.mpr hreboot))
        · rw [List.dropLast_concat]
          exact h.going hrun
      · exact ⟨h.stopped, h.going, h.earlier⟩

theorem Console.Ends.run (h : s.Ends) (steps : List Step) :
    (steps.foldl (Console.step execs) s).Ends :=
  List.foldlRecOn steps (Console.step execs) h fun _ h l _ ↦ h.step l

/-! ## Typing slowly -/

/-- Scancodes that come slowly: the loop has time for seven steps after each of them. -/
def slowly (stream : List UInt8) : List Step :=
  stream.flatMap fun sc ↦ .irq sc :: List.replicate 7 .cpu

theorem lossless_append (s : Console) (steps more : List Step) :
    s.Lossless execs (steps ++ more) ↔ s.Lossless execs steps ∧
      (steps.foldl (Console.step execs) s).Lossless execs more := by
  induction steps generalizing s with
  | nil => exact (and_iff_right trivial).symm
  | cons l steps ih =>
    cases l with
    | irq sc =>
      rw [List.cons_append, Console.Lossless, Console.Lossless, ih]
      exact and_assoc.symm
    | cpu =>
      rw [List.cons_append, Console.Lossless, Console.Lossless, ih]
      rfl

theorem lossless_cpu (s : Console) (n : ℕ) : s.Lossless execs (List.replicate n .cpu) := by
  induction n generalizing s with
  | zero => trivial
  | succ n ih => exact ih _

/-- The loop has dealt with everything. -/
structure Console.Rests (s : Console) (keys : List UInt8) (m : Mods) : Prop where
  up : s.Up
  inv : s.Inv keys m
  ends : s.Ends
  work : s.work = 0

/-- A key that comes while the processor is halted has it do at most seven steps. -/
theorem Console.Rests.irq (h : s.Rests keys m) (execs : Execs) (hrun : s.stopped = false)
    (sc : UInt8) :
    (s.step execs (.irq sc)).Up ∧ (s.step execs (.irq sc)).work ≤ 7 := by
  obtain ⟨hnil, hchar, hpc⟩ := h.up.rests h.work hrun
  have hstep : s.step execs (.irq sc) = { s with session := s.session.irq sc } := by
    rw [Console.step, hrun]
    rfl
  have hwake : (s.session.irq sc).pc = .hasKey := by
    rw [Session.irq, hpc]
    rfl
  have hlen : (s.session.irq sc).kb.stored.length ≤ 1 := by
    rw [stored_irq h.up.inv.inRange, hnil, List.nil_append, handlerStored]
    split <;> simp
  rw [hstep]
  refine ⟨⟨h.up.inv.irq sc, ?_, fun _ ↦ hwake⟩, ?_⟩
  · rw [Console.Awake, hwake]
    simp
  · simp only [Console.work, hrun, hchar, hwake, readerWork]
    simp
    omega

/-- **A key that comes slowly** is dealt with before the next. -/
theorem Console.Rests.stroke (h : s.Rests keys m) (execs : Execs) (hrun : s.stopped = false)
    (sc : UInt8) :
    s.Lossless execs (.irq sc :: List.replicate 7 .cpu) ∧
      ((Step.irq sc :: List.replicate 7 .cpu).foldl (Console.step execs) s).Rests
        (keys ++ (m.decode sc).toList) (m.step sc) := by
  obtain ⟨hnil, -, -⟩ := h.up.rests h.work hrun
  have hless : s.Lossless execs (.irq sc :: List.replicate 7 .cpu) :=
    ⟨⟨hrun, .inr (by rw [hnil]; decide)⟩, lossless_cpu _ _⟩
  obtain ⟨hup, hwork⟩ := h.irq execs hrun sc
  obtain ⟨hup', hwork'⟩ := hup.drains execs hwork
  have hinv := h.inv.run hless
  rw [show scancodes (.irq sc :: List.replicate 7 .cpu) = [sc] from rfl, decodeStream,
    decodeStream, List.append_nil] at hinv
  exact ⟨hless, hup', hinv, h.ends.run _, hwork'⟩

/-- The machine has not stopped before the line that stops it. -/
theorem Console.Rests.stopped_false (h : s.Rests keys m)
    (hgo : ∀ l ∈ linesOf keys, dispatch l ≠ .reboot) : s.stopped = false := by
  by_contra hstop
  obtain ⟨l, hl, hreboot⟩ := h.ends.stopped (by simpa using hstop)
  obtain ⟨done, hdone, hlines, -⟩ := h.inv.typed
  have hall : s.session.returned ++ s.session.kb.stored = keys :=
    h.inv.balanced.trans h.inv.accepted
  rw [hdone, List.append_assoc] at hall
  exact hgo l ((hall ▸ linesOf_prefix done _).subset (hlines ▸ hl)) hreboot

/-- **Keys that come slowly** are all dealt with, as long as there is no `reboot` among them. -/
theorem Console.Rests.slowly (h : s.Rests keys m) (execs : Execs) (stream : List UInt8)
    (hgo : ∀ l ∈ linesOf (keys ++ decodeStream m stream), dispatch l ≠ .reboot) :
    s.Lossless execs (slowly stream) ∧
      ((slowly stream).foldl (Console.step execs) s).Rests (keys ++ decodeStream m stream)
        (stream.foldl Mods.step m) := by
  induction stream generalizing s keys m with
  | nil =>
    rw [decodeStream, List.append_nil]
    exact ⟨trivial, h⟩
  | cons sc stream ih =>
    rw [decodeStream, ← List.append_assoc] at hgo
    have hrun := h.stopped_false fun l hl ↦ hgo l
      ((List.append_assoc .. ▸ linesOf_prefix keys _).subset hl)
    obtain ⟨hless, hnext⟩ := h.stroke execs hrun sc
    obtain ⟨hrest, hend⟩ := ih hnext hgo
    rw [decodeStream, ← List.append_assoc, Shell.slowly, List.flatMap_cons, List.foldl_append,
      lossless_append]
    exact ⟨⟨hless, hrest⟩, hend⟩

/-- When the last key of a text has been dealt with, nothing is left, even if it has stopped the
machine. -/
theorem Console.Rests.drained {c : UInt8} (h : s.Rests (keys ++ [c]) m)
    (hgo : ∀ l ∈ linesOf keys, dispatch l ≠ .reboot) :
    s.session.kb.stored = [] ∧ s.char = none := by
  cases hrun : s.stopped with
  | false =>
    obtain ⟨hnil, hchar, -⟩ := h.up.rests h.work hrun
    exact ⟨hnil, hchar⟩
  | true =>
    obtain ⟨l, hl, hreboot⟩ := h.ends.stopped hrun
    obtain ⟨done, hdone, hlines, -⟩ := h.inv.typed
    have hall : s.session.returned ++ s.session.kb.stored = keys ++ [c] :=
      h.inv.balanced.trans h.inv.accepted
    rw [hdone, List.append_assoc] at hall
    -- if anything were left, the `reboot` would be among the lines before the last key
    have hrest : s.char.toList ++ s.session.kb.stored = [] := by
      by_contra hne
      rw [← List.dropLast_concat_getLast hne, ← List.append_assoc] at hall
      have hkeys := (List.append_inj' hall rfl).1
      exact hgo l ((hkeys ▸ linesOf_prefix done _).subset (hlines ▸ hl)) hreboot
    obtain ⟨hchar, hnil⟩ := List.append_eq_nil_iff.mp hrest
    exact ⟨hnil, by simpa using hchar⟩

theorem stored_initial : Session.initial.kb.stored = [] := rfl

/-- When nothing is left, everything has been typed. -/
theorem Console.Inv.lines_eq (h : s.Inv keys m) (hnil : s.session.kb.stored = [])
    (hchar : s.char = none) : s.lines = linesOf keys := by
  obtain ⟨done, hdone, hlines, -⟩ := h.typed
  have hall : s.session.returned ++ s.session.kb.stored = keys := h.balanced.trans h.accepted
  rw [hdone, hchar, hnil, Option.toList_none, List.append_nil, List.append_nil] at hall
  rw [hlines, hall]

/-- Before the first key the processor goes to sleep. -/
theorem rests_initial (execs : Execs) (t : Term) (buf : ℕ → UInt8) :
    ((List.replicate 2 Step.cpu).foldl (Console.step execs) (Console.initial t buf)).Rests []
      Mods.initial := by
  have hup : (Console.initial t buf).Up :=
    ⟨Keyboard.inv_initial, fun _ ↦ stored_initial, fun _ ↦ rfl⟩
  have htwo : (Console.initial t buf).work = 2 := by
    simp only [Console.work, Console.initial, stored_initial]
    rfl
  obtain ⟨hup', hwork⟩ := hup.drains execs htwo.le
  exact ⟨hup', (inv_initial t buf).run (lossless_cpu _ 2), (ends_initial t buf).run _, hwork⟩

theorem typeable_text {ls : List (List UInt8)} {l : List UInt8} (hls : ∀ l ∈ ls, Enterable l)
    (hl : Enterable l) : ∀ c ∈ textOf ls ++ l, Typeable c := by
  intro c hc
  rcases List.mem_append.mp hc with hc | hc
  · obtain ⟨l', hl', hc⟩ := List.mem_flatMap.mp hc
    rcases List.mem_append.mp hc with hc | hc
    · exact .inr ((hls l' hl').printable c hc)
    · rw [List.mem_singleton.mp hc]
      decide
  · exact .inr (hl.printable c hc)

/-- The keys for some lines, and Enter behind the last, come slowly. -/
theorem exists_schedule (execs : Execs) (t : Term) (buf : ℕ → UInt8) {ls : List (List UInt8)}
    {l : List UInt8} (hls : ∀ l ∈ ls, Enterable l) (hl : Enterable l)
    (hgo : ∀ l ∈ ls, dispatch l ≠ .reboot) :
    ∃ sch : Schedule, sch.execs = execs ∧ sch.term = t ∧ sch.buf = buf ∧
      sch.final.lines = ls ++ [l] := by
  -- all but the last Enter
  let text := textOf ls ++ l
  let stream := text.flatMap strokes
  obtain ⟨hchars, hmods⟩ : decodeStream Mods.initial stream = text ∧
      stream.foldl Mods.step Mods.initial = Mods.initial :=
    decodeStream_strokes (typeable_text hls hl)
  have htyping : typing text = ⟨l, ls⟩ := by
    rw [typing_line hl (by rw [typing_textOf hls]), linesOf, typing_textOf hls]
  have hgoing : ∀ l ∈ linesOf text, dispatch l ≠ .reboot := by rwa [linesOf, htyping]
  have hinit := rests_initial execs t buf
  obtain ⟨hslow, hrests⟩ := hinit.slowly execs stream
    (by rwa [hchars, List.nil_append])
  rw [hchars, hmods, List.nil_append] at hrests
  obtain ⟨hlast, hend⟩ := hrests.stroke execs (hrests.stopped_false hgoing) 0x1C
  rw [← List.foldl_append, ← List.foldl_append] at hend
  have hless : (Console.initial t buf).Lossless execs (List.replicate 2 .cpu) := lossless_cpu _ _
  have hall := (lossless_append _ _ _).mpr ⟨hless, (lossless_append _ _ _).mpr ⟨hslow, hlast⟩⟩
  obtain ⟨hnil, hchar⟩ := hend.drained hgoing
  refine ⟨⟨execs, t, buf, _, hall, hnil, hchar⟩, rfl, rfl, rfl, ?_⟩
  refine (hend.inv.lines_eq hnil hchar).trans ((linesOf_enter (.inl rfl)).trans ?_)
  rw [linesOf, htyping]

/-- Each is a line of printable characters that fits into the buffer, and none but the last asks
for a `reboot`. -/
structure Enterables (lines : List (List UInt8)) : Prop where
  enterable : ∀ l ∈ lines, Enterable l
  going : ∀ l ∈ lines.dropLast, dispatch l ≠ .reboot

/-- **Nothing else reaches the dispatcher**, in whatever order the interrupts and the steps of the
loop come, even where characters are lost or still waiting. -/
theorem enterables_run (execs : Execs) (t : Term) (buf : ℕ → UInt8) (steps : List Step) :
    Enterables (steps.foldl (Console.step execs) (Console.initial t buf)).lines := by
  obtain ⟨done, -, hlines, -⟩ := (typed_initial t buf).run execs steps
  exact ⟨hlines ▸ (enterable_typing done).2, ((ends_initial t buf).run steps).earlier⟩

/-- Such lines are entered in some schedule. -/
theorem Enterables.exists_schedule {lines : List (List UInt8)} (h : Enterables lines)
    (execs : Execs) (t : Term) (buf : ℕ → UInt8) :
    ∃ sch : Schedule, sch.execs = execs ∧ sch.term = t ∧ sch.buf = buf ∧
      sch.final.lines = lines := by
  obtain ⟨hlines, hgo⟩ := h
  rcases List.eq_nil_or_concat lines with rfl | ⟨ls, l, rfl⟩
  · exact ⟨⟨execs, t, buf, [], trivial, stored_initial, rfl⟩, rfl, rfl, rfl, rfl⟩
  · rw [List.concat_eq_append] at hlines hgo ⊢
    rw [List.dropLast_concat] at hgo
    exact Shell.exists_schedule execs t buf (fun l hl ↦ hlines l (List.mem_append_left _ hl))
      (hlines l (List.mem_append_right _ (List.mem_singleton_self l))) hgo

/-- **What can be entered**, whatever the commands do to the screen: the lines that the dispatcher
has seen after some interrupts and steps of the loop, in any order, are of this kind, and all of
this kind can be had, without losing a character. -/
theorem lines_typed_iff (execs : Execs) (t : Term) (buf : ℕ → UInt8) (lines : List (List UInt8)) :
    ((∃ steps : List Step,
        (steps.foldl (Console.step execs) (Console.initial t buf)).lines = lines) ↔
      Enterables lines) ∧
    ((∃ sch : Schedule, sch.execs = execs ∧ sch.term = t ∧ sch.buf = buf ∧
        sch.final.lines = lines) ↔ Enterables lines) := by
  refine ⟨⟨?_, fun h ↦ ?_⟩, ?_, fun h ↦ h.exists_schedule execs t buf⟩
  · rintro ⟨steps, rfl⟩
    exact enterables_run execs t buf steps
  · obtain ⟨sch, rfl, rfl, rfl, hlines⟩ := h.exists_schedule execs t buf
    exact ⟨sch.steps, hlines⟩
  · rintro ⟨sch, rfl, rfl, rfl, rfl⟩
    exact enterables_run sch.execs sch.term sch.buf sch.steps

end Aetherion.Shell
