import Aetherion.Keyboard.Handler

/-!
# The keyboard ring between interrupt and reader

`keyboard_getchar` runs with interrupts enabled, and `keyboard_handler` runs, whole, between any
two of its steps.  A `Session` is the driver's state together with where the reader stands; one
`Step` is either an interrupt or one step of the reader.

The reader only ever moves the tail, and the handler only ever moves the head, so a character the
reader has seen stays where it is until the reader takes it.  That is the content of
`Session.Inv`, and it makes every run a run of the bounded queue `Fifo` (`run_refines_fifo`).
-/

set_option autoImplicit false

namespace Aetherion.Keyboard

/-- Where the reader stands in `keyboard_getchar` and the `kb_buffer_pop` it ends in. -/
inductive Pc where
  /-- About to test `keyboard_has_key`. -/
  | hasKey
  /-- About to execute `hlt`. -/
  | hlt
  /-- Halted, until the next interrupt. -/
  | halted
  /-- In `kb_buffer_pop`, about to test `kb_head == kb_tail`. -/
  | popTest
  /-- About to read `kb_buffer[kb_tail]`. -/
  | popRead
  /-- About to advance `kb_tail` and return what was read. -/
  | popAdvance (sc : UInt8)

/-- The keyboard driver with one reader that calls `keyboard_getchar` for ever. -/
structure Session where
  /-- The driver's statics. -/
  kb : Kbd
  /-- Where the reader stands. -/
  pc : Pc
  /-- Every character the handler has stored so far. -/
  accepted : List UInt8
  /-- Every value `keyboard_getchar` has returned so far. -/
  returned : List UInt8

/-- What can happen next. -/
inductive Step where
  /-- The keyboard interrupts with a scancode. -/
  | irq (scancode : UInt8)
  /-- The reader takes a step. -/
  | cpu

/-- What the handler has stored: the cell the head has moved over, if it has moved. -/
def handlerStored (kb : Kbd) (scancode : UInt8) : List UInt8 :=
  let kb' := keyboardHandler kb scancode
  if kb'.kbHead ≠ kb.kbHead then [kb'.kbBuffer kb.kbHead.toNat] else []

/-- An interrupt wakes a halted processor up, which goes round the loop again. -/
def Pc.wake : Pc → Pc
  | .halted => .hasKey
  | pc => pc

/-- An interrupt runs the handler. -/
def Session.irq (s : Session) (scancode : UInt8) : Session :=
  { s with
    kb := keyboardHandler s.kb scancode
    pc := s.pc.wake
    accepted := s.accepted ++ handlerStored s.kb scancode }

/-- `keyboard_getchar` returns. -/
def Session.ret (s : Session) (c : UInt8) : Session :=
  { s with pc := .hasKey, returned := s.returned ++ [c] }

/-- One step of `keyboard_getchar`. -/
def Session.cpu (s : Session) : Session :=
  match s.pc with
  | .hasKey => { s with pc := if keyboardHasKey s.kb then .popTest else .hlt }
  | .hlt => { s with pc := .halted }
  | .halted => s
  | .popTest => if s.kb.kbHead = s.kb.kbTail then s.ret 0 else { s with pc := .popRead }
  | .popRead => { s with pc := .popAdvance (s.kb.kbBuffer s.kb.kbTail.toNat) }
  | .popAdvance sc =>
    ({ s with kb := { s.kb with kbTail := (s.kb.kbTail + 1) % 256 } } : Session).ret sc

def Session.step (s : Session) : Step → Session
  | .irq scancode => s.irq scancode
  | .cpu => s.cpu

/-- After boot: the ring is empty and the reader makes its first call. -/
def Session.initial : Session := ⟨Kbd.initial, .hasKey, [], []⟩

/-- The session after a run of steps. -/
def run (steps : List Step) : Session := steps.foldl Session.step Session.initial

/-! ## The queue seen from outside -/

/-- A session as a queue: what waits in the ring, what was stored, what was returned. -/
def Session.view (s : Session) : Fifo UInt8 := ⟨s.kb.stored, s.accepted, s.returned⟩

/-- What a step means to the queue. -/
def Session.op (s : Session) : Step → List (Fifo.Op UInt8)
  | .irq scancode =>
    match decoded s.kb scancode with
    | none => []
    | some c => [.push c]
  | .cpu =>
    match s.pc with
    | .popAdvance _ => [.pop]
    | _ => []

/-- What a run of steps means to the queue. -/
def ops (s : Session) : List Step → List (Fifo.Op UInt8)
  | [] => []
  | l :: steps => s.op l ++ ops (s.step l) steps

/-- What the reader knows about the ring at each of its steps. -/
def Pc.Knows (pc : Pc) (stored : List UInt8) : Prop :=
  match pc with
  | .hasKey | .hlt | .halted => True
  | .popTest | .popRead => stored ≠ []
  | .popAdvance sc => stored.head? = some sc

/-- **The invariant**: the indices are in range, what the reader has seen is still there, and no
stored character is zero. -/
structure Session.Inv (s : Session) : Prop where
  inRange : s.kb.ring.InRange kbBufferSize
  knows : s.pc.Knows s.kb.stored
  ne_zero : ∀ c ∈ s.accepted, c ≠ 0

theorem inv_initial : Session.initial.Inv where
  inRange := ⟨by decide, by decide⟩
  knows := trivial
  ne_zero := by simp [Session.initial]

/-- Characters that arrive behind what the reader knows do not change what it knows. -/
theorem Pc.Knows.append {pc : Pc} {stored : List UInt8} (h : pc.Knows stored)
    (more : List UInt8) : pc.Knows (stored ++ more) := by
  cases pc with
  | hasKey | hlt | halted => trivial
  | popTest | popRead => exact List.append_ne_nil_of_left_ne_nil h more
  | popAdvance sc =>
    change (stored ++ more).head? = some sc
    rw [List.head?_append, show stored.head? = some sc from h]
    rfl

theorem Pc.Knows.wake {pc : Pc} {stored : List UInt8} (h : pc.Knows stored) :
    pc.wake.Knows stored := by
  cases pc with
  | halted => trivial
  | hasKey | hlt | popTest | popRead | popAdvance => exact h

/-! ## An interrupt -/

variable {s : Session}

/-- The head moves exactly when the ring has room for a decoded character. -/
theorem handlerStored_eq (h : s.kb.ring.InRange kbBufferSize) (scancode : UInt8) :
    handlerStored s.kb scancode =
      match decoded s.kb scancode with
      | none => []
      | some c => if s.kb.stored.length < 255 then [c] else [] := by
  have hring := keyboardHandler_ring s.kb scancode
  have hcell (i : ℕ) := congrFun (congrArg RingBuffer.cells hring) i
  have hhead := congrArg RingBuffer.head hring
  have hne : (keyboardHandler s.kb scancode).kbHead ≠ s.kb.kbHead ↔
      (keyboardHandler s.kb scancode).ring.head ≠ s.kb.ring.head := by
    rw [Ne, Ne, ← UInt16.toNat_inj]
    rfl
  cases hd : decoded s.kb scancode with
  | none =>
    simp only [hd] at hhead ⊢
    rw [handlerStored, if_neg (by rw [hne, hhead]; exact not_not_intro rfl)]
  | some c =>
    simp only [hd, kbBufferPush_ring h.head, h.push_eq] at hhead hcell ⊢
    by_cases hroom : s.kb.stored.length < 255
    · simp only [if_pos (show (s.kb.ring.contents kbBufferSize).length < kbBufferSize - 1
        from hroom)] at hhead hcell
      have hmoved : (s.kb.ring.head + 1) % 256 ≠ s.kb.ring.head := by
        have : s.kb.ring.head < 256 := h.head
        omega
      rw [if_pos hroom, handlerStored, if_pos (by rw [hne, hhead]; exact hmoved)]
      have hnew := hcell s.kb.ring.head
      rw [Function.update_self] at hnew
      exact congrArg (fun c ↦ [c]) hnew
    · simp only [if_neg (show ¬(s.kb.ring.contents kbBufferSize).length < kbBufferSize - 1
        from hroom)] at hhead
      rw [if_neg hroom, handlerStored, if_neg (by rw [hne, hhead]; exact not_not_intro rfl)]

/-- What the handler stores goes behind what is stored. -/
theorem stored_irq (h : s.kb.ring.InRange kbBufferSize) (scancode : UInt8) :
    (s.irq scancode).kb.stored = s.kb.stored ++ handlerStored s.kb scancode := by
  rw [handlerStored_eq h, Kbd.stored, Session.irq, keyboardHandler_ring]
  cases decoded s.kb scancode with
  | none => exact (List.append_nil _).symm
  | some c =>
    simp only
    rw [kbBufferPush_ring h.head, h.contents_push, ← Kbd.stored]
    change (if s.kb.stored.length < 255 then _ else _) = _
    split <;> simp

theorem Session.Inv.irq (h : s.Inv) (scancode : UInt8) : (s.irq scancode).Inv where
  inRange := by
    rw [Session.irq, keyboardHandler_ring]
    cases decoded s.kb scancode with
    | none => exact h.inRange
    | some c =>
      simp only
      rw [kbBufferPush_ring h.inRange.head]
      exact h.inRange.push c
  knows := by
    rw [stored_irq h.inRange]
    exact (h.knows.append (handlerStored s.kb scancode)).wake
  ne_zero c hc := by
    rcases List.mem_append.mp hc with hc | hc
    · exact h.ne_zero c hc
    · rw [handlerStored_eq h.inRange] at hc
      cases hd : decoded s.kb scancode with
      | none => simp [hd] at hc
      | some c' =>
        simp only [hd] at hc
        split at hc
        · rw [List.mem_singleton.mp hc]
          exact decoded_ne_zero hd
        · cases hc

/-- **An interrupt is a push** of the decoded character, if there is one. -/
theorem view_irq (h : s.Inv) (scancode : UInt8) :
    (s.irq scancode).view = (s.op (.irq scancode)).foldl (Fifo.step 255) s.view := by
  have hstored := stored_irq h.inRange scancode
  rw [Session.view, hstored, Session.op]
  simp only [Session.irq, handlerStored_eq h.inRange]
  cases decoded s.kb scancode with
  | none => simp [Session.view]
  | some c =>
    simp only [List.foldl_cons, List.foldl_nil, Fifo.step, Session.view]
    split <;> simp

/-! ## A step of the reader -/

/-- The ring without the character the reader takes. -/
theorem stored_eq_cons (h : s.kb.ring.InRange kbBufferSize) (hne : s.kb.stored ≠ []) :
    s.kb.stored = s.kb.kbBuffer s.kb.kbTail.toNat ::
      ({ s.kb with kbTail := (s.kb.kbTail + 1) % 256 } : Kbd).stored := by
  have htail := toNat_next s.kb.kbTail h.tail
  rw [Kbd.stored, h.contents_eq_cons (mt h.contents_eq_nil_iff.mpr hne), Kbd.stored]
  simp only [RingBuffer.pop, Kbd.ring, htail]

theorem stored_ne_nil_iff (h : s.kb.ring.InRange kbBufferSize) :
    s.kb.stored ≠ [] ↔ s.kb.kbHead ≠ s.kb.kbTail := by
  rw [Ne, Ne, Kbd.stored, h.contents_eq_nil_iff, ← UInt16.toNat_inj]
  rfl

/-- **A step of the reader is a pop** when it advances the tail, and nothing otherwise. -/
theorem view_cpu (h : s.Inv) :
    s.cpu.view = (s.op .cpu).foldl (Fifo.step 255) s.view := by
  have hk := h.knows
  rw [Session.cpu, Session.op]
  cases hpc : s.pc with
  | hasKey | hlt | halted | popRead => rfl
  | popTest =>
    -- the second test of `kb_buffer_pop` cannot fail: nobody else takes characters
    rw [hpc] at hk
    simp only [if_neg ((stored_ne_nil_iff h.inRange).mp hk)]
    rfl
  | popAdvance sc =>
    rw [hpc] at hk
    replace hk : s.kb.stored.head? = some sc := hk
    have hcons := stored_eq_cons h.inRange (by rintro he; simp [he] at hk)
    rw [hcons, List.head?_cons, Option.some_inj] at hk
    simp only [List.foldl_cons, List.foldl_nil, Fifo.step, Session.view, Session.ret]
    rw [hcons, hk]

theorem Session.Inv.cpu (h : s.Inv) : s.cpu.Inv := by
  have hr := h.inRange
  have hk := h.knows
  have hz := h.ne_zero
  rw [Session.cpu]
  cases hpc : s.pc with
  | hasKey =>
    refine ⟨hr, ?_, hz⟩
    simp only [keyboardHasKey, decide_eq_true_eq]
    split
    · exact (stored_ne_nil_iff hr).mpr ‹_›
    · trivial
  | hlt => exact ⟨hr, trivial, hz⟩
  | halted => exact h
  | popTest =>
    rw [hpc] at hk
    simp only [if_neg ((stored_ne_nil_iff hr).mp hk)]
    exact ⟨hr, hk, hz⟩
  | popRead =>
    rw [hpc] at hk
    refine ⟨hr, ?_, hz⟩
    change s.kb.stored.head? = some _
    rw [stored_eq_cons hr hk, List.head?_cons]
  | popAdvance sc =>
    refine ⟨⟨hr.head, ?_⟩, trivial, hz⟩
    change ((s.kb.kbTail + 1) % 256).toNat < 256
    rw [toNat_next _ hr.tail]
    exact Nat.mod_lt _ (by decide)

/-! ## Runs -/

theorem Session.Inv.step (h : s.Inv) (l : Step) : (s.step l).Inv := by
  cases l with
  | irq scancode => exact h.irq scancode
  | cpu => exact h.cpu

theorem view_step (h : s.Inv) (l : Step) :
    (s.step l).view = (s.op l).foldl (Fifo.step 255) s.view := by
  cases l with
  | irq scancode => exact view_irq h scancode
  | cpu => exact view_cpu h

theorem inv_run (steps : List Step) : (run steps).Inv :=
  List.foldlRecOn steps Session.step inv_initial fun _ h l _ ↦ h.step l

/-- A run of steps is a run of the queue, from any state that satisfies the invariant. -/
theorem view_foldl (h : s.Inv) (steps : List Step) :
    (steps.foldl Session.step s).view = (ops s steps).foldl (Fifo.step 255) s.view := by
  induction steps generalizing s with
  | nil => rfl
  | cons l steps ih =>
    rw [List.foldl_cons, ih (h.step l), view_step h l, ops, List.foldl_append]

/-- **The keyboard ring is a queue of capacity 255**, however the interrupts fall between the
reader's steps: the indices stay in range, a decoded character is let in unless 255 are waiting,
and what `keyboard_getchar` returns are the characters let in, in order, each once, and never the
value 0 that stands for an empty ring. -/
theorem run_refines_fifo (steps : List Step) :
    (run steps).view = (ops Session.initial steps).foldl (Fifo.step 255) Fifo.empty ∧
      (run steps).kb.kbHead < 256 ∧ (run steps).kb.kbTail < 256 ∧
      (run steps).kb.stored.length ≤ 255 ∧
      (run steps).returned ++ (run steps).kb.stored = (run steps).accepted ∧
      0 ∉ (run steps).returned := by
  have hinv := inv_run steps
  have hview : (run steps).view = (ops Session.initial steps).foldl (Fifo.step 255) Fifo.empty :=
    view_foldl inv_initial steps
  have hbal : (run steps).returned ++ (run steps).kb.stored = (run steps).accepted := by
    have := Fifo.balanced_run 255 (ops Session.initial steps)
    rwa [← hview] at this
  refine ⟨hview, hinv.inRange.head, hinv.inRange.tail, ?_, hbal, ?_⟩
  · rw [Kbd.stored, RingBuffer.length_contents]
    exact Nat.le_of_lt_succ hinv.inRange.len_lt
  · intro h0
    exact hinv.ne_zero 0 (hbal ▸ List.mem_append_left _ h0) rfl

end Aetherion.Keyboard
