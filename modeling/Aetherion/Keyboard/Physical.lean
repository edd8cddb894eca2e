import Aetherion.Keyboard.Modifiers

/-!
# The flags and the keys

What the flags of the driver stand for are keys that are down.  This file has the keyboard itself:
which keys are down, what it sends when one is pressed, held or released, and what it is possible
for a user to do next.

Two keys share each of the flags for Shift, Ctrl and Alt, and the flag cannot tell them apart, so
it goes down with the first of them that is released.  Caps Lock is the second weak point: a key
that is held repeats its make code, and each repeat toggles the flag.  The third are the fake shifts
that Print Screen and the navigation keys send with their own codes, which the driver takes for
Shift itself.  `flags_track_iff` says that the flags follow the keys in exactly the streams in which
none of this happens.
-/

set_option autoImplicit false

namespace Aetherion.Keyboard

/-! ## The keyboard -/

/-- A key that is none of the modifiers. -/
structure PlainKey where
  /-- Its codes have the prefix `0xE0`. -/
  prefixed : Bool
  /-- Its make code, without the prefix. -/
  code : UInt8
  /-- Bit 7 is what tells a break code from a make code. -/
  code_lt : code < 0x80
  /-- The code is no modifier's. -/
  not_modifier : code ∉ [0x2A, 0x36, 0x1D, 0x38, 0x3A]
  deriving DecidableEq

/-- A key. -/
inductive Key where
  | leftShift | rightShift | leftCtrl | rightCtrl | leftAlt | rightAlt | capsLock
  | plain (k : PlainKey)
  deriving DecidableEq

/-- The code of a key, without the prefix. -/
def Key.code : Key → UInt8
  | .leftShift => 0x2A
  | .rightShift => 0x36
  | .leftCtrl | .rightCtrl => 0x1D
  | .leftAlt | .rightAlt => 0x38
  | .capsLock => 0x3A
  | .plain k => k.code

/-- The prefix of a key's codes, if it has one. -/
def Key.pre : Key → List UInt8
  | .rightCtrl | .rightAlt => [0xE0]
  | .plain k => if k.prefixed then [0xE0] else []
  | _ => []

/-- A code with which the keyboard pretends that a Shift key has moved. -/
structure FakeShift where
  /-- It is the right one. -/
  right : Bool
  /-- It goes up. -/
  up : Bool

def FakeShift.bytes (f : FakeShift) : List UInt8 :=
  [0xE0, (if f.right then 0x36 else 0x2A) ||| if f.up then 0x80 else 0]

/-- The keys that send fake shifts have prefixed codes: Print Screen, so that it looks like Shift
and the star of the keypad, and the navigation keys and the slash of the keypad, so that they look
as if Num Lock were off and Shift up. -/
def Key.fakesShift : Key → Bool
  | .plain k => k.prefixed
  | _ => false

/-- Something that happens on the keyboard.  Which fake shifts go with it, the keyboard decides by
the other keys that are down and by Num Lock. -/
inductive KeyEvent where
  /-- The key goes down. -/
  | press (k : Key) (fakes : List FakeShift)
  /-- The key is held, and repeats. -/
  | again (k : Key) (fakes : List FakeShift)
  /-- The key goes up. -/
  | release (k : Key) (fakes : List FakeShift)
  /-- Pause goes down.  It does not repeat, and it sends nothing when it goes up. -/
  | pause

/-- What the keyboard sends: a make code for a press and for each repeat, a break code for a
release.  The fake shifts come before the one and after the other. -/
def KeyEvent.bytes : KeyEvent → List UInt8
  | .press k fakes | .again k fakes => fakes.flatMap FakeShift.bytes ++ (k.pre ++ [k.code])
  | .release k fakes => k.pre ++ [k.code ||| 0x80] ++ fakes.flatMap FakeShift.bytes
  | .pause => [0xE1, 0x1D, 0x45, 0xE1, 0x9D, 0xC5]

/-- The keyboard, as far as the flags are about it. -/
structure Board where
  /-- Which keys are down. -/
  down : Key → Bool
  /-- How often Caps Lock has been pressed. -/
  capsPresses : ℕ

/-- All keys are up. -/
def Board.initial : Board := ⟨fun _ ↦ false, 0⟩

def Board.step (b : Board) : KeyEvent → Board
  | .press k _ =>
    ⟨Function.update b.down k true, if k = .capsLock then b.capsPresses + 1 else b.capsPresses⟩
  | .again _ _ | .pause => b
  | .release k _ => { b with down := Function.update b.down k false }

/-- Only a key that is up can be pressed, and only one that is down can repeat or be released.
While Ctrl is down, Pause is the key Break, which is none of the modifiers either. -/
def Board.Possible (b : Board) : KeyEvent → Prop
  | .press k fakes => b.down k = false ∧ (fakes ≠ [] → k.fakesShift)
  | .again k fakes | .release k fakes => b.down k = true ∧ (fakes ≠ [] → k.fakesShift)
  | .pause => b.down .leftCtrl = false ∧ b.down .rightCtrl = false

/-- A user can do this, one thing after the other. -/
def Board.PossibleRun (b : Board) : List KeyEvent → Prop
  | [] => True
  | e :: es => b.Possible e ∧ (b.step e).PossibleRun es

/-! ## Following it -/

/-- The flags as they should be: `1` while one of the two keys is down, and for Caps Lock `1` after
an odd number of presses. -/
def Board.mods (b : Board) : Mods where
  shift := if b.down .leftShift || b.down .rightShift then 1 else 0
  ctrl := if b.down .leftCtrl || b.down .rightCtrl then 1 else 0
  alt := if b.down .leftAlt || b.down .rightAlt then 1 else 0
  caps := if b.capsPresses % 2 = 1 then 1 else 0

/-- The key with the same flag. -/
def Key.twin : Key → Option Key
  | .leftShift => some .rightShift
  | .rightShift => some .leftShift
  | .leftCtrl => some .rightCtrl
  | .rightCtrl => some .leftCtrl
  | .leftAlt => some .rightAlt
  | .rightAlt => some .leftAlt
  | _ => none

/-- A Shift key is down. -/
def Board.shifted (b : Board) : Bool := b.down .leftShift || b.down .rightShift

/-- What the last of the fake shifts says of Shift is so. -/
def Board.Truthful (b : Board) (fakes : List FakeShift) : Prop :=
  ∀ f ∈ fakes.getLast?, f.up = !b.shifted

/-- Not the release of a key whose twin stays down, not a repeat of Caps Lock, and nothing with fake
shifts that leave Shift as it is not. -/
def Board.Separate (b : Board) : KeyEvent → Prop
  | .press _ fakes => b.Truthful fakes
  | .again k fakes => k ≠ .capsLock ∧ b.Truthful fakes
  | .release k fakes => (∀ t ∈ k.twin, b.down t = false) ∧ b.Truthful fakes
  | .pause => True

/-- Every event of the run is such. -/
def Board.SeparateRun (b : Board) : List KeyEvent → Prop
  | [] => True
  | e :: es => b.Separate e ∧ (b.step e).SeparateRun es

/-! ## What the codes of a key do to the flags -/

variable (m : Mods)

/-- The flags after the make code of a key. -/
def Mods.make : Key → Mods
  | .leftShift | .rightShift => { m with shift := 1 }
  | .leftCtrl | .rightCtrl => { m with ctrl := 1 }
  | .leftAlt | .rightAlt => { m with alt := 1 }
  | .capsLock => { m with caps := if m.caps = 0 then 1 else 0 }
  | .plain _ => m

/-- The flags after its break code. -/
def Mods.break : Key → Mods
  | .leftShift | .rightShift => { m with shift := 0 }
  | .leftCtrl | .rightCtrl => { m with ctrl := 0 }
  | .leftAlt | .rightAlt => { m with alt := 0 }
  | .capsLock | .plain _ => m

/-- Neither code of a key that is no modifier does anything. -/
theorem step_plain (k : PlainKey) : m.step k.code = m ∧ m.step (k.code ||| 0x80) = m := by
  have hcode (c : UInt8) (hlt : c.toNat < 128) :
      c ∉ ([0x2A, 0x36, 0x1D, 0x38, 0x3A] : List UInt8) → c &&& 0x80 = 0 ∧
        (c ||| 0x80) &&& 0x80 ≠ 0 ∧ (c ||| 0x80) &&& 0x7F = c := by
    refine Words.of_lt c hlt ?_
    decide +kernel
  obtain ⟨hmake, hbreak, hback⟩ := hcode k.code k.code_lt k.not_modifier
  have hnot := k.not_modifier
  simp only [List.mem_cons, List.not_mem_nil, or_false, not_or] at hnot
  obtain ⟨h1, h2, h3, h4, h5⟩ := hnot
  constructor
  · simp [Mods.step, hmake, h1, h2, h3, h4, h5]
  · simp [Mods.step, hbreak, hback, h1, h2, h3, h4]

theorem foldl_pre (k : Key) (c : UInt8) : (k.pre ++ [c]).foldl Mods.step m = m.step c := by
  cases k <;> try rfl
  case plain k =>
    rw [Key.pre]
    split
    · rfl
    · rfl

/-- The flags after some fake shifts. -/
def Mods.fake (fakes : List FakeShift) : Mods :=
  fakes.getLast?.elim m fun f ↦ { m with shift := if f.up then 0 else 1 }

theorem foldl_fake (f : FakeShift) :
    f.bytes.foldl Mods.step m = { m with shift := if f.up then 0 else 1 } := by
  obtain ⟨right, up⟩ := f
  cases right <;> cases up <;> rfl

theorem foldl_fakes (fakes : List FakeShift) :
    (fakes.flatMap FakeShift.bytes).foldl Mods.step m = m.fake fakes := by
  induction fakes generalizing m with
  | nil => rfl
  | cons f fakes ih =>
    rw [List.flatMap_cons, List.foldl_append, ih, foldl_fake, Mods.fake, Mods.fake,
      List.getLast?_cons]
    cases fakes.getLast? <;> rfl

theorem foldl_make (k : Key) : (k.pre ++ [k.code]).foldl Mods.step m = m.make k := by
  rw [foldl_pre]
  cases k <;> try rfl
  case plain k => exact (step_plain m k).1

theorem foldl_break (k : Key) : (k.pre ++ [k.code ||| 0x80]).foldl Mods.step m = m.break k := by
  rw [foldl_pre]
  cases k <;> try rfl
  case plain k => exact (step_plain m k).2

theorem foldl_bytes (e : KeyEvent) : e.bytes.foldl Mods.step m =
    match e with
    | .press k fakes | .again k fakes => (m.fake fakes).make k
    | .release k fakes => (m.break k).fake fakes
    | .pause => { m with ctrl := 0 } := by
  cases e with
  | press k fakes | again k fakes => rw [KeyEvent.bytes, List.foldl_append, foldl_fakes, foldl_make]
  | release k fakes => rw [KeyEvent.bytes, List.foldl_append, foldl_break, foldl_fakes]
  | pause => rfl

/-! ## One event -/

/-- Key by key: what is down after a press or a release. -/
theorem down_press (b : Board) (k j : Key) (fakes : List FakeShift) :
    (b.step (.press k fakes)).down j = if j = k then true else b.down j :=
  Function.update_apply ..

theorem down_release (b : Board) (k j : Key) (fakes : List FakeShift) :
    (b.step (.release k fakes)).down j = if j = k then false else b.down j :=
  Function.update_apply ..

variable (b : Board) (fakes : List FakeShift)

/-- A press always keeps the flags with the keys. -/
theorem make_press (k : Key) : b.mods.make k = (b.step (.press k fakes)).mods := by
  have hcaps : (b.step (.press k fakes)).capsPresses =
      if k = .capsLock then b.capsPresses + 1 else b.capsPresses := rfl
  cases k with
  | capsLock =>
    simp only [Mods.make, Board.mods, down_press, hcaps]
    rcases Nat.mod_two_eq_zero_or_one b.capsPresses with h | h
    · simp [h, Nat.add_mod]
    · simp [h, Nat.add_mod]
  | _ => simp [Mods.make, Board.mods, down_press, hcaps]

/-- A repeat does, except of Caps Lock. -/
theorem make_again_iff {k : Key} (hdown : b.down k = true) :
    b.mods.make k = b.mods ↔ k ≠ .capsLock := by
  cases k with
  | capsLock =>
    rcases Nat.mod_two_eq_zero_or_one b.capsPresses with h | h
    · simp [Mods.make, Board.mods, h]
    · simp [Mods.make, Board.mods, h]
  | _ => simp [Mods.make, Board.mods, hdown]

/-- A release does, unless the twin of the key is down. -/
theorem break_release_iff (k : Key) :
    b.mods.break k = (b.step (.release k fakes)).mods ↔ ∀ t ∈ k.twin, b.down t = false := by
  have hcaps : (b.step (.release k fakes)).capsPresses = b.capsPresses := rfl
  have hflag (c : Bool) : 0 = (if c = true then 1 else 0 : UInt8) ↔ c = false := by
    cases c <;> decide
  cases k <;> simp [Mods.break, Board.mods, down_release, hcaps, Key.twin, hflag]

/-- Fake shifts do if the last of them is truthful. -/
theorem fake_iff : b.mods.fake fakes = b.mods ↔ b.Truthful fakes := by
  rw [Mods.fake, Board.Truthful]
  cases fakes.getLast? with
  | none => simp
  | some f =>
    have hflag : (if f.up = true then 0 else 1 : UInt8) = (if b.shifted = true then 1 else 0) ↔
        f.up = !b.shifted := by
      cases f.up <;> cases b.shifted <;> decide
    simpa [Board.mods, Board.shifted] using hflag

variable {b fakes}

/-- No key that is one of the modifiers sends fake shifts, and the others do nothing else to the
flags. -/
theorem nil_or_plain {k : Key} (h : fakes ≠ [] → k.fakesShift) :
    fakes = [] ∨ ∃ p, k = .plain p := by
  cases k with
  | plain p => exact .inr ⟨p, rfl⟩
  | _ =>
    refine .inl ?_
    by_contra hne
    exact Bool.false_ne_true (h hne)

theorem truthful_nil : b.Truthful [] := fun _ h ↦ by cases h

/-- The keys of another kind do not matter to the flags. -/
theorem mods_plain (p : PlainKey) : (b.step (.press (.plain p) fakes)).mods = b.mods ∧
    (b.step (.release (.plain p) fakes)).mods = b.mods :=
  ⟨(make_press b fakes (.plain p)).symm,
    ((break_release_iff b fakes (.plain p)).mpr fun _ h ↦ by cases h).symm⟩

/-- **One event** keeps the flags with the keys exactly if it is separate. -/
theorem mods_event_iff {e : KeyEvent} (hpossible : b.Possible e) :
    e.bytes.foldl Mods.step b.mods = (b.step e).mods ↔ b.Separate e := by
  rw [foldl_bytes]
  cases e with
  | press k fakes =>
    rcases nil_or_plain hpossible.2 with rfl | ⟨p, rfl⟩
    · exact iff_of_true (make_press b [] k) truthful_nil
    · rw [(mods_plain p).1]
      exact fake_iff b fakes
  | again k fakes =>
    rcases nil_or_plain hpossible.2 with rfl | ⟨p, rfl⟩
    · exact (make_again_iff b hpossible.1).trans (and_iff_left truthful_nil).symm
    · exact (fake_iff b fakes).trans (and_iff_right (by simp)).symm
  | release k fakes =>
    rcases nil_or_plain hpossible.2 with rfl | ⟨p, rfl⟩
    · exact (break_release_iff b [] k).trans (and_iff_left truthful_nil).symm
    · rw [(mods_plain p).2]
      exact (fake_iff b fakes).trans (and_iff_right fun _ h ↦ by cases h).symm
  | pause =>
    refine iff_of_true ?_ trivial
    have hctrl : b.mods.ctrl = 0 := by simp [Board.mods, hpossible.1, hpossible.2]
    exact congrArg (fun c ↦ { b.mods with ctrl := c }) hctrl.symm

/-! ## Streams -/

/-- After each complete code of the stream the flags are as they should be. -/
def FlagsTrack (events : List KeyEvent) : Prop :=
  ∀ pre, pre <+: events →
    ((pre.flatMap KeyEvent.bytes).foldl keyboardHandler Kbd.initial).mods =
      (pre.foldl Board.step Board.initial).mods

/-- The same for a stream that begins with some keys down. -/
theorem track_iff {events : List KeyEvent} (hpossible : b.PossibleRun events) :
    (∀ pre, pre <+: events → (pre.flatMap KeyEvent.bytes).foldl Mods.step b.mods =
      (pre.foldl Board.step b).mods) ↔ b.SeparateRun events := by
  induction events generalizing b with
  | nil => simp [Board.SeparateRun]
  | cons e es ih =>
    obtain ⟨hfirst, hrest⟩ := hpossible
    have hevent := mods_event_iff hfirst
    rw [Board.SeparateRun, ← hevent, ← ih hrest]
    constructor
    · intro htrack
      have hfst : e.bytes.foldl Mods.step b.mods = (b.step e).mods := by
        simpa using htrack [e] ⟨es, rfl⟩
      refine ⟨hfst, fun pre hpre ↦ ?_⟩
      have h := htrack (e :: pre) ((List.prefix_cons_inj e).mpr hpre)
      rwa [List.flatMap_cons, List.foldl_append, hfst, List.foldl_cons] at h
    · rintro ⟨hfst, htrack⟩ pre hpre
      cases pre with
      | nil => rfl
      | cons e' pre =>
        obtain ⟨rfl, hpre'⟩ := List.cons_prefix_cons.mp hpre
        rw [List.flatMap_cons, List.foldl_append, hfst, List.foldl_cons]
        exact htrack pre hpre'

/-- **The flags follow the keys exactly in the streams** in which no key is released while its twin
is down, Caps Lock is not held until it repeats, and the fake shifts that come with a key end with
one that is true. -/
theorem flags_track_iff (events : List KeyEvent) (hpossible : Board.initial.PossibleRun events) :
    FlagsTrack events ↔ Board.initial.SeparateRun events := by
  rw [← track_iff hpossible]
  refine forall₂_congr fun pre _ ↦ ?_
  rw [mods_foldl]
  rfl

/-- A. -/
def letterKey : Key := .plain ⟨false, 0x1E, by decide, by decide⟩

/-- Print Screen. -/
def printScreen : Key := .plain ⟨true, 0x37, by decide, by decide⟩

/-- Shift held over a letter and over Print Screen, which then sends no fake shift, and Caps Lock
once. -/
theorem flags_track_plain_typing :
    FlagsTrack [.press .leftShift [], .press letterKey [], .again .leftShift [],
      .release letterKey [], .press printScreen [], .release printScreen [],
      .release .leftShift [], .pause, .press .capsLock [], .release .capsLock []] :=
  (flags_track_iff _ (by
    simp [Board.PossibleRun, Board.Possible, Board.step, Board.initial, letterKey,
      printScreen])).mpr (by
    simp [Board.SeparateRun, Board.Separate, Board.Truthful, Board.step, Board.initial, Key.twin,
      letterKey, printScreen])

/-- Both Shift keys go down, and one comes up: the flag says that none is down.  Caps Lock, held
until it repeats, is off again.  And Print Screen alone, with the fake shift that it sends then,
leaves the flag for Shift set. -/
theorem flags_lose_track :
    (Board.initial.PossibleRun
        [.press .leftShift [], .press .rightShift [], .release .leftShift []] ∧
      ¬FlagsTrack [.press .leftShift [], .press .rightShift [], .release .leftShift []]) ∧
    (Board.initial.PossibleRun [.press .capsLock [], .again .capsLock []] ∧
      ¬FlagsTrack [.press .capsLock [], .again .capsLock []]) ∧
    Board.initial.PossibleRun [.press printScreen [⟨false, false⟩]] ∧
      ¬FlagsTrack [.press printScreen [⟨false, false⟩]] := by
  refine ⟨⟨?_, fun h ↦ ?_⟩, ⟨?_, fun h ↦ ?_⟩, ?_, fun h ↦ ?_⟩
  · simp [Board.PossibleRun, Board.Possible, Board.step, Board.initial]
  · exact absurd (congrArg Mods.shift (h _ List.prefix_rfl)) (by decide)
  · simp [Board.PossibleRun, Board.Possible, Board.step, Board.initial]
  · exact absurd (congrArg Mods.caps (h _ List.prefix_rfl)) (by decide)
  · simp [Board.PossibleRun, Board.Possible, Board.initial, printScreen, Key.fakesShift]
  · exact absurd (congrArg Mods.shift (h _ List.prefix_rfl)) (by decide)

end Aetherion.Keyboard
