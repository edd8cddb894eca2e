import Aetherion.Base.Triple
import Aetherion.Base.Words
import Aetherion.Hardware

/-!
# Setting up the keyboard

`keyboard_init` tests the 8042 and the keyboard, asks the keyboard for scancode set 1, and writes
the controller's configuration byte twice.  Bit 6 of that byte tells the controller to translate
from set 2 to set 1.  The driver takes the byte from the firmware and clears bits 4 and 5 of it, one
of them three times over, but leaves bit 6 as it finds it; and it does not look at what the keyboard
answers to the request for set 1.

So the handler is given codes of set 1 only if the firmware's bit and the keyboard's answers happen
to match (`delivers_set_one_iff`).
-/

set_option autoImplicit false

namespace Aetherion.Keyboard

open Driver Driver.Prog

/-! ## The program

Every wait is given `n` tries. -/

/-- `ps2_wait_input`. -/
def ps2WaitInput : ℕ → OptionT Kernel Unit
  | 0 => failure
  | n + 1 => do
    let status ← inb 0x64
    if status &&& 0x02 ≠ 0 then ps2WaitInput n else pure ()

/-- `ps2_wait_output`. -/
def ps2WaitOutput : ℕ → OptionT Kernel Unit
  | 0 => failure
  | n + 1 => do
    let status ← inb 0x64
    if status &&& 0x01 = 0 then ps2WaitOutput n else pure ()

def ps2SendCmd (n : ℕ) (cmd : UInt8) : OptionT Kernel Unit := do
  ps2WaitInput n
  outb 0x64 cmd

def ps2SendData (n : ℕ) (data : UInt8) : OptionT Kernel Unit := do
  ps2WaitInput n
  outb 0x60 data

def ps2ReadData (n : ℕ) : OptionT Kernel UInt8 := do
  ps2WaitOutput n
  inb 0x60

/-- `while (inb(PS2_STATUS_PORT) & 0x01) inb(PS2_DATA_PORT);` -/
def ps2Drain : ℕ → OptionT Kernel Unit
  | 0 => failure
  | n + 1 => do
    let status ← inb 0x64
    if status &&& 0x01 ≠ 0 then do
      let _ ← inb 0x60
      ps2Drain n
    else pure ()

/-- The configuration byte that is written first, made from the one that was read. -/
def maskConfig (config : UInt8) : UInt8 := config &&& ~~~0x30 &&& ~~~0x10 &&& ~~~0x20

def keyboardInit (n : ℕ) : OptionT Kernel Unit := do
  ps2SendCmd n 0xAD
  ps2SendCmd n 0xA7
  ps2Drain n
  ps2SendCmd n 0x20
  let config ← ps2ReadData n
  let config := maskConfig config
  ps2SendCmd n 0x60
  ps2SendData n config
  ps2SendCmd n 0xAA
  let res ← ps2ReadData n
  if res ≠ 0x55 then vgaWrite "KB: Controller test failed\n"
  else do
    ps2SendCmd n 0xAB
    let res ← ps2ReadData n
    if res ≠ 0x00 then vgaWrite "KB: Port 1 test failed\n"
    else do
      ps2SendCmd n 0xAE
      ps2SendData n 0xFF
      let _ ← ps2ReadData n
      let selfTest ← ps2ReadData n
      if selfTest ≠ 0xAA then vgaWrite "KB: Self test failed\n"
      else do
        ps2SendData n 0xF0
        let _ ← ps2ReadData n
        ps2SendData n 0x01
        let _ ← ps2ReadData n
        let config := config ||| 0x01
        ps2SendCmd n 0x60
        ps2SendData n config
        vgaWrite "KB: Keyboard initialized\n"

/-! ## The controller and the keyboard -/

/-- What the keyboard is doing. -/
inductive Phase where
  | idle
  /-- Reset, and not yet through its self-test. -/
  | resetting
  /-- Told to select a set, and not yet acknowledged. -/
  | selecting
  /-- Waiting for the number of the set. -/
  | selected
  /-- Told the number, and not yet acknowledged. -/
  | choosing (number : UInt8)
  deriving DecidableEq

/-- The controller, the keyboard behind it, and what they have answered so far. -/
structure Wires where
  /-- The command whose data byte is next, if the controller waits for one or has one ready. -/
  command : Option UInt8
  /-- The configuration byte written last. -/
  config : UInt8
  phase : Phase
  /-- The scancode set of the keyboard. -/
  set : UInt8
  /-- The byte sent to the keyboard last. -/
  sent : UInt8
  /-- The configuration byte as it was read. -/
  configRead : UInt8
  /-- The answer to `F0`. -/
  selectReply : UInt8
  /-- The answer to the number of the set. -/
  numberReply : UInt8
  /-- The success message has been printed. -/
  initialized : Bool

namespace Wires

/-- A byte to the command port. -/
def cmd (s : Wires) (v : UInt8) : Wires := { s with command := some v }

/-- What the keyboard does with a byte. -/
def phaseAfter (s : Wires) (v : UInt8) : Phase :=
  if v = 0xFF then .resetting
  else if v = 0xF0 then .selecting
  else if s.phase = .selected then .choosing v
  else .idle

/-- A byte to the data port: the configuration byte, or a byte for the keyboard. -/
def data (s : Wires) (v : UInt8) : Wires :=
  if s.command = some 0x60 then { s with command := none, config := v }
  else { s with command := none, phase := s.phaseAfter v, sent := v }

/-- The keyboard has answered `r`.  It comes out of a reset in set 2, and changes to another set
when it has acknowledged both bytes. -/
def answered (s : Wires) (r : UInt8) : Wires :=
  match s.phase with
  | .idle | .selected => s
  | .resetting => if r = 0xAA then { s with phase := .idle, set := 2 } else s
  | .selecting => { s with phase := if r = 0xFA then .selected else .idle }
  | .choosing number => { s with phase := .idle, set := if r = 0xFA then number else s.set }

/-- A byte from the data port: the configuration byte, or an answer of the keyboard. -/
def read (s : Wires) (r : UInt8) : Wires :=
  if s.command = some 0x20 then { s with command := none, configRead := r }
  else
    let s := s.answered r
    if s.sent = 0xF0 then { s with selectReply := r }
    else if s.sent = 0x01 then { s with numberReply := r }
    else s

/-- A message. -/
def print (s : Wires) (text : String) : Wires :=
  { s with initialized := s.initialized || text = "KB: Keyboard initialized\n" }

/-- **The handler will be given codes of set 1**: from a keyboard in set 1 that are passed on as
they are, or from a keyboard in set 2 that are translated. -/
def DeliversSetOne (s : Wires) : Prop :=
  s.set = 1 ∧ s.config &&& 0x40 = 0 ∨ s.set = 2 ∧ s.config &&& 0x40 ≠ 0

instance (s : Wires) : Decidable s.DeliversSetOne := inferInstanceAs (Decidable (_ ∨ _))

end Wires

/-- The controller and the keyboard as they follow a run. -/
def wires : Observer machine Wires Empty where
  step s
    | .out (.outb p v) => (if p = 0x64 then s.cmd v else if p = 0x60 then s.data v else s, [])
    | .inp (.inb p) r => (if p = 0x60 then s.read r else s, [])
    | .out (.print text) => (s.print text, [])
    | _ => (s, [])

/-! ## What each step does to them -/

section
variable {dev : Device machine} {s₀ : Wires} {n : ℕ}

/-- The history leaves controller and keyboard in state `s`. -/
def At (s₀ s : Wires) (h : Trace machine) : Prop := wires.after s₀ h = s

theorem triple_outb {p : UInt16} {v : UInt8} {s s' : Wires}
    (hs : (wires.step s (.out (.outb p v))).1 = s') :
    Triple dev (At s₀ s) (outb p v) (fun _ ↦ At s₀ s') := by
  intro h hh
  rw [At] at hh
  exact (Observer.after_append ..).trans (hh ▸ hs)

theorem triple_status {s : Wires} : Triple dev (At s₀ s) (inb 0x64) (fun _ ↦ At s₀ s) := by
  intro h hh
  rw [At] at hh
  exact (Observer.after_append ..).trans hh

theorem triple_readData {s : Wires} :
    Triple dev (At s₀ s) (inb 0x60) (fun r ↦ At s₀ (s.read r)) := by
  intro h hh
  rw [At] at hh
  exact (Observer.after_append ..).trans (by rw [hh]; rfl)

theorem triple_print {s : Wires} (text : String) :
    Triple dev (At s₀ s) (vgaWrite text) (fun _ ↦ At s₀ (s.print text)) := by
  intro h hh
  rw [At] at hh
  exact (Observer.after_append ..).trans (by rw [hh]; rfl)

theorem partial_ps2WaitInput {s : Wires} :
    Partial dev (At s₀ s) (ps2WaitInput n) (fun _ ↦ At s₀ s) := by
  induction n with
  | zero => exact partial_failure
  | succ n ih =>
    exact (partial_lift triple_status).bind fun _ ↦ .ite (fun _ ↦ ih) fun _ ↦
      partial_pure fun h hh ↦ hh

theorem partial_ps2WaitOutput {s : Wires} :
    Partial dev (At s₀ s) (ps2WaitOutput n) (fun _ ↦ At s₀ s) := by
  induction n with
  | zero => exact partial_failure
  | succ n ih =>
    exact (partial_lift triple_status).bind fun _ ↦ .ite (fun _ ↦ ih) fun _ ↦
      partial_pure fun h hh ↦ hh

theorem partial_ps2SendCmd {s : Wires} (cmd : UInt8) :
    Partial dev (At s₀ s) (ps2SendCmd n cmd) (fun _ ↦ At s₀ (s.cmd cmd)) :=
  partial_ps2WaitInput.bind fun _ ↦ partial_lift (triple_outb rfl)

theorem partial_ps2SendData {s : Wires} (data : UInt8) :
    Partial dev (At s₀ s) (ps2SendData n data) (fun _ ↦ At s₀ (s.data data)) :=
  partial_ps2WaitInput.bind fun _ ↦ partial_lift (triple_outb rfl)

theorem partial_ps2ReadData {s : Wires} :
    Partial dev (At s₀ s) (ps2ReadData n) (fun r ↦ At s₀ (s.read r)) :=
  partial_ps2WaitOutput.bind fun _ ↦ partial_lift triple_readData

/-! ## The stages -/

/-- The configuration byte has been read as `r`, and there has been no message. -/
structure Configured (r : UInt8) (s : Wires) : Prop where
  configRead : s.configRead = r
  silent : s.initialized = false

namespace Wires

variable {s : Wires} {r : UInt8}

theorem read_config (r : UInt8) (hs : s.initialized = false) :
    Configured r ((s.cmd 0x20).read r) := ⟨rfl, hs⟩

theorem answered_silent (s : Wires) (r : UInt8) : (s.answered r).initialized = s.initialized := by
  unfold answered
  split
  · rfl
  · rfl
  · split <;> rfl
  · rfl
  · rfl

theorem answered_configRead (s : Wires) (r : UInt8) :
    (s.answered r).configRead = s.configRead := by
  unfold answered
  split
  · rfl
  · rfl
  · split <;> rfl
  · rfl
  · rfl

end Wires

theorem Configured.cmd {s : Wires} {r : UInt8} (hs : Configured r s) (v : UInt8) :
    Configured r (s.cmd v) := ⟨hs.configRead, hs.silent⟩

theorem Configured.data {s : Wires} {r : UInt8} (hs : Configured r s) (v : UInt8) :
    Configured r (s.data v) := by
  rw [Wires.data]
  split
  · exact ⟨hs.configRead, hs.silent⟩
  · exact ⟨hs.configRead, hs.silent⟩

theorem Wires.data_command (s : Wires) (v : UInt8) : (s.data v).command = none := by
  rw [Wires.data]
  split <;> rfl

theorem Wires.read_command {s : Wires} (hs : s.command = none) (r : UInt8) :
    (s.read r).command = none := by
  have hanswered : (s.answered r).command = none := by
    unfold answered
    split
    · exact hs
    · exact hs
    · split
      · exact hs
      · exact hs
    · exact hs
    · exact hs
  rw [Wires.read, if_neg (by rw [hs]; exact (Option.some_ne_none _).symm)]
  dsimp only
  split
  · exact hanswered
  split
  · exact hanswered
  · exact hanswered

/-- Answers of the keyboard change neither. -/
theorem Configured.read {s : Wires} {r : UInt8} (hs : Configured r s)
    (hcommand : s.command ≠ some 0x20) (v : UInt8) : Configured r (s.read v) := by
  have hsilent := (s.answered_silent v).trans hs.silent
  have hread := (s.answered_configRead v).trans hs.configRead
  rw [Wires.read, if_neg hcommand]
  dsimp only
  split
  · exact ⟨hread, hsilent⟩
  split
  · exact ⟨hread, hsilent⟩
  · exact ⟨hread, hsilent⟩

/-- The keyboard has been through a reset. -/
structure Reset (r : UInt8) (s : Wires) : Prop extends Configured r s where
  phase : s.phase = .idle
  set : s.set = 2
  command : s.command = none

/-- **The reset**, which the keyboard may have acknowledged or not, and its self-test. -/
theorem Configured.reset {s : Wires} {r : UInt8} (hs : Configured r s)
    (hcommand : s.command ≠ some 0x60) (v : UInt8) :
    Reset r (((s.data 0xFF).read v).read 0xAA) := by
  have hdata : s.data 0xFF = { s with command := none, phase := .resetting, sent := 0xFF } :=
    if_neg hcommand
  rw [hdata]
  by_cases hv : v = 0xAA
  · subst hv
    exact ⟨⟨hs.configRead, hs.silent⟩, rfl, rfl, rfl⟩
  · have hanswered :
        ({ s with command := none, phase := .resetting, sent := 0xFF } : Wires).read v =
          { s with command := none, phase := .resetting, sent := 0xFF } := by
      simp [Wires.read, Wires.answered, hv]
    rw [hanswered]
    exact ⟨⟨hs.configRead, hs.silent⟩, rfl, rfl, rfl⟩

/-- The keyboard has been asked for set 1, and has given two answers. -/
structure Asked (r select number : UInt8) (s : Wires) : Prop extends Configured r s where
  selectReply : s.selectReply = select
  numberReply : s.numberReply = number
  set : s.set = if select = 0xFA ∧ number = 0xFA then 1 else 2

/-- **The request for set 1** is met by a keyboard that acknowledges both bytes. -/
theorem Reset.ask {s : Wires} {r : UInt8} (hs : Reset r s) (select number : UInt8) :
    Asked r select number ((((s.data 0xF0).read select).data 0x01).read number) := by
  have hcommand : s.command ≠ some 0x60 := by rw [hs.command]; exact (Option.some_ne_none _).symm
  have hdata : s.data 0xF0 = { s with command := none, phase := .selecting, sent := 0xF0 } :=
    if_neg hcommand
  rw [hdata]
  by_cases hselect : select = 0xFA
  · subst hselect
    by_cases hnumber : number = 0xFA
    · subst hnumber
      exact ⟨⟨hs.configRead, hs.silent⟩, rfl, rfl, rfl⟩
    · refine ⟨⟨hs.configRead, hs.silent⟩, rfl, rfl, ?_⟩
      rw [if_neg fun h ↦ hnumber h.2]
      exact (if_neg hnumber).trans hs.set
  · have hanswered :
        ({ s with command := none, phase := .selecting, sent := 0xF0 } : Wires).read select =
          { s with command := none, phase := .idle, sent := 0xF0, selectReply := select } := by
      simp [Wires.read, Wires.answered, hselect]
    rw [hanswered]
    exact ⟨⟨hs.configRead, hs.silent⟩, rfl, rfl, hs.set.trans (if_neg fun h ↦ hselect h.1).symm⟩

end

/-! ## The whole of it -/

/-- Bit 6 is not touched. -/
theorem maskConfig_translation (config : UInt8) :
    (maskConfig config ||| 0x01) &&& 0x40 = config &&& 0x40 := by
  refine Words.of_lt config config.toNat_lt ?_
  decide +kernel

/-- Set 1 is delivered exactly when the firmware's translation bit is clear for a keyboard that
changes to set 1, and set for one that stays in set 2. -/
def MatchesFirmware (s : Wires) : Prop :=
  s.configRead &&& 0x40 = 0 ↔ s.selectReply = 0xFA ∧ s.numberReply = 0xFA

/-- What holds of controller and keyboard if the success message has been printed. -/
def Sound (s : Wires) : Prop :=
  s.initialized = true → (s.DeliversSetOne ↔ MatchesFirmware s)

theorem Configured.sound {s : Wires} {r : UInt8} (hs : Configured r s) {text : String}
    (htext : text ≠ "KB: Keyboard initialized\n") : Sound (s.print text) := by
  intro hinit
  rw [Wires.print, hs.silent, Bool.false_or] at hinit
  exact absurd (of_decide_eq_true hinit) htext

/-- The configuration byte is written a second time. -/
theorem Asked.sound {s : Wires} {r select number : UInt8} (hs : Asked r select number s)
    (text : String) : Sound (((s.cmd 0x60).data (maskConfig r ||| 0x01)).print text) := by
  intro _
  change (s.set = 1 ∧ (maskConfig r ||| 0x01) &&& 0x40 = 0 ∨
    s.set = 2 ∧ (maskConfig r ||| 0x01) &&& 0x40 ≠ 0) ↔
      (s.configRead &&& 0x40 = 0 ↔ s.selectReply = 0xFA ∧ s.numberReply = 0xFA)
  rw [maskConfig_translation, hs.set, hs.configRead, hs.selectReply, hs.numberReply]
  split <;> simp [*]

section
variable {dev : Device machine} {s₀ : Wires} {n : ℕ} {α : Type}

/-- A precondition on the state, for every state that meets it. -/
theorem partial_at {C : Wires → Prop} {p : OptionT Kernel α} {Q : α → Trace machine → Prop}
    (hp : ∀ s, C s → Partial dev (At s₀ s) p Q) :
    Partial dev (fun h ↦ C (wires.after s₀ h)) p Q := fun h hC ↦ hp _ hC h rfl

/-- There has been no message. -/
abbrev Silent (s₀ : Wires) (h : Trace machine) : Prop := (wires.after s₀ h).initialized = false

theorem silent_ps2SendCmd (v : UInt8) :
    Partial dev (Silent s₀) (ps2SendCmd n v) (fun _ ↦ Silent s₀) :=
  partial_at (C := fun s ↦ s.initialized = false) fun s hs ↦
    (partial_ps2SendCmd v).mono (fun _ hh ↦ hh) fun _ _ hh ↦ by rw [Silent, hh]; exact hs

theorem Wires.read_silent {s : Wires} (hs : s.initialized = false) (r : UInt8) :
    (s.read r).initialized = false := by
  have hanswered := (s.answered_silent r).trans hs
  rw [Wires.read]
  split
  · exact hs
  dsimp only
  split
  · exact hanswered
  split
  · exact hanswered
  · exact hanswered

theorem silent_ps2Drain : Partial dev (Silent s₀) (ps2Drain n) (fun _ ↦ Silent s₀) := by
  induction n with
  | zero => exact partial_failure
  | succ n ih =>
    refine partial_at (C := fun s ↦ s.initialized = false) fun s hs ↦ ?_
    have hsilent {t : Wires} (ht : t.initialized = false) (h : Trace machine) (hh : At s₀ t h) :
        Silent s₀ h := by rw [Silent, hh]; exact ht
    refine (partial_lift triple_status).bind fun _ ↦ .ite (fun _ ↦ ?_) fun _ ↦
      partial_pure (hsilent hs)
    exact (partial_lift triple_readData).bind fun r ↦
      ih.mono (hsilent (Wires.read_silent hs r)) fun _ _ hh ↦ hh

/-- From a state that is known, a message and nothing else. -/
theorem partial_message {s : Wires} {text : String} (hs : Sound (s.print text)) :
    Partial dev (At s₀ s) (liftM (vgaWrite text)) (fun _ h ↦ Sound (wires.after s₀ h)) :=
  partial_lift ((triple_print text).mono (fun _ hh ↦ hh) fun _ _ hh ↦ by rw [hh]; exact hs)

/-- Where `keyboard_init` leaves controller and keyboard. -/
theorem sound_keyboardInit (n : ℕ) :
    Partial dev (Silent s₀) (keyboardInit n) (fun _ h ↦ Sound (wires.after s₀ h)) := by
  refine (silent_ps2SendCmd 0xAD).bind fun _ ↦ (silent_ps2SendCmd 0xA7).bind fun _ ↦
    silent_ps2Drain.bind fun _ ↦ ?_
  refine partial_at (C := fun s ↦ s.initialized = false) fun s hs ↦ ?_
  -- the configuration byte is read, masked and written
  refine (partial_ps2SendCmd 0x20).bind fun _ ↦ partial_ps2ReadData.bind fun r ↦ ?_
  have hconfig := Wires.read_config r hs
  generalize (s.cmd 0x20).read r = s at hconfig
  refine (partial_ps2SendCmd 0x60).bind fun _ ↦ (partial_ps2SendData _).bind fun _ ↦ ?_
  have hwritten := (hconfig.cmd 0x60).data (maskConfig r)
  generalize (s.cmd 0x60).data (maskConfig r) = s at hwritten
  -- the tests of the controller and of its first port
  refine (partial_ps2SendCmd 0xAA).bind fun _ ↦ partial_ps2ReadData.bind fun res ↦ ?_
  have htested := (hwritten.cmd 0xAA).read (show some 0xAA ≠ some 0x20 by decide) res
  refine .ite (fun _ ↦ partial_message (htested.sound (by decide))) fun _ ↦ ?_
  generalize (s.cmd 0xAA).read res = s at htested
  refine (partial_ps2SendCmd 0xAB).bind fun _ ↦ partial_ps2ReadData.bind fun res ↦ ?_
  have hport := (htested.cmd 0xAB).read (show some 0xAB ≠ some 0x20 by decide) res
  refine .ite (fun _ ↦ partial_message (hport.sound (by decide))) fun _ ↦ ?_
  generalize (s.cmd 0xAB).read res = s at hport
  -- the keyboard is reset
  refine (partial_ps2SendCmd 0xAE).bind fun _ ↦ (partial_ps2SendData 0xFF).bind fun _ ↦ ?_
  refine partial_ps2ReadData.bind fun v ↦ partial_ps2ReadData.bind fun selfTest ↦ .ite (fun _ ↦ ?_)
    fun hpassed ↦ ?_
  · have hsent := ((s.cmd 0xAE).data_command 0xFF)
    have hnone : (none : Option UInt8) ≠ some 0x20 := (Option.some_ne_none _).symm
    have hanswered := ((hport.cmd 0xAE).data 0xFF).read (hsent ▸ hnone) v
    exact partial_message ((hanswered.read (Wires.read_command hsent v ▸ hnone) selfTest).sound
      (by decide))
  · obtain rfl := not_ne_iff.mp hpassed
    have hreset := (hport.cmd 0xAE).reset (show some 0xAE ≠ some 0x60 by decide) v
    generalize (((s.cmd 0xAE).data 0xFF).read v).read 0xAA = s at hreset
    -- and asked for set 1
    refine (partial_ps2SendData 0xF0).bind fun _ ↦ partial_ps2ReadData.bind fun select ↦ ?_
    refine (partial_ps2SendData 0x01).bind fun _ ↦ partial_ps2ReadData.bind fun number ↦ ?_
    refine (partial_ps2SendCmd 0x60).bind fun _ ↦ (partial_ps2SendData _).bind fun _ ↦ ?_
    exact partial_message ((hreset.ask select number).sound _)

end

/-- The run ends with the success message. -/
structure Succeeds (n : ℕ) (s₀ : Wires) (dev : Device machine) : Prop where
  silent : s₀.initialized = false
  ends : (keyboardInit n).run.value dev [] = some ()
  message : (wires.after s₀ ((keyboardInit n).run.trace dev [])).initialized = true

/-- **After success the handler gets codes of set 1** exactly when bit 6 of the configuration byte,
as the controller had it, is clear for a keyboard that acknowledges the request for set 1, and set
for one that does not. -/
theorem delivers_set_one_iff (n : ℕ) (s₀ : Wires) (dev : Device machine)
    (hsucceeds : Succeeds n s₀ dev) :
    let s := wires.after s₀ ((keyboardInit n).run.trace dev [])
    s.DeliversSetOne ↔ (s.configRead &&& 0x40 = 0 ↔ s.selectReply = 0xFA ∧ s.numberReply = 0xFA) :=
  sound_keyboardInit n [] hsucceeds.silent () hsucceeds.ends hsucceeds.message

/-- A machine that answers port reads with these bytes, one after the other. -/
def scriptedMachine (replies : List UInt8) : Device machine := fun h i ↦
  match i with
  | .inb _ => replies.getD (h.countP fun | .inp _ _ => true | .out _ => false) 0
  | i => steadyMachine 0 0 0 h i

/-- A controller that has this configuration byte and is always ready, with a keyboard that
acknowledges everything and passes its self-test. -/
def readyMachine (config : UInt8) : Device machine :=
  scriptedMachine [0, 0, 0, 0, 1, config, 0, 0, 0, 1, 0x55, 0, 1, 0, 0, 0, 1, 0xFA, 1, 0xAA,
    0, 1, 0xFA, 0, 1, 0xFA, 0, 0]

/-- A state before anything is known. -/
def Wires.unknown : Wires := ⟨none, 0, .idle, 2, 0, 0, 0, 0, false⟩

theorem succeeds_readyMachine (config : UInt8) (hconfig : config = 0x21 ∨ config = 0x61) :
    Succeeds 1 Wires.unknown (readyMachine config) := by
  rcases hconfig with rfl | rfl
  · exact ⟨rfl, by decide +kernel, by decide +kernel⟩
  · exact ⟨rfl, by decide +kernel, by decide +kernel⟩

/-- With translation off in the firmware's configuration it works out. -/
theorem delivers_set_one_untranslated :
    (wires.after Wires.unknown
      ((keyboardInit 1).run.trace (readyMachine 0x21) [])).DeliversSetOne :=
  (delivers_set_one_iff 1 Wires.unknown (readyMachine 0x21)
    (succeeds_readyMachine 0x21 (Or.inl rfl))).mpr (by decide +kernel)

/-- With translation on, as firmware leaves it, a keyboard in set 1 is translated. -/
theorem set_one_is_translated :
    Succeeds 1 Wires.unknown (readyMachine 0x61) ∧
      ¬(wires.after Wires.unknown
        ((keyboardInit 1).run.trace (readyMachine 0x61) [])).DeliversSetOne :=
  ⟨succeeds_readyMachine 0x61 (Or.inr rfl), by decide +kernel⟩

end Aetherion.Keyboard
