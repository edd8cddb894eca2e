import Aetherion.Base.Independent
import Aetherion.Shell.ComesUp

/-!
# On a machine whose keyboard works

A controller that works takes its time, a number of polls, to empty its input buffer and to have an
answer ready.  When the kernel starts there may be bytes left in its output buffer, and the
configuration byte is what the firmware has made of it.

On such a machine `keyboard_init` returns, and leaves the output buffer empty and the configuration
byte as it means to (`keyboardInit_works`).  So whether the kernel comes up is a matter of the buses
alone (`comes_up_working_iff`).
-/

set_option autoImplicit false

namespace Aetherion.Shell

open Driver Driver.Prog Storage Pci Keyboard

/-! ## The controller -/

/-- The controller of the keyboard, with the keyboard behind it. -/
structure Controller where
  /-- The configuration byte. -/
  config : UInt8
  /-- The bytes that are there to be read. -/
  output : List UInt8
  /-- For how many polls the input buffer is still full. -/
  busy : ℕ
  /-- For how many polls the answer is still not there. -/
  pending : ℕ
  /-- The next byte of data is the configuration byte. -/
  configNext : Bool

namespace Controller

variable (delay : ℕ)

/-- An answer. -/
def answer (s : Controller) (bytes : List UInt8) : Controller :=
  { s with output := s.output ++ bytes, pending := delay }

/-- A byte to the command port. -/
def command (s : Controller) (v : UInt8) : Controller :=
  let s := { s with busy := delay }
  if v = 0x20 then s.answer delay [s.config]
  else if v = 0x60 then { s with configNext := true }
  else if v = 0xAA then s.answer delay [0x55]
  else if v = 0xAB then s.answer delay [0x00]
  else s

/-- A byte to the data port: the configuration byte, or one for the keyboard, which acknowledges it,
and passes its self-test when it is reset. -/
def data (s : Controller) (v : UInt8) : Controller :=
  let s := { s with busy := delay }
  if s.configNext then { s with config := v, configNext := false }
  else s.answer delay (if v = 0xFF then [0xFA, 0xAA] else [0xFA])

/-- The status register. -/
def status (s : Controller) : UInt8 :=
  (if s.busy = 0 then 0 else 0x02) ||| (if s.pending = 0 ∧ s.output ≠ [] then 0x01 else 0)

def step (s : Controller) : Exchange → Controller
  | .out (.outb p v) =>
    if p = 0x64 then s.command delay v else if p = 0x60 then s.data delay v else s
  | .inp (.inb p) _ =>
    if p = 0x64 then { s with busy := s.busy - 1, pending := s.pending - 1 }
    else if p = 0x60 then { s with output := s.output.tail } else s
  | _ => s

/-- The state between two parts of `keyboard_init`, with an answer that comes after at most `late`
polls. -/
structure Ready (config : UInt8) (output : List UInt8) (late : ℕ) (configNext : Bool)
    (s : Controller) : Prop where
  config : s.config = config
  output : s.output = output
  busy : s.busy ≤ delay
  pending : s.pending ≤ late
  configNext : s.configNext = configNext

end Controller

open Controller

/-- The controller as a device, on a machine that has nothing else. -/
def controller (delay : ℕ) : Peripheral machine Controller where
  reply s
    | .inb p =>
      if p = 0x64 then s.status else if p = 0x60 then s.output.headD 0 else (0 : UInt8)
    | i => configMachine (fun _ ↦ 0) [] i
  step := step delay

/-- Its two ports. -/
def controllerPart : Part machine where
  reads i := i = .inb 0x64 ∨ i = .inb 0x60
  writes o := ∃ v, o = .outb 0x64 v ∨ o = .outb 0x60 v

section
variable {delay late n : ℕ} {s₀ : Controller} {dev : Device machine} {config v : UInt8}
  {output : List UInt8} {next : Bool}

/-- The state after the history is one of these. -/
def Now (delay : ℕ) (s₀ : Controller) (P : Controller → Prop) (h : Trace machine) : Prop :=
  P ((controller delay).after s₀ h)

theorem now_concat {P : Controller → Prop} {h : Trace machine} {e : Exchange} :
    Now delay s₀ P (h ++ [e]) ↔ P (((controller delay).after s₀ h).step delay e) := by
  simp [Now, controller]

/-! ## Its ports -/

/-- What a poll sees. -/
theorem status_busy (s : Controller) : s.status &&& 0x02 = 0 ↔ s.busy = 0 := by
  rw [status]
  split <;> split <;> simp only [*] <;> decide

theorem status_output (s : Controller) :
    s.status &&& 0x01 = 0 ↔ ¬(s.pending = 0 ∧ s.output ≠ []) := by
  rw [status]
  by_cases hshown : s.pending = 0 ∧ s.output ≠ []
  · rw [if_pos hshown]
    refine iff_of_false ?_ (not_not_intro hshown)
    split <;> decide
  · rw [if_neg hshown]
    refine iff_of_true ?_ hshown
    split <;> decide

/-- A poll changes nothing but the time. -/
theorem Controller.Ready.poll {s : Controller} (hs : Ready delay config output late next s)
    (r : UInt8) : Ready delay config output late next (s.step delay (.inp (.inb 0x64) r)) :=
  ⟨hs.config, hs.output, (Nat.sub_le _ _).trans hs.busy, (Nat.sub_le _ _).trans hs.pending,
    hs.configNext⟩

theorem Controller.Ready.answer {s : Controller} (hs : Ready delay config output late next s)
    (bytes : List UInt8) :
    Ready delay config (output ++ bytes) delay next ({ s with busy := delay }.answer delay bytes) :=
  ⟨hs.config, congrArg (· ++ bytes) hs.output, le_rfl, le_rfl, hs.configNext⟩

theorem Controller.Ready.written {s : Controller} (hs : Ready delay config output late next s) :
    Ready delay config output late next { s with busy := delay } :=
  ⟨hs.config, hs.output, le_rfl, hs.pending, hs.configNext⟩

theorem triple_write {P Q : Controller → Prop} {p : UInt16}
    (hQ : ∀ s, P s → Q (s.step delay (.out (.outb p v)))) :
    Triple dev (Now delay s₀ P) (outb p v) fun _ ↦ Now delay s₀ Q :=
  triple_emit fun _ hh ↦ now_concat.mpr (hQ _ hh)

/-! ## Waiting for it

The machine has the controller at its two ports. -/

variable (hdev : (controller delay).Attached s₀ controllerPart dev)
include hdev

theorem triple_poll {P : Controller → Prop} {Q : UInt8 → Controller → Prop}
    (hQ : ∀ s, P s → Q s.status (s.step delay (.inp (.inb 0x64) s.status))) :
    Triple dev (Now delay s₀ P) (inb 0x64) fun r ↦ Now delay s₀ (Q r) := by
  refine triple_ask fun h hh ↦ now_concat.mpr ?_
  rw [hdev h _ (.inl rfl)]
  exact hQ _ hh

theorem triple_read {P : Controller → Prop} {Q : UInt8 → Controller → Prop}
    (hQ : ∀ s, P s → Q (s.output.headD 0) { s with output := s.output.tail }) :
    Triple dev (Now delay s₀ P) (inb 0x60) fun r ↦ Now delay s₀ (Q r) := by
  refine triple_ask fun h hh ↦ now_concat.mpr ?_
  rw [hdev h _ (.inr rfl)]
  exact hQ _ hh

/-- **A wait comes to its end** when every poll that is not its last brings the end nearer. -/
theorem total_wait {wait : ℕ → OptionT Kernel Unit} {c : UInt8 → Prop} [DecidablePred c]
    (hwait : ∀ n, wait (n + 1) = do
      let status ← inb 0x64
      if c status then wait n else pure ())
    {P : Controller → Prop} (left : Controller → ℕ)
    (hP : ∀ s, P s → P (s.step delay (.inp (.inb 0x64) s.status)))
    (hleft : ∀ s, P s → c s.status →
      left (s.step delay (.inp (.inb 0x64) s.status)) < left s) :
    Total dev (Now delay s₀ fun s ↦ left s < n ∧ P s) (wait n) fun _ ↦ Now delay s₀ P := by
  induction n with
  | zero => exact fun h hh ↦ absurd hh.1 (Nat.not_lt_zero _)
  | succ n ih =>
    rw [hwait]
    refine (total_lift (triple_poll hdev (Q := fun r s ↦ (c r → left s < n) ∧ P s)
      fun s hs ↦ ⟨fun hr ↦ ?_, hP s hs.2⟩)).bind
      fun r ↦ .ite (fun hr ↦ ?_) fun _ ↦ total_pure fun _ hh ↦ hh.2
    · exact (hleft s hs.2 hr).trans_le (Nat.le_of_lt_succ hs.1)
    · exact ih.mono (fun _ hh ↦ ⟨hh.1 hr, hh.2⟩) fun _ _ hh ↦ hh

/-- **The input buffer** is waited for. -/
theorem total_ps2WaitInput (hn : delay < n) :
    Total dev (Now delay s₀ (Ready delay config output late next)) (ps2WaitInput n)
      fun _ ↦ Now delay s₀ (Ready delay config output late next) := by
  refine (total_wait hdev (c := fun r ↦ r &&& 0x02 ≠ 0) (fun _ ↦ rfl) busy
    (fun s hs ↦ hs.poll _) fun s _ hr ↦ ?_).mono (fun _ hh ↦ ⟨hh.busy.trans_lt hn, hh⟩)
    fun _ _ hh ↦ hh
  have hbusy : s.busy ≠ 0 := fun h ↦ hr ((status_busy s).mpr h)
  exact Nat.pred_lt hbusy

/-- **An answer** is waited for. -/
theorem total_ps2WaitOutput (hn : late < n) {a : UInt8} :
    Total dev (Now delay s₀ (Ready delay config (a :: output) late next)) (ps2WaitOutput n)
      fun _ ↦ Now delay s₀ (Ready delay config (a :: output) late next) := by
  refine (total_wait hdev (c := fun r ↦ r &&& 0x01 = 0) (fun _ ↦ rfl) pending
    (fun s hs ↦ hs.poll _) fun s hs hr ↦ ?_).mono (fun _ hh ↦ ⟨hh.pending.trans_lt hn, hh⟩)
    fun _ _ hh ↦ hh
  have houtput : s.output ≠ [] := by simp [hs.output]
  have hpending : s.pending ≠ 0 := fun h ↦ (status_output s).mp hr ⟨h, houtput⟩
  exact Nat.pred_lt hpending

theorem total_ps2ReadData (hn : late < n) {a : UInt8} :
    Total dev (Now delay s₀ (Ready delay config (a :: output) late next)) (ps2ReadData n)
      fun r h ↦ r = a ∧ Now delay s₀ (Ready delay config output late next) h := by
  refine (total_ps2WaitOutput hdev hn).bind fun _ ↦ total_lift (triple_read hdev
    (Q := fun r s ↦ r = a ∧ Ready delay config output late next s) fun s hs ↦ ?_)
  obtain ⟨hconfig, houtput, hbusy, hpending, hnext⟩ := hs
  rw [houtput]
  exact ⟨rfl, hconfig, rfl, hbusy, hpending, hnext⟩

theorem total_ps2SendCmd (hn : delay < n) {Q : Controller → Prop}
    (hQ : ∀ s, Ready delay config output late next s → Q (s.command delay v)) :
    Total dev (Now delay s₀ (Ready delay config output late next)) (ps2SendCmd n v)
      fun _ ↦ Now delay s₀ Q :=
  (total_ps2WaitInput hdev hn).bind fun _ ↦ total_lift (triple_write hQ)

theorem total_ps2SendData (hn : delay < n) {Q : Controller → Prop}
    (hQ : ∀ s, Ready delay config output late next s → Q (s.data delay v)) :
    Total dev (Now delay s₀ (Ready delay config output late next)) (ps2SendData n v)
      fun _ ↦ Now delay s₀ Q :=
  (total_ps2WaitInput hdev hn).bind fun _ ↦ total_lift (triple_write hQ)

/-- **What was left in the output buffer** is thrown away. -/
theorem total_ps2Drain (hn : output.length < n) :
    Total dev (Now delay s₀ (Ready delay config output 0 next)) (ps2Drain n)
      fun _ ↦ Now delay s₀ (Ready delay config [] 0 next) := by
  induction n generalizing output with
  | zero => exact absurd hn (Nat.not_lt_zero _)
  | succ n ih =>
    refine (total_lift (triple_poll hdev (Q := fun r s ↦ (r &&& 0x01 = 0 ↔ output = []) ∧
      Ready delay config output 0 next s) fun s hs ↦ ⟨?_, hs.poll _⟩)).bind fun r ↦
      .ite (fun hr ↦ ?_) fun hr ↦ total_pure fun _ hh ↦ ?_
    · have hpending := Nat.le_zero.mp hs.pending
      rw [status_output, hs.output]
      simp [hpending]
    · cases output with
      | nil => exact fun h hh ↦ absurd (hh.1.mpr rfl) hr
      | cons a output =>
        refine (total_lift (triple_read hdev
          (Q := fun _ s ↦ Ready delay config output 0 next s) fun s hs ↦ ?_)).bind fun _ ↦
          ih (Nat.lt_of_succ_lt_succ hn)
        obtain ⟨-, hconfig, houtput, hbusy, hpending, hnext⟩ := hs
        rw [houtput]
        exact ⟨hconfig, rfl, hbusy, hpending, hnext⟩
    · have hempty : output = [] := hh.1.mp (not_not.mp hr)
      exact hempty ▸ hh.2

/-! ## The whole of it -/

/-- The configuration byte is written. -/
theorem total_writeConfig (hn : delay < n) (v : UInt8) {β : Type} {f : OptionT Kernel β}
    {R : β → Trace machine → Prop}
    (hf : Total dev (Now delay s₀ (Ready delay v [] late false)) f R) :
    Total dev (Now delay s₀ (Ready delay config [] late false))
      (do ps2SendCmd n 0x60; ps2SendData n v; f) R := by
  refine (total_ps2SendCmd hdev hn (Q := Ready delay config [] late true) fun s hs ↦ ?_).bind
    fun _ ↦ (total_ps2SendData hdev hn (Q := Ready delay v [] late false) fun s hs ↦ ?_).bind
    fun _ ↦ hf
  · exact ⟨hs.config, hs.output, le_rfl, hs.pending, rfl⟩
  · rw [Controller.data, if_pos hs.configNext]
    exact ⟨rfl, hs.output, le_rfl, hs.pending, rfl⟩

/-- A byte is sent to the keyboard, which acknowledges it. -/
theorem total_sendByte (hn : delay < n) (v : UInt8) :
    Total dev (Now delay s₀ (Ready delay config [] delay false)) (ps2SendData n v) fun _ ↦
      Now delay s₀
        (Ready delay config (if v = 0xFF then [0xFA, 0xAA] else [0xFA]) delay false) := by
  refine total_ps2SendData hdev hn fun s hs ↦ ?_
  have hdata : s.data delay v =
      { s with busy := delay }.answer delay (if v = 0xFF then [0xFA, 0xAA] else [0xFA]) :=
    if_neg (by simp [hs.configNext])
  rw [hdata]
  exact hs.answer _

/-- **`keyboard_init` returns** on a controller that works, and leaves it set up. -/
theorem keyboardInit_works (hn : delay < n) (hlen : output.length < n) :
    Total dev (Now delay s₀ (Ready delay config output 0 false)) (keyboardInit n) fun _ ↦
      Now delay s₀ (Ready delay (maskConfig config ||| 0x01) [] delay false) := by
  have hquiet {v : UInt8} {config : UInt8} {output : List UInt8} {late : ℕ}
      (hv : v ≠ 0x20 ∧ v ≠ 0x60 ∧ v ≠ 0xAA ∧ v ≠ 0xAB) :
      Total dev (Now delay s₀ (Ready delay config output late false)) (ps2SendCmd n v) fun _ ↦
        Now delay s₀ (Ready delay config output late false) :=
    total_ps2SendCmd hdev hn fun s hs ↦ by
      simpa [Controller.command, hv] using hs.written
  have hread (config a : UInt8) (output : List UInt8) := @total_ps2ReadData delay delay n s₀ dev
    config output false hdev hn a
  have hmessage (text : String) {P : Controller → Prop} :
      Total dev (Now delay s₀ P) (liftM (vgaWrite text)) fun _ ↦ Now delay s₀ P :=
    total_lift (triple_emit fun _ hh ↦ now_concat.mpr hh)
  refine (hquiet (by decide)).bind fun _ ↦ (hquiet (by decide)).bind fun _ ↦
    (total_ps2Drain hdev hlen).bind fun _ ↦ ?_
  -- the configuration byte
  refine (total_ps2SendCmd hdev hn (Q := Ready delay config [config] delay false)
    fun s hs ↦ ?_).bind fun _ ↦ (hread config config []).bind_eq ?_
  · rw [Controller.command, if_pos rfl]
    exact hs.config ▸ hs.answer [s.config]
  refine total_writeConfig hdev hn _ ?_
  -- the tests of the controller
  refine (total_ps2SendCmd hdev hn (Q := Ready delay (maskConfig config) [0x55] delay false)
    fun s hs ↦ ?_).bind fun _ ↦ (hread _ 0x55 []).bind_eq ?_
  · exact hs.answer [0x55]
  rw [if_neg (by decide)]
  refine (total_ps2SendCmd hdev hn (Q := Ready delay (maskConfig config) [0x00] delay false)
    fun s hs ↦ ?_).bind fun _ ↦ (hread _ 0x00 []).bind_eq ?_
  · exact hs.answer [0x00]
  rw [if_neg (by decide)]
  -- the keyboard
  refine (hquiet (by decide)).bind fun _ ↦ (total_sendByte hdev hn 0xFF).bind fun _ ↦
    (hread _ 0xFA [0xAA]).bind_eq <| (hread _ 0xAA []).bind_eq ?_
  rw [if_neg (by decide)]
  refine (total_sendByte hdev hn 0xF0).bind fun _ ↦ (hread _ 0xFA []).bind_eq <|
    (total_sendByte hdev hn 0x01).bind fun _ ↦ (hread _ 0xFA []).bind_eq ?_
  exact total_writeConfig hdev hn _ (hmessage _)

end

/-- **On a machine whose keyboard works** the kernel comes to its prompt without a read past
`pci_devices` exactly if it does not lose itself behind the bridges or run out of room for what it
finds, whatever was typed before; and when `keyboard_init` returns, the output buffer is empty and
the configuration byte is set. -/
theorem comes_up_working_iff (b : Boot) {cs : ConfigSpace} (hs : Serves b.dev cs []) (delay : ℕ)
    (s₀ : Controller) (hdev : (controller delay).Attached s₀ controllerPart b.dev)
    (hbusy : s₀.busy ≤ delay) (hpending : s₀.pending = 0) (hnext : s₀.configNext = false) :
    (b.ComesUp ↔ cs.Grounded ∧ cs.RoomBehindBridges) ∧
      ∀ n, delay < n → s₀.output.length < n →
        (keyboardInit n).run.value b.dev banner = some () ∧
          let s := (controller delay).after s₀ (banner ++ (keyboardInit n).run.trace b.dev banner)
          s.output = [] ∧ s.config = maskConfig s₀.config ||| 0x01 := by
  have hready : Now delay s₀ (Ready delay s₀.config s₀.output 0 false) banner :=
    ⟨rfl, rfl, hbusy, hpending.le, hnext⟩
  have hreturns (n : ℕ) (hn : delay < n) (hlen : s₀.output.length < n) :=
    keyboardInit_works hdev hn hlen banner hready
  refine ⟨⟨fun hup ↦ (hup.parts hs).2, fun hbuses ↦ ?_⟩, fun n hn hlen ↦ ?_⟩
  · have hn : delay < delay + s₀.output.length + 1 := by omega
    obtain ⟨u, hu, -⟩ := hreturns _ hn (by omega)
    exact comesUp_of_grounded b hs (Option.isSome_of_eq_some hu) hbuses.1 hbuses.2
  · obtain ⟨u, hu, hend⟩ := hreturns n hn hlen
    exact ⟨hu, hend.output, hend.config⟩

/-- A slow one, a key that has been pressed before, and a function behind a bridge. -/
def slowBoot : Boot :=
  { readyBoot with
    dev := withRegisters ((controller 1000).device ⟨0x61, [0x1C], 0, 0, false⟩) (oneBridge true) }

/-- The kernel comes up there. -/
theorem comes_up_working_slowly : slowBoot.ComesUp := by
  have hs : Serves slowBoot.dev (oneBridge true) [] := (servesAlways_withRegisters _ _).serves []
  have hattached : (controller 1000).Attached ⟨0x61, [0x1C], 0, 0, false⟩ controllerPart
      slowBoot.dev := by
    rintro h i (rfl | rfl) <;> rfl
  exact (comes_up_working_iff slowBoot hs 1000 _ hattached (Nat.zero_le _) rfl rfl).1.mpr
    ⟨grounded_oneBridge true, room_oneBridge true⟩

end Aetherion.Shell
