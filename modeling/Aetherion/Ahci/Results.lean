import Aetherion.Ahci.Fetch

/-!
# What a sequence of commands returns

The task-file error bit of PxIS stays set until software writes 1 to it, and the driver never writes
PxIS.  So one failed command makes every later command of the port fail, and the results are those
of the commands themselves only in a sequence without an error before a success (`results_own_iff`).

There is a second way to fail.  The poll loop counts `timeout` down in its test, so a slot that is
seen free by the last of the 5000000 polls leaves it at `0`, which is read as running out; running
out leaves it wrapped around.
-/

set_option autoImplicit false

namespace Aetherion.Ahci

open Driver Driver.Prog

/-! ## The port, seen from outside -/

/-- How the device ends a command. -/
structure Outcome where
  /-- How many reads of PxCI still find the slot's bit set. -/
  polls : ℕ
  /-- Whether it raises the task-file error bit. -/
  error : Bool

/-- Seen by the driver, which polls 5000000 times. -/
def Outcome.Completes (o : Outcome) : Prop := o.polls < 5000000

instance (o : Outcome) : Decidable o.Completes := inferInstanceAs (Decidable (_ < _))

/-- What a port shows. -/
structure PortStatus where
  /-- The task-file error bit of PxIS. -/
  error : Bool
  /-- How many reads of PxCI will still find the slot's bit set. -/
  left : ℕ
  /-- How many commands have been issued. -/
  issued : ℕ

/-- A port that ends its commands, in the order they are issued, in the given way.  A command may
raise the error bit, and only a 1 written to it clears it. -/
def statusPort (hba : Hba) (port : AhciPort) (outcomes : ℕ → Outcome) :
    Observer machine PortStatus Empty where
  step s
    | .out (.mmio a v) =>
      if a = portAddr hba port 0x38 ∧ v &&& slotBit port ≠ 0 then
        let o := outcomes s.issued
        (⟨s.error || o.error, o.polls, s.issued + 1⟩, [])
      else if a = portAddr hba port 0x10 ∧ v &&& 0x40000000 ≠ 0 then ({ s with error := false }, [])
      else (s, [])
    | .inp (.mmio a) _ =>
      (if a = portAddr hba port 0x38 then { s with left := s.left - 1 } else s, [])
    | _ => (s, [])

/-- The device answers for that port: the slot's bit of PxCI and the error bit of PxIS are what the
port shows.  Nothing is said of any other bit, register or port. -/
structure Answers (dev : Device machine) (hba : Hba) (port : AhciPort) (outcomes : ℕ → Outcome)
    (s₀ : PortStatus) : Prop where
  ci : ∀ h, (portRead hba port 0x38).value dev h &&& slotBit port = 0 ↔
    ((statusPort hba port outcomes).after s₀ h).left = 0
  is : ∀ h, (portRead hba port 0x10).value dev h &&& 0x40000000 ≠ 0 ↔
    ((statusPort hba port outcomes).after s₀ h).error = true

/-- What is read from an address when the port shows `s`. -/
def PortStatus.read (s : PortStatus) (hba : Hba) (port : AhciPort) (a : UInt64) : UInt32 :=
  if a = portAddr hba port 0x38 then (if s.left = 0 then 0 else slotBit port)
  else if a = portAddr hba port 0x10 then (if s.error then 0x40000000 else 0)
  else 0

/-- A device with that port and nothing else. -/
def portMachine (hba : Hba) (port : AhciPort) (outcomes : ℕ → Outcome) (s₀ : PortStatus) :
    Device machine := fun h i ↦
  match i with
  | .mmio a => ((statusPort hba port outcomes).after s₀ h).read hba port a
  | i => steadyMachine 0 0 0 h i

/-! ## Sequences of commands -/

/-- The arguments of `ahci_exec_cmd`. -/
structure PortCommand where
  /-- `cmd_fis`. -/
  fis : Fis
  /-- `buffer`. -/
  buffer : UInt64
  /-- `count`. -/
  count : UInt32
  /-- `is_write`. -/
  isWrite : Bool

def PortCommand.exec (c : PortCommand) (hba : Hba) (port : AhciPort) : Kernel ℤ :=
  ahciExecCmd hba port c.fis c.buffer c.count c.isWrite

/-- Commands, one after the other, and what each of them returns. -/
def runCommands (hba : Hba) (port : AhciPort) : List PortCommand → Kernel (List ℤ)
  | [] => pure []
  | c :: cs => do
    let r ← c.exec hba port
    let rs ← runCommands hba port cs
    pure (r :: rs)

/-- What a command with this outcome returns when it is the only one its port has ever seen. -/
def PortCommand.alone (c : PortCommand) (hba : Hba) (port : AhciPort) (o : Outcome) : ℤ :=
  (c.exec hba port).value (portMachine hba port (fun _ ↦ o) ⟨false, 0, 0⟩) []

/-- **Each result depends on the command's own outcome only**: it is what the command returns
alone, and `0` for a command that is completed without an error. -/
def ResultsOwn (hba : Hba) (port : AhciPort) (outcomes : ℕ → Outcome) (cs : List PortCommand)
    (rs : List ℤ) : Prop :=
  ∀ k c, cs[k]? = some c → ∃ r, rs[k]? = some r ∧ r = c.alone hba port (outcomes k) ∧
    ((outcomes k).Completes → (outcomes k).error = false → r = 0)

/-! ## One command -/

section
variable {hba : Hba} {port : AhciPort} {outcomes : ℕ → Outcome} {s₀ : PortStatus}
  {dev : Device machine}

theorem portAddr_ne : portAddr hba port 0x10 ≠ portAddr hba port 0x38 := by
  rw [portAddr, portAddr]
  exact fun heq ↦ absurd ((UInt64.add_right_inj _).mp heq) (by decide)

theorem slotBit_and_self : slotBit port &&& slotBit port ≠ 0 := by
  rw [UInt32.and_self]
  exact slotBit_ne_zero port

theorem PortStatus.read_ci (s : PortStatus) :
    s.read hba port (portAddr hba port 0x38) &&& slotBit port = 0 ↔ s.left = 0 := by
  rw [PortStatus.read, if_pos rfl]
  split
  · simpa
  · simpa [*] using slotBit_ne_zero port

theorem PortStatus.read_is (s : PortStatus) :
    s.read hba port (portAddr hba port 0x10) &&& 0x40000000 ≠ 0 ↔ s.error = true := by
  rw [PortStatus.read, if_neg portAddr_ne, if_pos rfl]
  cases s.error <;> decide

theorem answers_portMachine : Answers (portMachine hba port outcomes s₀) hba port outcomes s₀ :=
  ⟨fun _ ↦ PortStatus.read_ci _, fun _ ↦ PortStatus.read_is _⟩

/-- Building a command does not touch the port. -/
theorem after_buildCommand_statusPort (c : PortCommand) (s : PortStatus) (h : Trace machine) :
    (statusPort hba port outcomes).after s
      ((buildCommand hba port c.fis c.buffer c.count c.isWrite).trace dev h) = s := rfl

theorem step_issue (s : PortStatus) :
    ((statusPort hba port outcomes).step s
      (.out (.mmio (portAddr hba port 0x38) (slotBit port)))).1 =
      ⟨s.error || (outcomes s.issued).error, (outcomes s.issued).polls, s.issued + 1⟩ := by
  have hstep : (statusPort hba port outcomes).step s
      (.out (.mmio (portAddr hba port 0x38) (slotBit port))) = _ :=
    if_pos ⟨rfl, slotBit_and_self⟩
  rw [hstep]

theorem step_poll (s : PortStatus) (r : machine.Reply (.mmio (portAddr hba port 0x38))) :
    ((statusPort hba port outcomes).step s (.inp (.mmio (portAddr hba port 0x38)) r)).1 =
      { s with left := s.left - 1 } := if_pos rfl

theorem after_portRead_is (s : PortStatus) (h : Trace machine) :
    (statusPort hba port outcomes).after s ((portRead hba port 0x10).trace dev h) = s :=
  if_neg portAddr_ne

/-- **The poll loop** takes as many polls as the device leaves it to find the slot free, and one
more.  Whatever happens it changes only the number of polls that are left. -/
theorem pollCi_spec (hdev : Answers dev hba port outcomes s₀) (n : ℕ) (h : Trace machine)
    {s : PortStatus} (hs : (statusPort hba port outcomes).after s₀ h = s) :
    (pollCi hba port n).value dev h =
        (if s.left < n then .ofNat (n - 1 - s.left) else 0xFFFFFFFF) ∧
      ∃ left, (statusPort hba port outcomes).after s ((pollCi hba port n).trace dev h) =
        { s with left := left } := by
  induction n generalizing h s with
  | zero => exact ⟨by simp [pollCi], s.left, rfl⟩
  | succ n ih =>
    have hread : (portRead hba port 0x38).trace dev h =
        [.inp (.mmio (portAddr hba port 0x38)) (dev h (.mmio (portAddr hba port 0x38)))] := rfl
    have hci := hdev.ci h
    rw [hs] at hci
    rw [pollCi, value_bind, trace_bind, value_ite, trace_ite, Observer.after_append, hread,
      Observer.after_cons, Observer.after_nil, step_poll]
    by_cases hleft : s.left = 0
    · rw [if_pos (hci.mpr hleft), if_pos (hci.mpr hleft)]
      exact ⟨by simp [hleft], s.left - 1, rfl⟩
    · rw [if_neg (mt hci.mp hleft), if_neg (mt hci.mp hleft)]
      obtain ⟨hvalue, left, hafter⟩ := ih (h ++ [.inp (.mmio (portAddr hba port 0x38))
        (dev h (.mmio (portAddr hba port 0x38)))]) (s := { s with left := s.left - 1 })
        (by rw [Observer.after_append, hs, Observer.after_cons, Observer.after_nil, step_poll])
      refine ⟨hvalue.trans ?_, left, hafter⟩
      change (if s.left - 1 < n then UInt32.ofNat (n - 1 - (s.left - 1)) else 0xFFFFFFFF) = _
      rw [show n + 1 - 1 - s.left = n - 1 - (s.left - 1) by omega]
      exact if_congr (by omega) rfl rfl

/-- The loop leaves `0` when the last poll of all is the first to find the slot free. -/
theorem pollCi_eq_zero_iff (hdev : Answers dev hba port outcomes s₀) (h : Trace machine)
    {s : PortStatus} (hs : (statusPort hba port outcomes).after s₀ h = s) :
    (pollCi hba port 5000000).value dev h = 0 ↔ s.left = 4999999 := by
  rw [(pollCi_spec hdev 5000000 h hs).1]
  split
  · rw [← UInt32.toNat_inj, UInt32.toNat_ofNat', Nat.mod_eq_of_lt (by omega)]
    change 5000000 - 1 - s.left = 0 ↔ _
    omega
  · exact iff_of_false (by decide) (by omega)

/-- What a command returns on a port whose error bit was `err` before it. -/
def Outcome.result (o : Outcome) (err : Bool) : ℤ :=
  if o.polls = 4999999 ∨ (err || o.error) = true then -1 else 0

/-- The port when a command with the next outcome has been issued. -/
def PortStatus.issue (s : PortStatus) (outcomes : ℕ → Outcome) : PortStatus :=
  ⟨s.error || (outcomes s.issued).error, (outcomes s.issued).polls, s.issued + 1⟩

/-- **The end of a command.** -/
theorem awaitCmd_spec (hdev : Answers dev hba port outcomes s₀) (h : Trace machine)
    {s : PortStatus} (hs : (statusPort hba port outcomes).after s₀ h = s) :
    (awaitCmd hba port).value dev h = (if s.left = 4999999 ∨ s.error = true then -1 else 0) ∧
      ∃ left, (statusPort hba port outcomes).after s ((awaitCmd hba port).trace dev h) =
        { s with left := left } := by
  obtain ⟨-, left, hafter⟩ := pollCi_spec hdev 5000000 h hs
  have hzero := pollCi_eq_zero_iff hdev h hs
  have his := hdev.is (h ++ (pollCi hba port 5000000).trace dev h)
  rw [Observer.after_append, hs, hafter] at his
  rw [awaitCmd, value_bind, trace_bind, value_ite, trace_ite, Observer.after_append, hafter]
  by_cases htimeout : s.left = 4999999
  · rw [if_pos (hzero.mpr htimeout), if_pos (hzero.mpr htimeout), if_pos (Or.inl htimeout)]
    exact ⟨rfl, left, rfl⟩
  rw [if_neg (mt hzero.mp htimeout), if_neg (mt hzero.mp htimeout)]
  rw [value_bind, trace_bind, value_ite, trace_ite, Observer.after_append, after_portRead_is]
  by_cases herror : s.error = true
  · rw [if_pos (his.mpr herror), if_pos (his.mpr herror), if_pos (Or.inr herror)]
    exact ⟨rfl, left, rfl⟩
  · rw [if_neg (mt his.mp herror), if_neg (mt his.mp herror),
      if_neg (not_or.mpr ⟨htimeout, herror⟩)]
    exact ⟨rfl, left, rfl⟩

/-- **One command** returns what its outcome and the error bit before it make of it, and the bit
stays up. -/
theorem exec_spec (hdev : Answers dev hba port outcomes s₀) (c : PortCommand) (h : Trace machine)
    {s : PortStatus} (hs : (statusPort hba port outcomes).after s₀ h = s) :
    (c.exec hba port).value dev h = (outcomes s.issued).result s.error ∧
      ∃ left, (statusPort hba port outcomes).after s ((c.exec hba port).trace dev h) =
        { s.issue outcomes with left := left } := by
  have hissued : (statusPort hba port outcomes).after s₀ (h ++
      (buildCommand hba port c.fis c.buffer c.count c.isWrite).trace dev h ++
        [.out (.mmio (portAddr hba port 0x38) (slotBit port))]) = s.issue outcomes := by
    rw [Observer.after_append, Observer.after_append, hs, after_buildCommand_statusPort]
    exact step_issue s
  obtain ⟨hvalue, left, hafter⟩ := awaitCmd_spec hdev _ hissued
  refine ⟨hvalue, left, ?_⟩
  rw [PortCommand.exec, ahciExecCmd, trace_bind, Observer.after_append,
    after_buildCommand_statusPort,
    trace_bind, Observer.after_append]
  have hstep : (statusPort hba port outcomes).after s
      ((portWrite hba port 0x38 (slotBit port)).trace dev
        (h ++ (buildCommand hba port c.fis c.buffer c.count c.isWrite).trace dev h)) =
      s.issue outcomes := step_issue s
  rw [hstep]
  exact hafter

/-! ## A sequence of commands -/

/-- The error bit after `k` commands. -/
def raised (outcomes : ℕ → Outcome) (err : Bool) : ℕ → Bool
  | 0 => err
  | k + 1 => raised outcomes err k || (outcomes k).error

theorem raised_succ (os : ℕ → Outcome) (err : Bool) (k : ℕ) :
    raised os err (k + 1) = raised (fun j ↦ os (j + 1)) (err || (os 0).error) k := by
  induction k with
  | zero => rfl
  | succ k ih => rw [raised, ih, raised]

theorem raised_eq_false_iff (os : ℕ → Outcome) (err : Bool) (k : ℕ) :
    raised os err k = false ↔ err = false ∧ ∀ j < k, (os j).error = false := by
  induction k with
  | zero => simp [raised]
  | succ k ih => rw [raised, Bool.or_eq_false_iff, ih, Nat.forall_lt_succ_right, and_assoc]

/-- **A sequence of commands.** -/
theorem runCommands_spec (hdev : Answers dev hba port outcomes s₀) (cs : List PortCommand)
    (h : Trace machine) {s : PortStatus} (hs : (statusPort hba port outcomes).after s₀ h = s)
    {k : ℕ} (hk : k < cs.length) :
    ((runCommands hba port cs).value dev h)[k]? = some ((outcomes (s.issued + k)).result
      (raised (fun j ↦ outcomes (s.issued + j)) s.error k)) := by
  induction cs generalizing h s k with
  | nil => cases hk
  | cons c cs ih =>
    obtain ⟨hvalue, left, hafter⟩ := exec_spec hdev c h hs
    rw [runCommands, value_bind, value_bind, value_pure, hvalue]
    cases k with
    | zero => rfl
    | succ k =>
      have hnext := ih (h ++ (c.exec hba port).trace dev h)
        (by rw [Observer.after_append, hs, hafter]) (Nat.lt_of_succ_lt_succ hk)
      rw [List.getElem?_cons_succ, hnext, raised_succ]
      simp only [PortStatus.issue, Nat.add_zero, Nat.add_assoc, Nat.add_comm 1]

theorem alone_eq (c : PortCommand) (o : Outcome) : c.alone hba port o = o.result false :=
  (exec_spec answers_portMachine c [] rfl).1

/-- A command that does not fail by itself is the one that an earlier error can make fail. -/
theorem result_own_iff (o : Outcome) (err : Bool) :
    (o.result err = o.result false ∧ (o.Completes → o.error = false → o.result err = 0)) ↔
      (o.error = false → o.polls ≠ 4999999 ∧ err = false) := by
  have hneg : (-1 : ℤ) ≠ 0 := by decide
  by_cases hpolls : o.polls = 4999999
  · have hcompletes : o.Completes := by rw [Outcome.Completes, hpolls]; decide
    simp [Outcome.result, hpolls, hcompletes]
  · cases herr : err <;> cases herror : o.error <;> simp [Outcome.result, hpolls, herror]

end

/-- **Each command's result depends on its own outcome only** exactly when no command that ends
without an error comes after one that ended with an error (or starts with the bit up), and none of
them is seen to end by the very last poll. -/
theorem results_own_iff (hba : Hba) (port : AhciPort) (outcomes : ℕ → Outcome) (err : Bool)
    (dev : Device machine) (hdev : Answers dev hba port outcomes ⟨err, 0, 0⟩)
    (cs : List PortCommand) :
    ResultsOwn hba port outcomes cs ((runCommands hba port cs).value dev []) ↔
      ∀ k < cs.length, (outcomes k).error = false →
        (outcomes k).polls ≠ 4999999 ∧ err = false ∧ ∀ j < k, (outcomes j).error = false := by
  have hresult {k : ℕ} (hk : k < cs.length) := runCommands_spec hdev cs [] rfl hk
  simp only [Observer.after_nil, Nat.zero_add] at hresult
  have hown (k : ℕ) := result_own_iff (outcomes k) (raised outcomes err k)
  simp only [raised_eq_false_iff] at hown
  constructor
  · intro hall k hk
    obtain ⟨r, hr, halone, hzero⟩ := hall k cs[k] (List.getElem?_eq_getElem hk)
    rw [hresult hk, Option.some_inj] at hr
    rw [alone_eq] at halone
    exact (hown k).mp ⟨hr ▸ halone, hr ▸ hzero⟩
  · intro hall k c hc
    have hk := (List.getElem?_eq_some_iff.mp hc).1
    obtain ⟨halone, hzero⟩ := (hown k).mpr (hall k hk)
    exact ⟨_, hresult hk, halone.trans (alone_eq c _).symm, hzero⟩

/-- A read that succeeds, again and again. -/
theorem results_own_two_reads :
    ResultsOwn AhciState.initial.hba firstPort (fun _ ↦ ⟨0, false⟩)
      [⟨readFis 0 1, 0x2000, 512, false⟩, ⟨readFis 1 1, 0x2000, 512, false⟩]
      ((runCommands AhciState.initial.hba firstPort
        [⟨readFis 0 1, 0x2000, 512, false⟩, ⟨readFis 1 1, 0x2000, 512, false⟩]).value
        (portMachine AhciState.initial.hba firstPort (fun _ ↦ ⟨0, false⟩) ⟨false, 0, 0⟩) []) :=
  (results_own_iff _ _ _ _ _ answers_portMachine _).mpr
    fun _ _ _ ↦ ⟨by decide, rfl, fun _ _ ↦ rfl⟩

/-- An IDENTIFY that fails, and then nothing but successes. -/
def firstFails : ℕ → Outcome
  | 0 => ⟨0, true⟩
  | _ + 1 => ⟨0, false⟩

/-- The read after it fails as well. -/
theorem read_fails_after_identify :
    ¬ResultsOwn AhciState.initial.hba firstPort firstFails
      [⟨identifyFis, 0x2000, 512, false⟩, ⟨readFis 0 1, 0x2000, 512, false⟩]
      ((runCommands AhciState.initial.hba firstPort
        [⟨identifyFis, 0x2000, 512, false⟩, ⟨readFis 0 1, 0x2000, 512, false⟩]).value
        (portMachine AhciState.initial.hba firstPort firstFails ⟨false, 0, 0⟩) []) := by
  intro hall
  obtain ⟨r, hr, -, hzero⟩ := hall 1 _ rfl
  rw [runCommands_spec answers_portMachine _ [] rfl (by decide), Option.some_inj] at hr
  exact absurd (hr.trans (hzero (by decide) rfl)) (by decide)

end Aetherion.Ahci
