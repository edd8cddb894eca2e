import Aetherion.Base.Polling
import Aetherion.Ahci.Results

/-!
# Running out of polls

`ahci_exec_cmd` polls PxCI until the bit of the slot is clear, counting `timeout` down in the test
of the loop, and takes a `timeout` of `0` for having run out.  But a loop that runs out leaves it
wrapped around, and what leaves it at `0` is a bit that is found clear by the last poll.  In both
cases the result is the wrong one, unless PxIS shows a task-file error, which makes it `-1` either
way: `decided_iff`.
-/

set_option autoImplicit false

namespace Aetherion.Ahci

open Driver Driver.Prog

/-! ## The registers -/

section
variable (hba : Hba) (port : AhciPort) (dev : Device machine) (h : Trace machine)

/-- Poll `k` after the history `h` finds the bit of the slot set. -/
def SlotBusy (k : ℕ) : Prop :=
  (portRead hba port 0x38).value dev (polled dev (.mmio (portAddr hba port 0x38)) h k) &&&
    slotBit port ≠ 0

/-- PxIS, read after `n` polls, shows the task-file error bit. -/
def ShowsError (n : ℕ) : Prop :=
  (portRead hba port 0x10).value dev (polled dev (.mmio (portAddr hba port 0x38)) h n) &&&
    0x40000000 ≠ 0

instance decidableShowsError (n : ℕ) : Decidable (ShowsError hba port dev h n) :=
  inferInstanceAs (Decidable (_ ≠ _))

/-- **The result is that of the registers**: `-1` if the bit is still set in all the polls, and if
it is found clear, `-1` or `0` as PxIS then shows an error or not. -/
structure Decided (r : ℤ) : Prop where
  timeout : (∀ k < 5000000, SlotBusy hba port dev h k) → r = -1
  completed : ∀ k < 5000000, (∀ j < k, SlotBusy hba port dev h j) → ¬SlotBusy hba port dev h k →
    r = if ShowsError hba port dev h (k + 1) then -1 else 0

/-- The history when the polls of a command begin. -/
def issued (fis : Fis) (buffer : UInt64) (count : UInt32) (isWrite : Bool) : Trace machine :=
  h ++ (buildCommand hba port fis buffer count isWrite).trace dev h ++
    [.out (.mmio (portAddr hba port 0x38) (slotBit port))]

end

/-! ## The loop -/

section
variable {hba : Hba} {port : AhciPort} {dev : Device machine} {h : Trace machine}

variable (hba port dev) in
/-- **The poll loop** stops at the first poll that finds the bit clear, with what is left of the
count, or runs out and wraps around. -/
theorem pollCi_ends (n : ℕ) (h : Trace machine) :
    (∃ k < n, (∀ j < k, SlotBusy hba port dev h j) ∧ ¬SlotBusy hba port dev h k ∧
      (pollCi hba port n).value dev h = .ofNat (n - 1 - k) ∧
      h ++ (pollCi hba port n).trace dev h =
        polled dev (.mmio (portAddr hba port 0x38)) h (k + 1)) ∨
    ((∀ j < n, SlotBusy hba port dev h j) ∧ (pollCi hba port n).value dev h = 0xFFFFFFFF ∧
      h ++ (pollCi hba port n).trace dev h =
        polled dev (.mmio (portAddr hba port 0x38)) h n) := by
  induction n generalizing h with
  | zero => exact Or.inr ⟨fun j hj ↦ absurd hj (Nat.not_lt_zero j), rfl, List.append_nil h⟩
  | succ n ih =>
    have hread : (portRead hba port 0x38).trace dev h =
        [.inp (.mmio (portAddr hba port 0x38)) (dev h (.mmio (portAddr hba port 0x38)))] := rfl
    have hshift {k : ℕ} (hzero : SlotBusy hba port dev h 0)
        (hk : ∀ j < k, SlotBusy hba port dev (h ++ (portRead hba port 0x38).trace dev h) j) :
        ∀ j < k + 1, SlotBusy hba port dev h j := by
      intro j hj
      cases j with
      | zero => exact hzero
      | succ j =>
        have hbusy := hk j (Nat.lt_of_succ_lt_succ hj)
        rwa [SlotBusy, hread, polled_succ'] at hbusy
    rw [pollCi, value_bind, trace_bind, value_ite, trace_ite, ← List.append_assoc]
    by_cases hfree : (portRead hba port 0x38).value dev h &&& slotBit port = 0
    · rw [if_pos hfree, if_pos hfree]
      refine Or.inl ⟨0, Nat.succ_pos n, fun j hj ↦ absurd hj (Nat.not_lt_zero j),
        not_not_intro hfree, by rw [value_pure]; rfl, ?_⟩
      rw [trace_pure, List.append_nil, hread]
      rfl
    · rw [if_neg hfree, if_neg hfree]
      rcases ih (h ++ (portRead hba port 0x38).trace dev h) with
        ⟨k, hk, hbefore, hfirst, hvalue, htrace⟩ | ⟨hall, hvalue, htrace⟩
      · refine Or.inl ⟨k + 1, Nat.succ_lt_succ hk, hshift hfree hbefore, ?_, ?_, ?_⟩
        · rwa [SlotBusy, hread, polled_succ'] at hfirst
        · rw [hvalue]
          congr 1
          omega
        · rw [htrace, hread, polled_succ']
      · refine Or.inr ⟨hshift hfree hall, hvalue, ?_⟩
        rw [htrace, hread, polled_succ']

/-- A look at PxIS. -/
theorem value_checkError (n : ℕ) :
    Prog.value (do
      let is ← portRead hba port 0x10
      if is &&& 0x40000000 ≠ 0 then do
        vgaWrite "[AHCI] Task File Error\n"
        pure (-1)
      else pure (0 : ℤ)) dev (polled dev (.mmio (portAddr hba port 0x38)) h n) =
    if ShowsError hba port dev h n then -1 else 0 := by
  rw [value_bind, value_ite]
  rfl

variable (hba port dev) in
/-- **What `ahci_exec_cmd` makes of the polls.** -/
theorem value_awaitCmd (h : Trace machine) :
    (∃ k < 4999999, (∀ j < k, SlotBusy hba port dev h j) ∧ ¬SlotBusy hba port dev h k ∧
      (awaitCmd hba port).value dev h = if ShowsError hba port dev h (k + 1) then -1 else 0) ∨
    ((∀ j < 4999999, SlotBusy hba port dev h j) ∧ ¬SlotBusy hba port dev h 4999999 ∧
      (awaitCmd hba port).value dev h = -1) ∨
    ((∀ j < 5000000, SlotBusy hba port dev h j) ∧
      (awaitCmd hba port).value dev h = if ShowsError hba port dev h 5000000 then -1 else 0) := by
  rcases pollCi_ends hba port dev 5000000 h with
    ⟨k, hk, hbefore, hfirst, hvalue, htrace⟩ | ⟨hall, hvalue, htrace⟩
  · rcases Nat.lt_or_ge k 4999999 with hlt | hge
    · refine Or.inl ⟨k, hlt, hbefore, hfirst, ?_⟩
      have hne : UInt32.ofNat (5000000 - 1 - k) ≠ 0 := by
        intro hzero
        have hnat := congrArg UInt32.toNat hzero
        rw [UInt32.toNat_ofNat', Nat.mod_eq_of_lt (by omega)] at hnat
        change 5000000 - 1 - k = 0 at hnat
        omega
      rw [awaitCmd, value_bind, hvalue, if_neg hne, htrace, value_checkError]
    · obtain rfl : k = 4999999 := by omega
      refine Or.inr (Or.inl ⟨hbefore, hfirst, ?_⟩)
      have hzero : UInt32.ofNat (5000000 - 1 - 4999999) = 0 := rfl
      rw [awaitCmd, value_bind, hvalue, if_pos hzero, value_pure]
  · refine Or.inr (Or.inr ⟨hall, ?_⟩)
    rw [awaitCmd, value_bind, hvalue, if_neg (by decide), htrace, value_checkError]

end

/-! ## Whether the result is the right one -/

variable {hba : Hba} {port : AhciPort} {dev : Device machine} {h : Trace machine}

/-- The result of the polls is the right one if one before the last finds the bit clear, or PxIS
shows an error at the end of them. -/
theorem decided_awaitCmd_iff :
    Decided hba port dev h ((awaitCmd hba port).value dev h) ↔
      (∃ k < 4999999, ¬SlotBusy hba port dev h k) ∨ ShowsError hba port dev h 5000000 := by
  rcases value_awaitCmd hba port dev h with
    ⟨k, hk, hbefore, hfirst, hvalue⟩ | ⟨hbefore, hfirst, hvalue⟩ | ⟨hall, hvalue⟩
  · refine iff_of_true ⟨fun hall ↦ absurd (hall k (by omega)) hfirst, ?_⟩ (Or.inl ⟨k, hk, hfirst⟩)
    intro k' _ hbefore' hfirst'
    obtain rfl := first_unique hfirst (fun j hj ↦ not_not_intro (hbefore j hj)) hfirst'
      fun j hj ↦ not_not_intro (hbefore' j hj)
    exact hvalue
  · constructor
    · intro hdecided
      have hresult := hdecided.completed 4999999 (by decide) hbefore hfirst
      rw [hvalue] at hresult
      by_contra hnot
      rw [if_neg fun herror ↦ hnot (Or.inr herror)] at hresult
      exact absurd hresult (by decide)
    · rintro (⟨k, hk, hfree⟩ | herror)
      · exact absurd (hbefore k hk) hfree
      · refine ⟨fun hall ↦ absurd (hall 4999999 (by decide)) hfirst, ?_⟩
        intro k hk hbefore' hfirst'
        obtain rfl : k = 4999999 := by
          by_contra hne
          exact hfirst' (hbefore k (by omega))
        rw [hvalue, if_pos herror]
  · constructor
    · intro hdecided
      have hresult := hdecided.timeout hall
      rw [hvalue] at hresult
      by_contra hnot
      rw [if_neg fun herror ↦ hnot (Or.inr herror)] at hresult
      exact absurd hresult (by decide)
    · rintro (⟨k, hk, hfree⟩ | herror)
      · exact absurd (hall k (by omega)) hfree
      · refine ⟨fun _ ↦ by rw [hvalue, if_pos herror], ?_⟩
        exact fun k hk _ hfree ↦ absurd (hall k hk) hfree

/-- The polls come after the command has been built and its bit set. -/
theorem value_ahciExecCmd (fis : Fis) (buffer : UInt64) (count : UInt32) (isWrite : Bool) :
    (ahciExecCmd hba port fis buffer count isWrite).value dev h =
      (awaitCmd hba port).value dev (issued hba port dev h fis buffer count isWrite) := by
  rw [ahciExecCmd, value_bind, value_bind]
  rfl

/-- **The result is that of the registers** exactly when the bit of the slot is found clear by a
poll that is not the last, or PxIS shows a task-file error after all of them. -/
theorem decided_iff (hba : Hba) (port : AhciPort) (fis : Fis) (buffer : UInt64) (count : UInt32)
    (isWrite : Bool) (dev : Device machine) (h : Trace machine) :
    Decided hba port dev (issued hba port dev h fis buffer count isWrite)
        ((ahciExecCmd hba port fis buffer count isWrite).value dev h) ↔
      (∃ k < 4999999, ¬SlotBusy hba port dev (issued hba port dev h fis buffer count isWrite) k) ∨
        ShowsError hba port dev (issued hba port dev h fis buffer count isWrite) 5000000 := by
  rw [value_ahciExecCmd]
  exact decided_awaitCmd_iff

/-- A device that never answers: the bit of the slot stays set, and there is no error. -/
def hungMachine (hba : Hba) (port : AhciPort) : Device machine := fun h i ↦
  match i with
  | .mmio a => if a = portAddr hba port 0x38 then slotBit port else (0 : UInt32)
  | i => steadyMachine 0 0 0 h i

theorem value_hungMachine (hba : Hba) (port : AhciPort) (h : Trace machine) :
    (portRead hba port 0x38).value (hungMachine hba port) h = slotBit port ∧
      (portRead hba port 0x10).value (hungMachine hba port) h = 0 :=
  ⟨if_pos (Eq.refl (portAddr hba port 0x38)), if_neg portAddr_ne⟩

/-- A command to it is reported as done. -/
theorem hung_is_reported_done :
    ¬Decided AhciState.initial.hba firstPort (hungMachine AhciState.initial.hba firstPort)
      (issued AhciState.initial.hba firstPort (hungMachine AhciState.initial.hba firstPort) []
        (readFis 0 1) 0x2000 512 false)
      ((ahciExecCmd AhciState.initial.hba firstPort (readFis 0 1) 0x2000 512 false).value
        (hungMachine AhciState.initial.hba firstPort) []) := by
  rw [value_ahciExecCmd, decided_awaitCmd_iff]
  rintro (⟨k, -, hfree⟩ | herror)
  · rw [SlotBusy, (value_hungMachine _ _ _).1, not_not] at hfree
    exact slotBit_and_self hfree
  · rw [ShowsError, (value_hungMachine _ _ _).2] at herror
    exact herror rfl

end Aetherion.Ahci
