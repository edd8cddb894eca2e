import Aetherion.Ai.Execute

/-!
# Moving through the history

`ia_history_nav` of `kernel/ai.c`.  The caller keeps the index: it starts as `hist_index`, which
is one past the last entry, and each call moves it and copies the entry it is at then.

Up is the way to go first.  From the starting index any other call finds nothing to do, and copies
what is one past the last entry: a row never used, or with ten entries what lies behind the array.
Once an index is inside it stays inside, whatever is called in whatever order
(`navsInBounds_iff`).
-/

set_option autoImplicit false

namespace Aetherion.Ai

/-- The index that the entry is taken at. -/
def navIndex (histCount : ℕ) (dir : Int32) (index : ℕ) : ℕ :=
  if dir = 1 then  -- up
    if index > 0 then index - 1 else index
  else if dir = -1 then  -- down
    if index < histCount - 1 then index + 1 else index
  else index

/-- `ia_history_nav`, with the index that it leaves. -/
def iaHistoryNav (fuel history : ℕ) (s : History) (dir : Int32) (buffer index : ℕ) :
    Option (History × ℕ) :=
  if s.histCount = 0 then some (s, index)
  else
    let index := navIndex s.histCount dir index
    (strcpy fuel s.mem buffer (row history index)).map fun m ↦ ({ s with mem := m }, index)

/-! ## Runs -/

/-- A buffer of the caller's, as large as a row. -/
structure Buffer (history : ℕ) where
  /-- Where it is. -/
  addr : ℕ
  apart : addr + rowSize ≤ history ∨ history + rowSize * histSize ≤ addr

/-- A call of one of the three functions. -/
inductive Call (history : ℕ) where
  | execute (cmd : Command history) (scanned : Scanned)
  | add (cmd : Command history)
  | nav (dir : Int32) (buffer : Buffer history)

/-- The command that a call puts into the history. -/
def Call.command {history : ℕ} : Call history → Option (Command history)
  | .execute cmd _ | .add cmd => some cmd
  | .nav _ _ => none

/-- The assistant, and the index that its caller keeps. -/
structure Session where
  assistant : Assistant
  /-- From the first call of `ia_history_nav` on. -/
  index : Option ℕ

section
variable (fuel : ℕ) {history : ℕ}

/-- The index that a call of `ia_history_nav` starts from. -/
def Session.start (s : Session) : ℕ := s.index.getD s.assistant.hist.histIndex

def Session.call (s : Session) : Call history → Option Session
  | .execute cmd scanned =>
    (iaExecuteCommand fuel { s.assistant with hist := cmd.place s.assistant.hist } cmd scanned).map
      fun a ↦ { s with assistant := a }
  | .add cmd =>
    (addHistory fuel history (cmd.place s.assistant.hist) cmd.addr).map fun hist ↦
      { s with assistant := { s.assistant with hist := hist } }
  | .nav dir buffer =>
    (iaHistoryNav fuel history s.assistant.hist dir buffer.addr s.start).map fun r ↦
      ⟨{ s.assistant with hist := r.1 }, some r.2⟩

/-- After some calls, from the start of the kernel on. -/
def afterCalls (m : Ram) (calls : List (Call history)) : Option Session :=
  calls.foldlM (Session.call fuel) ⟨.initial m, none⟩

/-- **The call copies an entry**: the index is that of a row in use, the string there is one of the
commands, and this string is in the buffer then. -/
def CopiesEntry (s : Session) (cmds : List (Command history)) (dir : Int32)
    (buffer : Buffer history) : Prop :=
  ∃ s' i c, s.call fuel (.nav dir buffer) = some s' ∧ s'.index = some i ∧
    i < s.assistant.hist.histCount ∧ c ∈ cmds ∧
    s.assistant.hist.mem.StringAt (row history i) c.text ∧
    s'.assistant.hist.mem.StringAt buffer.addr c.text

/-- Every call of `ia_history_nav` on a history with entries does. -/
def NavsInBounds (m : Ram) (calls : List (Call history)) : Prop :=
  ∀ pre dir buffer, pre ++ [.nav dir buffer] <+: calls → ∃ s,
    afterCalls fuel m pre = some s ∧
      (s.assistant.hist.histCount ≠ 0 →
        CopiesEntry fuel s (pre.filterMap Call.command) dir buffer)

end

/-- **If the first call of `ia_history_nav` comes after a command, it goes up.** -/
def FirstNavUp {history : ℕ} (calls : List (Call history)) : Prop :=
  ∀ pre dir buffer, pre ++ [.nav dir buffer] <+: calls → (∀ c ∈ pre, c.command ≠ none) → pre ≠ [] →
    dir = 1

/-! ## The index -/

/-- A move inside stays inside. -/
theorem navIndex_lt {count index : ℕ} (h : index < count) (dir : Int32) :
    navIndex count dir index < count := by
  rw [navIndex]
  split_ifs <;> omega

/-- From one past the last entry only a move up gets inside. -/
theorem navIndex_count_lt_iff {count : ℕ} (h : count ≠ 0) (dir : Int32) :
    navIndex count dir count < count ↔ dir = 1 := by
  rw [navIndex]
  by_cases hup : dir = 1
  · rw [if_pos hup, if_pos (show count > 0 by omega)]
    exact iff_of_true (by omega) hup
  · rw [if_neg hup, if_neg (show ¬count < count - 1 by omega), ite_self]
    exact iff_of_false (Nat.lt_irrefl _) hup

/-! ## The invariant -/

section
variable {fuel history : ℕ} {pre : List (Call history)}
  {cmds : List (Command history)}

/-- **Copying an entry to a buffer** leaves the history as it is. -/
theorem History.Holds.copy {s : History} {texts : List (List UInt8)} (hfuel : rowSize ≤ fuel)
    (h : s.Holds history texts) (buffer : Buffer history) {i : ℕ} (hi : i < texts.length) :
    ∃ m', strcpy fuel s.mem buffer.addr (row history i) = some m' ∧
      m'.StringAt buffer.addr texts[i] ∧ History.Holds history { s with mem := m' } texts := by
  have hrow := h.rows i hi
  have hle := h.count_le
  have hshort := h.short _ (List.getElem_mem hi)
  have hapart := buffer.apart
  refine ⟨_, strcpy_eq hrow (by omega) ?_, Ram.stringAt_store _ _ hrow.no_zero,
    h.count, h.index, hle, h.short, fun j hj ↦ (h.rows j hj).store ?_⟩
  · simp only [row, rowSize, histSize] at *
    omega
  · have hshort' := h.short _ (List.getElem_mem hj)
    rw [List.length_append, List.length_singleton]
    simp only [row, rowSize, histSize] at *
    omega

/-- The commands of some calls, as far as the history keeps them. -/
def kept (calls : List (Call history)) : List (List UInt8) :=
  lastOf ((calls.filterMap Call.command).map Command.text)

theorem kept_command {c : Call history} {cmd : Command history} (hc : c.command = some cmd) :
    kept (pre ++ [c]) = lastOf (kept pre ++ [cmd.text]) := by
  rw [kept, kept, lastOf_lastOf, List.filterMap_append, List.map_append,
    List.filterMap_cons_some hc]
  rfl

theorem kept_nav {c : Call history} (hc : c.command = none) : kept (pre ++ [c]) = kept pre := by
  rw [kept, kept, List.filterMap_append, List.filterMap_cons_none hc, List.filterMap_nil,
    List.append_nil]

/-- There are never fewer of them. -/
theorem length_kept_le (pre : List (Call history)) (t : List UInt8) :
    (kept pre).length ≤ (lastOf (kept pre ++ [t])).length := by
  have hle : (kept pre).length ≤ histSize := by
    rw [kept, lastOf, List.length_drop]
    omega
  rw [lastOf, List.length_drop, List.length_append, List.length_singleton]
  omega

/-- **The invariant**, after some calls. -/
structure Session.Inv (s : Session) (pre : List (Call history)) : Prop where
  holds : s.assistant.hist.Holds history (kept pre)
  /-- The index is set by the first call of `ia_history_nav`. -/
  index_none : s.index = none ↔ ∀ c ∈ pre, c.command ≠ none
  /-- It is inside, or zero. -/
  index_lt : ∀ i ∈ s.index, i = 0 ∨ i < s.assistant.hist.histCount

variable {s : Session}

/-- **A command.** -/
theorem Session.Inv.command (hfuel : rowSize ≤ fuel) (h : s.Inv pre) {c : Call history}
    {cmd : Command history} (hc : c.command = some cmd) :
    ∃ s', s.call fuel c = some s' ∧ s'.Inv (pre ++ [c]) := by
  obtain ⟨hist, hadd, hholds⟩ := h.holds.add hfuel cmd
  -- both ways to give a command do the same to the history, and nothing to the index
  have hcall : ∃ s', s.call fuel c = some s' ∧ s'.assistant.hist = hist ∧
      s'.index = s.index := by
    cases c with
    | execute cmd' scanned =>
      obtain rfl := Option.some.inj hc
      have hexec := iaExecuteCommand_hist fuel
        { s.assistant with hist := cmd'.place s.assistant.hist } cmd' scanned
      rw [hadd] at hexec
      obtain ⟨a, ha, hhist⟩ := Option.map_eq_some_iff.mp hexec
      exact ⟨{ s with assistant := a }, by rw [Session.call, ha, Option.map_some], hhist, rfl⟩
    | add cmd' =>
      obtain rfl := Option.some.inj hc
      exact ⟨{ s with assistant := { s.assistant with hist := hist } },
        by rw [Session.call, hadd, Option.map_some], rfl, rfl⟩
    | nav dir buffer => cases hc
  obtain ⟨s', hs', hhist, hindex⟩ := hcall
  refine ⟨s', hs', ?_, ?_, ?_⟩
  · rw [hhist, kept_command hc]
    exact hholds
  · rw [hindex, h.index_none]
    simp [or_imp, forall_and, hc]
  · intro i hi
    rw [hindex] at hi
    have hle := length_kept_le pre cmd.text
    have hcount := h.holds.count
    have hcount' := hholds.count
    rw [hhist]
    exact (h.index_lt i hi).imp_right fun hlt ↦ by omega

/-- A move on no entries finds the index zero. -/
theorem Session.Inv.start_eq_zero (h : s.Inv pre) (hcount : s.assistant.hist.histCount = 0) :
    s.start = 0 := by
  rw [Session.start]
  cases hindex : s.index with
  | none =>
    rw [Option.getD_none, h.holds.index, ← h.holds.count, hcount]
  | some i =>
    have hi := h.index_lt i hindex
    rw [Option.getD_some]
    omega

/-- **A move on some entries** ends inside, if it goes up when it is the first one. -/
theorem Session.Inv.navIndex_lt (h : s.Inv pre) (hcount : s.assistant.hist.histCount ≠ 0)
    {dir : Int32} (hup : s.index = none → dir = 1) :
    navIndex s.assistant.hist.histCount dir s.start < s.assistant.hist.histCount := by
  rw [Session.start]
  cases hindex : s.index with
  | none =>
    rw [Option.getD_none, h.holds.index, ← h.holds.count]
    exact (navIndex_count_lt_iff hcount dir).mpr (hup hindex)
  | some i =>
    have hi := h.index_lt i hindex
    rw [Option.getD_some]
    exact Ai.navIndex_lt (by omega) dir

/-- **A move.** -/
theorem Session.Inv.nav (hfuel : rowSize ≤ fuel) (h : s.Inv pre) (dir : Int32)
    (buffer : Buffer history)
    (hup : s.index = none → s.assistant.hist.histCount ≠ 0 → dir = 1) :
    (∃ s', s.call fuel (.nav dir buffer) = some s' ∧ s'.Inv (pre ++ [.nav dir buffer])) ∧
      (s.assistant.hist.histCount ≠ 0 →
        CopiesEntry fuel s (pre.filterMap Call.command) dir buffer) := by
  have hnav : kept (pre ++ [Call.nav dir buffer]) = kept pre := kept_nav rfl
  have hset : ¬∀ c ∈ pre ++ [Call.nav dir buffer], c.command ≠ none := fun hall ↦
    hall (.nav dir buffer) (by simp) rfl
  by_cases hcount : s.assistant.hist.histCount = 0
  · -- nothing to copy, and the index is zero
    refine ⟨⟨⟨s.assistant, some 0⟩, ?_, ?_, iff_of_false (by simp) hset, by simp⟩,
      fun hne ↦ absurd hcount hne⟩
    · rw [Session.call, iaHistoryNav, if_pos hcount, h.start_eq_zero hcount, Option.map_some]
    · rw [hnav]
      exact h.holds
  · have hlt := h.navIndex_lt hcount fun hnone ↦ hup hnone hcount
    have hin : navIndex s.assistant.hist.histCount dir s.start < (kept pre).length := by
      rw [← h.holds.count]
      exact hlt
    obtain ⟨m', hm', hcopied, hholds⟩ := h.holds.copy hfuel buffer hin
    have hcall : s.call fuel (.nav dir buffer) =
        some ⟨{ s.assistant with hist := { s.assistant.hist with mem := m' } },
          some (navIndex s.assistant.hist.histCount dir s.start)⟩ := by
      rw [Session.call, iaHistoryNav, if_neg hcount]
      simp only [hm', Option.map_some]
    refine ⟨⟨_, hcall, ⟨by rw [hnav]; exact hholds, iff_of_false (by simp) hset, ?_⟩⟩, fun _ ↦ ?_⟩
    · intro i hi
      obtain rfl := Option.some.inj hi
      exact Or.inr hlt
    · obtain ⟨c, hc, htext⟩ := List.mem_map.mp (List.drop_subset _ _ (List.getElem_mem hin))
      refine ⟨_, _, c, hcall, rfl, hlt, hc, ?_, ?_⟩
      · rw [htext]
        exact h.holds.rows _ hin
      · rw [htext]
        exact hcopied

/-! ## Runs -/

theorem FirstNavUp.of_prefix {calls : List (Call history)} (h : FirstNavUp calls)
    (hpre : pre <+: calls) : FirstNavUp pre :=
  fun pre' dir buffer hpre' ↦ h pre' dir buffer (hpre'.trans hpre)

/-- The first move comes before any command, or goes up. -/
theorem Session.Inv.up {calls : List (Call history)} {dir : Int32} {buffer : Buffer history}
    (h : s.Inv pre) (hfirst : FirstNavUp calls) (hpre : pre ++ [.nav dir buffer] <+: calls)
    (hnone : s.index = none) (hcount : s.assistant.hist.histCount ≠ 0) : dir = 1 := by
  refine hfirst pre dir buffer hpre (h.index_none.mp hnone) ?_
  rintro rfl
  exact hcount h.holds.count

/-- **The run goes on, and keeps the invariant**, as long as the first move is right. -/
theorem inv_afterCalls (hfuel : rowSize ≤ fuel) (m : Ram) (h : FirstNavUp pre) :
    ∃ s, afterCalls fuel m pre = some s ∧ s.Inv pre := by
  induction pre using List.reverseRecOn with
  | nil => exact ⟨_, rfl, holds_initial history m, by simp, by simp⟩
  | append_singleton pre c ih =>
    obtain ⟨s, hs, hinv⟩ := ih (h.of_prefix (List.prefix_append ..))
    have hstep : ∃ s', s.call fuel c = some s' ∧ s'.Inv (pre ++ [c]) := by
      cases c with
      | execute cmd scanned => exact hinv.command hfuel rfl
      | add cmd => exact hinv.command hfuel rfl
      | nav dir buffer => exact (hinv.nav hfuel dir buffer (hinv.up h List.prefix_rfl)).1
    obtain ⟨s', hs', hinv'⟩ := hstep
    refine ⟨s', ?_, hinv'⟩
    rw [afterCalls] at hs
    rw [afterCalls, List.foldlM_append, hs]
    simpa using hs'

/-- After commands only, the index would be one past the last entry. -/
theorem Session.Inv.first (h : s.Inv pre) (hcmds : ∀ c ∈ pre, c.command ≠ none) (hne : pre ≠ []) :
    s.assistant.hist.histCount ≠ 0 ∧ s.start = s.assistant.hist.histCount := by
  refine ⟨?_, ?_⟩
  · intro hzero
    rw [h.holds.count, kept, lastOf, List.length_drop] at hzero
    have hlen : ((pre.filterMap Call.command).map Command.text).length = 0 := by
      simp only [histSize] at hzero
      omega
    have hnil := List.map_eq_nil_iff.mp (List.eq_nil_of_length_eq_zero hlen)
    obtain ⟨c, hc⟩ := List.exists_mem_of_ne_nil pre hne
    exact hcmds c hc (List.filterMap_eq_nil_iff.mp hnil c hc)
  · rw [Session.start, h.index_none.mpr hcmds, Option.getD_none, h.holds.index, h.holds.count]

/-- **The first move after a command** copies an entry only if it goes up. -/
theorem Session.Inv.dir_eq_one (h : s.Inv pre) (hcmds : ∀ c ∈ pre, c.command ≠ none)
    (hne : pre ≠ []) {dir : Int32} {buffer : Buffer history}
    (hcopies : s.assistant.hist.histCount ≠ 0 →
      CopiesEntry fuel s (pre.filterMap Call.command) dir buffer) : dir = 1 := by
  obtain ⟨hcount, hstart⟩ := h.first hcmds hne
  obtain ⟨s', i, c, hcall, hindex, hlt, -⟩ := hcopies hcount
  rw [Session.call, iaHistoryNav, if_neg hcount] at hcall
  obtain ⟨r, hr, rfl⟩ := Option.map_eq_some_iff.mp hcall
  obtain ⟨m', -, rfl⟩ := Option.map_eq_some_iff.mp hr
  obtain rfl := Option.some.inj hindex
  rw [hstart] at hlt
  exact (navIndex_count_lt_iff hcount dir).mp hlt

/-- If all moves copy entries, so does one that comes after commands only. -/
theorem NavsInBounds.dir_eq_one {m : Ram} {calls : List (Call history)} (hfuel : rowSize ≤ fuel)
    (h : NavsInBounds fuel m calls) {dir : Int32} {buffer : Buffer history}
    (hpre : pre ++ [.nav dir buffer] <+: calls) (hcmds : ∀ c ∈ pre, c.command ≠ none)
    (hne : pre ≠ []) : dir = 1 := by
  have hfirst : FirstNavUp pre := fun pre' dir' buffer' hpre' _ _ ↦
    absurd rfl (hcmds (.nav dir' buffer') (hpre'.subset (by simp)))
  obtain ⟨s, hs, hinv⟩ := inv_afterCalls hfuel m hfirst
  obtain ⟨s₁, hs₁, hcopies⟩ := h pre dir buffer hpre
  obtain rfl : s = s₁ := Option.some.inj (hs.symm.trans hs₁)
  exact hinv.dir_eq_one hcmds hne hcopies

end

/-- **Every move copies an entry exactly if** the first one goes up, unless it comes before any
command. -/
theorem navsInBounds_iff {fuel : ℕ} (hfuel : rowSize ≤ fuel) {history : ℕ} (m : Ram)
    (calls : List (Call history)) :
    NavsInBounds fuel m calls ↔ FirstNavUp calls := by
  constructor
  · intro h pre dir buffer hpre hcmds hne
    exact h.dir_eq_one hfuel hpre hcmds hne
  · intro h pre dir buffer hpre
    obtain ⟨s, hs, hinv⟩ := inv_afterCalls hfuel m
      (h.of_prefix ((List.prefix_append ..).trans hpre))
    exact ⟨s, hs, (hinv.nav hfuel dir buffer (hinv.up h hpre)).2⟩

/-- A buffer behind the rows, and behind the place of the command. -/
def exampleBuffer : Buffer 0 := ⟨704, .inr (by decide)⟩

/-- One command, a move up, and a move down. -/
theorem navsInBounds_up_down : NavsInBounds 64 (fun _ ↦ 0)
    [.add (letterCommand 0), .nav 1 exampleBuffer, .nav (-1) exampleBuffer] := by
  refine (navsInBounds_iff le_rfl _ _).mpr ?_
  intro pre dir buffer hpre hcmds hne
  cases pre with
  | nil => exact absurd rfl hne
  | cons c pre =>
    have hpre' := (List.cons_prefix_cons.mp hpre).2
    cases pre with
    | nil =>
      have hnav := (List.cons_prefix_cons.mp hpre').1
      injection hnav
    | cons c' pre =>
      obtain ⟨rfl, -⟩ := List.cons_prefix_cons.mp hpre'
      exact absurd rfl (hcmds (.nav 1 exampleBuffer) (by simp))

/-- One command and a move down: what is copied is the second row. -/
theorem move_down_past_last_entry :
    ¬∀ fuel, rowSize ≤ fuel → ∀ (history : ℕ) (m : Ram) (calls : List (Call history)),
      NavsInBounds fuel m calls := by
  intro h
  have hnavs := h 64 le_rfl 0 (fun _ ↦ 0)
    [.add (letterCommand 0), .nav (-1) exampleBuffer]
  have hpre : [Call.add (letterCommand 0)] ++ [.nav (-1) exampleBuffer] <+: _ := List.prefix_rfl
  have hdir := hnavs.dir_eq_one le_rfl hpre (by simp [Call.command]) (by simp)
  exact absurd hdir (by decide)

end Aetherion.Ai
