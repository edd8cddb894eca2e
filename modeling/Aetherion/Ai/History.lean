import Mathlib.Data.List.Induction
import Aetherion.Base.StringAt

/-!
# The history of commands

`add_history` of `kernel/ai.c` keeps the last ten commands in ten rows of 64 bytes.  While there is
room a command goes into the next row; after that every row takes the string of the row after it,
copied in place, and the last row the new command.

A copy ends at the terminator, so what an earlier and longer command has left behind it stays in
the row, and is no part of the string there (`Ram.StringAt`).  After any sequence of calls the rows
in use hold the last commands in the order in which they were given (`history_eq_last`).
-/

set_option autoImplicit false

namespace Aetherion.Ai

/-- `HIST_SIZE`. -/
abbrev histSize : ℕ := 10

/-- The size of a row. -/
abbrev rowSize : ℕ := 64

/-- `while ((*d++ = *src++));`, for at most so many characters. -/
def strcpy : ℕ → Ram → ℕ → ℕ → Option Ram
  | 0, _, _, _ => none
  | fuel + 1, m, dest, src =>
    if m src = 0 then some (m.store dest [m src])
    else strcpy fuel (m.store dest [m src]) (dest + 1) (src + 1)

/-- The statics of `ai.c`, with the memory that the rows are in. -/
structure History where
  mem : Ram
  /-- `hist_count`. -/
  histCount : ℕ
  /-- `hist_index`. -/
  histIndex : ℕ

/-- The address of `history[i]`. -/
def row (history i : ℕ) : ℕ := history + rowSize * i

/-- `for (i = 1; i < HIST_SIZE; i++) strcpy(history[i-1], history[i]);` -/
def shiftRows (fuel history : ℕ) (m : Ram) : Option Ram :=
  (List.range' 1 (histSize - 1)).foldlM
    (fun m i ↦ strcpy fuel m (row history (i - 1)) (row history i)) m

def addHistory (fuel history : ℕ) (s : History) (cmd : ℕ) : Option History :=
  if s.histCount < histSize then
    (strcpy fuel s.mem (row history s.histCount) cmd).map fun m ↦
      ⟨m, s.histCount + 1, s.histCount + 1⟩
  else
    ((shiftRows fuel history s.mem).bind fun m ↦
      strcpy fuel m (row history (histSize - 1)) cmd).map fun m ↦ ⟨m, s.histCount, s.histCount⟩

/-! ## Runs -/

/-- A command that a caller has in a place of its own.  (No header declares `history`.) -/
structure Command (history : ℕ) where
  /-- Where it is. -/
  addr : ℕ
  text : List UInt8
  no_zero : 0 ∉ text
  short : text.length < rowSize
  /-- It does not run into the rows. -/
  apart : addr + text.length < history ∨ history + rowSize * histSize ≤ addr

/-- The caller puts the command in its place. -/
def Command.place {history : ℕ} (c : Command history) (s : History) : History :=
  { s with mem := s.mem.store c.addr (c.text ++ [0]) }

/-- After some calls, from an empty history on. -/
def recorded (fuel history : ℕ) (m : Ram) (cmds : List (Command history)) : Option History :=
  cmds.foldlM (fun s c ↦ addHistory fuel history (c.place s) c.addr) ⟨m, 0, 0⟩

/-! ## Copies -/

section
variable {fuel : ℕ} {m : Ram} {s : List UInt8}

/-- **A copy to another place** is a store of the string. -/
theorem strcpy_eq {dest src : ℕ} (h : m.StringAt src s) (hfuel : s.length < fuel)
    (hapart : dest + s.length < src ∨ src + s.length < dest) :
    strcpy fuel m dest src = some (m.store dest (s ++ [0])) := by
  induction s generalizing fuel m dest src with
  | nil =>
    obtain ⟨fuel, rfl⟩ := Nat.exists_eq_add_one_of_ne_zero (Nat.ne_zero_of_lt hfuel)
    rw [strcpy, if_pos h.nil, h.nil]
    rfl
  | cons c s ih =>
    obtain ⟨fuel, rfl⟩ := Nat.exists_eq_add_one_of_ne_zero (Nat.ne_zero_of_lt hfuel)
    obtain ⟨hc, hne, hrest⟩ := h.cons
    rw [List.length_cons] at hfuel hapart
    have hrest' : (m.store dest [c]).StringAt (src + 1) s :=
      hrest.store (by rw [List.length_singleton]; omega)
    rw [strcpy, hc, if_neg hne, ih hrest' (by omega) (by omega),
      show dest + 1 = dest + [c].length from rfl, Ram.store_append]
    rfl

/-- **A copy into a row**: the string is there, and strings elsewhere stay. -/
theorem strcpy_row {src : ℕ} (h : m.StringAt src s) (hshort : s.length < rowSize)
    (hfuel : rowSize ≤ fuel) (history i : ℕ)
    (hapart : src + s.length < row history i ∨ row history i + rowSize ≤ src) :
    ∃ m', strcpy fuel m (row history i) src = some m' ∧ m'.StringAt (row history i) s ∧
      ∀ a t, m.StringAt a t → a + t.length < row history i ∨ row history i + rowSize ≤ a →
        m'.StringAt a t := by
  refine ⟨_, strcpy_eq h (by omega) (by omega), Ram.stringAt_store m _ h.no_zero, ?_⟩
  intro a t ht hat
  refine ht.store ?_
  rw [List.length_append, List.length_singleton]
  omega

/-! ## The shift -/

/-- **The rows take the strings of the rows after them**, one by one from the first on. -/
theorem shiftRows_eq (hfuel : rowSize ≤ fuel) (history : ℕ) (texts : ℕ → List UInt8)
    (hshort : ∀ i < histSize, (texts i).length < rowSize)
    (hrows : ∀ i < histSize, m.StringAt (row history i) (texts i)) :
    ∃ m', shiftRows fuel history m = some m' ∧
      (∀ i < histSize - 1, m'.StringAt (row history i) (texts (i + 1))) ∧
      ∀ a t, m.StringAt a t → a + t.length < history ∨ history + rowSize * histSize ≤ a →
        m'.StringAt a t := by
  simp only [rowSize, histSize] at *
  -- after `k` copies
  have hcopies (k : ℕ) (hk : k ≤ 9) : ∃ m',
      (List.range' 1 k).foldlM
        (fun m i ↦ strcpy fuel m (row history (i - 1)) (row history i)) m = some m' ∧
      (∀ i < 10, m'.StringAt (row history i) (if i < k then texts (i + 1) else texts i)) ∧
      ∀ a t, m.StringAt a t → a + t.length < history ∨ history + 64 * 10 ≤ a →
        m'.StringAt a t := by
    induction k with
    | zero => exact ⟨m, rfl, fun i hi ↦ by simpa using hrows i hi, fun a t ht _ ↦ ht⟩
    | succ k ih =>
      obtain ⟨m₁, hm₁, hrows₁, houtside₁⟩ := ih (by omega)
      have hsrc := hrows₁ (k + 1) (by omega)
      rw [if_neg (by omega)] at hsrc
      have hlen := hshort (k + 1) (by omega)
      obtain ⟨m₂, hm₂, hrow, hkeep⟩ := strcpy_row hsrc hlen hfuel history k
        (by simp only [row, rowSize]; omega)
      refine ⟨m₂, ?_, fun i hi ↦ ?_, fun a t ht hat ↦ ?_⟩
      · rw [List.range'_concat, List.foldlM_append, hm₁]
        simpa [Nat.add_comm] using hm₂
      · by_cases hik : i = k
        · rw [hik, if_pos (by omega)]
          exact hrow
        · have hi₁ := hrows₁ i hi
          have hlen₁ : (if i < k then texts (i + 1) else texts i).length < 64 := by
            split
            · exact hshort _ (by omega)
            · exact hshort _ hi
          rw [if_congr (show i < k + 1 ↔ i < k by omega) rfl rfl]
          exact hkeep _ _ hi₁ (by simp only [row, rowSize]; omega)
      · exact hkeep a t (houtside₁ a t ht hat) (by simp only [row, rowSize]; omega)
  obtain ⟨m', hm', hrows', houtside⟩ := hcopies 9 le_rfl
  refine ⟨m', hm', fun i hi ↦ ?_, houtside⟩
  have hrow := hrows' i (by omega)
  rwa [if_pos hi] at hrow

end

/-! ## The invariant -/

/-- The last commands of some. -/
def lastOf (texts : List (List UInt8)) : List (List UInt8) := texts.drop (texts.length - histSize)

/-- **The rows in use hold these commands**, in this order. -/
structure History.Holds (history : ℕ) (s : History) (texts : List (List UInt8)) : Prop where
  count : s.histCount = texts.length
  index : s.histIndex = texts.length
  count_le : texts.length ≤ histSize
  short : ∀ t ∈ texts, t.length < rowSize
  rows : ∀ i (hi : i < texts.length), s.mem.StringAt (row history i) texts[i]

theorem holds_initial (history : ℕ) (m : Ram) : History.Holds history ⟨m, 0, 0⟩ [] where
  count := rfl
  index := rfl
  count_le := Nat.zero_le _
  short _ ht := nomatch ht
  rows _ hi := absurd hi (Nat.not_lt_zero _)

variable {fuel history : ℕ} {s : History} {texts : List (List UInt8)}

/-- Putting a command in its place does not touch the rows, and there it is. -/
theorem History.Holds.place (h : s.Holds history texts) (c : Command history) :
    (c.place s).Holds history texts ∧ (c.place s).mem.StringAt c.addr c.text := by
  refine ⟨⟨h.count, h.index, h.count_le, h.short, fun i hi ↦ (h.rows i hi).store ?_⟩,
    Ram.stringAt_store _ _ c.no_zero⟩
  have hapart := c.apart
  have hle := h.count_le
  have hshort := h.short _ (List.getElem_mem hi)
  rw [List.length_append, List.length_singleton]
  simp only [row, rowSize, histSize] at *
  omega

theorem length_lt_of_mem_lastOf (h : s.Holds history texts) (c : Command history) :
    ∀ t ∈ lastOf (texts ++ [c.text]), t.length < rowSize := by
  intro t ht
  rcases List.mem_append.mp (List.drop_subset _ _ ht) with ht | ht
  · exact h.short t ht
  · rw [List.mem_singleton.mp ht]
    exact c.short

/-- **With room**, the command goes into the next row. -/
theorem History.Holds.add_room (hfuel : rowSize ≤ fuel) (h : s.Holds history texts)
    (c : Command history) (hcmd : s.mem.StringAt c.addr c.text) (hroom : s.histCount < histSize) :
    ∃ s', addHistory fuel history s c.addr = some s' ∧
      s'.Holds history (lastOf (texts ++ [c.text])) := by
  have hcount := h.count
  have hapart := c.apart
  have hshort := length_lt_of_mem_lastOf h c
  have hlast : lastOf (texts ++ [c.text]) = texts ++ [c.text] := by
    rw [lastOf, List.length_append, List.length_singleton, Nat.sub_eq_zero_of_le (by omega),
      List.drop_zero]
  rw [hlast] at hshort ⊢
  obtain ⟨m, hm, hrow, hkeep⟩ := strcpy_row hcmd c.short hfuel history texts.length
    (by simp only [row, rowSize, histSize] at *; omega)
  rw [addHistory, if_pos hroom, hcount, hm]
  refine ⟨_, rfl, ⟨by simp, by simp, by simp only [histSize] at *; simp; omega, hshort, ?_⟩⟩
  intro i hi
  rw [List.length_append, List.length_singleton] at hi
  rcases Nat.lt_succ_iff_lt_or_eq.mp hi with hlt | rfl
  · rw [List.getElem_append_left hlt]
    have hlen := h.short _ (List.getElem_mem hlt)
    exact hkeep _ _ (h.rows i hlt) (by simp only [row, rowSize] at *; omega)
  · rw [List.getElem_concat_length rfl]
    exact hrow

/-- **Without**, the rows are shifted first. -/
theorem History.Holds.add_full (hfuel : rowSize ≤ fuel) (h : s.Holds history texts)
    (c : Command history) (hcmd : s.mem.StringAt c.addr c.text) (hfull : s.histCount = histSize) :
    ∃ s', addHistory fuel history s c.addr = some s' ∧
      s'.Holds history (lastOf (texts ++ [c.text])) := by
  have hlen : texts.length = 10 := h.count.symm.trans hfull
  have hapart := c.apart
  have hshort := length_lt_of_mem_lastOf h c
  have hlast : lastOf (texts ++ [c.text]) = (texts ++ [c.text]).drop 1 := by
    rw [lastOf, List.length_append, hlen]
    rfl
  rw [hlast] at hshort ⊢
  have hget (i : ℕ) (hi : i < 10) : texts.getD i [] = texts[i] := by
    rw [List.getD_eq_getElem?_getD, List.getElem?_eq_getElem (by omega), Option.getD_some]
  obtain ⟨m₁, hm₁, hrows₁, houtside₁⟩ := shiftRows_eq (m := s.mem)
    hfuel history (fun i ↦ texts.getD i [])
    (fun i hi ↦ by rw [hget i hi]; exact h.short _ (List.getElem_mem _))
    (fun i hi ↦ by rw [hget i hi]; exact h.rows i _)
  obtain ⟨m₂, hm₂, hrow, hkeep⟩ := strcpy_row (houtside₁ _ _ hcmd hapart) c.short hfuel
    history 9 (by simp only [row, rowSize, histSize] at *; omega)
  rw [addHistory, if_neg (by omega), hm₁, Option.bind_some, show histSize - 1 = 9 from rfl, hm₂]
  refine ⟨_, rfl, ⟨by simp [hfull, hlen], by simp [hfull, hlen], by simp [hlen], hshort, ?_⟩⟩
  intro i hi
  rw [List.length_drop, List.length_append, hlen, List.length_singleton] at hi
  rw [List.getElem_drop]
  by_cases hi9 : i = 9
  · subst hi9
    rw [List.getElem_append_right (by omega)]
    simpa [hlen] using hrow
  · have hold := hrows₁ i (show i < 9 by omega)
    have hlt := h.short _ (List.getElem_mem (show 1 + i < texts.length by omega))
    rw [hget _ (by omega)] at hold
    rw [List.getElem_append_left (by omega)]
    simp only [Nat.add_comm i 1] at hold
    exact hkeep _ _ hold (by simp only [row, rowSize] at *; omega)

/-- **One call** adds the command behind the others, and drops the first of them when there is no
room. -/
theorem History.Holds.add (hfuel : rowSize ≤ fuel) (h : s.Holds history texts)
    (c : Command history) :
    ∃ s', addHistory fuel history (c.place s) c.addr = some s' ∧
      s'.Holds history (lastOf (texts ++ [c.text])) := by
  obtain ⟨hplaced, hcmd⟩ := h.place c
  have hle := hplaced.count_le
  rw [← hplaced.count] at hle
  rcases Nat.lt_or_eq_of_le hle with hroom | hfull
  · exact hplaced.add_room hfuel c hcmd hroom
  · exact hplaced.add_full hfuel c hcmd hfull

/-! ## Runs of calls -/

theorem lastOf_lastOf (texts : List (List UInt8)) (t : List UInt8) :
    lastOf (lastOf texts ++ [t]) = lastOf (texts ++ [t]) := by
  simp only [lastOf]
  rw [← List.drop_append_of_le_length (by omega), List.drop_drop]
  congr 1
  simp only [List.length_append, List.length_drop, List.length_singleton, histSize]
  omega

/-- **The rows hold the last commands** after every sequence of calls. -/
theorem holds_recorded (hfuel : rowSize ≤ fuel) (history : ℕ) (m : Ram)
    (cmds : List (Command history)) : ∃ s, recorded fuel history m cmds = some s ∧
      s.Holds history (lastOf (cmds.map Command.text)) := by
  induction cmds using List.reverseRecOn with
  | nil => exact ⟨_, rfl, holds_initial history m⟩
  | append_singleton cmds c ih =>
    obtain ⟨s, hs, hholds⟩ := ih
    obtain ⟨s', hs', hholds'⟩ := hholds.add hfuel c
    refine ⟨s', ?_, ?_⟩
    · rw [recorded] at hs
      rw [recorded, List.foldlM_append, hs]
      simpa using hs'
    · rwa [List.map_append, List.map_singleton, ← lastOf_lastOf]

/-- **The history after `n` calls** has `min n 10` entries, and they are the last commands given,
in their order. -/
theorem history_eq_last (hfuel : rowSize ≤ fuel) (history : ℕ) (m : Ram)
    (cmds : List (Command history)) :
    ∃ s, recorded fuel history m cmds = some s ∧ s.histCount = min cmds.length histSize ∧
      ∀ i < s.histCount, ∃ c, cmds[cmds.length - s.histCount + i]? = some c ∧
        s.mem.StringAt (row history i) c.text := by
  obtain ⟨s, hs, hholds⟩ := holds_recorded hfuel history m cmds
  have hcount := hholds.count
  rw [lastOf, List.length_drop, List.length_map] at hcount
  refine ⟨s, hs, by omega, fun i hi ↦ ?_⟩
  have hlt : i < (lastOf (cmds.map Command.text)).length := by rw [← hholds.count]; exact hi
  have hrow := hholds.rows i hlt
  have hfirst : cmds.length - s.histCount = cmds.length - histSize := by omega
  have hin : cmds.length - histSize + i < cmds.length := by omega
  simp only [lastOf, List.getElem_drop, List.getElem_map, List.length_map] at hrow
  rw [hfirst]
  exact ⟨_, List.getElem?_eq_getElem hin, hrow⟩

theorem letter_ne_zero : ∀ k : Fin 26, 0 ∉ [UInt8.ofNat (97 + k)] := by decide

theorem length_letter (c : UInt8) : [c].length < rowSize := Nat.one_lt_ofNat

/-- A command of one letter, kept right behind the rows. -/
def letterCommand (k : Fin 26) : Command 0 where
  addr := 640
  text := [.ofNat (97 + k)]
  no_zero := letter_ne_zero k
  short := length_letter _
  apart := .inr (Nat.le_of_eq rfl)

/-- `a` to `k`. -/
def letters : List (Command 0) := [0, 1, 2, 3, 4, 5, 6, 7, 8, 9, 10].map letterCommand

/-- After these eleven the first one is gone. -/
theorem history_eq_last_letters : ∃ s, recorded 64 0 (fun _ ↦ 0) letters = some s ∧
    s.histCount = 10 ∧ s.mem.StringAt 0 [98] := by
  obtain ⟨s, hs, hcount, hrows⟩ := history_eq_last le_rfl 0 (fun _ ↦ 0) letters
  change s.histCount = 10 at hcount
  obtain ⟨c, hc, hrow⟩ := hrows 0 (by omega)
  rw [hcount] at hc
  obtain rfl : letterCommand 1 = c := Option.some.inj hc
  exact ⟨s, hs, hcount, hrow⟩

end Aetherion.Ai
