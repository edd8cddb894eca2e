import Aetherion.Base.Peripheral
import Aetherion.Base.StringAt
import Aetherion.Shell.CString

/-!
# The order of strings

`strcmp` and `strncmp` of `kernel/string.c` as they are: two pointers that move on together, a
comparison of the signed characters, and at the end the difference of the unsigned ones.  They load
from the two strings up to the place where they stop, and nowhere else, and compute `CString.strcmp`
and `CString.strncmp` of what is there (`loadsOnly_strcmp`, `loadsOnly_strncmp`).

Two characters are equal as signed ones exactly if they are as unsigned ones.  So the sign of the
result is that of the lexicographic order of the bytes, and of the first `n` of them
(`strcmp_order`).
-/

set_option autoImplicit false

namespace Aetherion.CString

open Driver Driver.Prog

/-! ## Memory that counts what is loaded -/

/-- Loads of a byte. -/
abbrev loads : Iface where
  Out := Empty
  In := ℕ
  Reply _ := UInt8

/-- Memory, and the addresses that have been loaded from. -/
def logged (m : Ram) : Peripheral loads (List ℕ) where
  reply _ a := m a
  step log e :=
    match e with
    | .inp a _ => log ++ [a]
    | .out o => nomatch o

/-- `*a`. -/
def load (a : ℕ) : Prog loads UInt8 := ask (F := loads) a

/-! ## The code -/

namespace InMemory

/-- `*s1 && (*s1 == *s2)`.  `char` is signed. -/
def goesOn (s1 s2 : ℕ) : Prog loads Bool := do
  let c ← load s1
  if c.toInt8 = 0 then pure false
  else do
    let c ← load s1
    let d ← load s2
    pure (decide (c.toInt8 = d.toInt8))

/-- `*(unsigned char*)s1 - *(unsigned char*)s2`. -/
def difference (s1 s2 : ℕ) : Prog loads ℤ := do
  let c ← load s1
  let d ← load s2
  pure ((c.toNat : ℤ) - d.toNat)

/-- `strcmp`, for at most so many characters. -/
def strcmp : ℕ → ℕ → ℕ → Prog loads (Option ℤ)
  | 0, _, _ => pure none
  | fuel + 1, s1, s2 => do
    if ← goesOn s1 s2 then strcmp fuel (s1 + 1) (s2 + 1)
    else do
      let r ← difference s1 s2
      pure (some r)

def strncmp : ℕ → ℕ → ℕ → Prog loads ℤ
  | _, _, 0 => pure 0
  | s1, s2, n + 1 => do
    if ← goesOn s1 s2 then strncmp (s1 + 1) (s2 + 1) n
    else difference s1 s2

end InMemory

/-! ## What a program loads -/

/-- The program ends with `v`, and loads from such addresses only. -/
def LoadsOnly {α : Type} (m : Ram) (P : ℕ → Prop) (p : Prog loads α) (v : α) : Prop :=
  ∀ s₀ log, ∃ log', (logged m).Runs s₀ p log v (log ++ log') ∧ ∀ x ∈ log', P x

section
variable {α β : Type} {m : Ram} {P Q : ℕ → Prop}

theorem loadsOnly_pure (v : α) : LoadsOnly m P (pure v) v := fun _ log ↦
  ⟨[], by rw [List.append_nil]; exact Peripheral.runs_pure v, nofun⟩

theorem loadsOnly_load {a : ℕ} (ha : P a) : LoadsOnly m P (load a) (m a) := fun _ _ ↦
  ⟨[a], Peripheral.runs_ask (F := loads) a, by simpa using ha⟩

theorem LoadsOnly.bind {p : Prog loads α} {f : α → Prog loads β} {v : α} {w : β}
    (hp : LoadsOnly m P p v) (hf : LoadsOnly m P (f v) w) : LoadsOnly m P (p >>= f) w := by
  intro s₀ log
  obtain ⟨log₁, hrun₁, hlog₁⟩ := hp s₀ log
  obtain ⟨log₂, hrun₂, hlog₂⟩ := hf s₀ (log ++ log₁)
  refine ⟨log₁ ++ log₂, ?_, fun x hx ↦ ?_⟩
  · rw [← List.append_assoc]
    exact hrun₁.bind hrun₂
  · exact (List.mem_append.mp hx).elim (hlog₁ x) (hlog₂ x)

theorem LoadsOnly.mono {p : Prog loads α} {v : α} (hp : LoadsOnly m P p v)
    (hPQ : ∀ x, P x → Q x) : LoadsOnly m Q p v := by
  intro s₀ log
  obtain ⟨log', hrun, hlog⟩ := hp s₀ log
  exact ⟨log', hrun, fun x hx ↦ hPQ x (hlog x hx)⟩

end

/-! ## One place of the two strings -/

theorem toInt8_inj {c d : UInt8} : c.toInt8 = d.toInt8 ↔ c = d := by
  refine ⟨fun h ↦ ?_, congrArg UInt8.toInt8⟩
  rw [← UInt8.toUInt8_toInt8 c, h, UInt8.toUInt8_toInt8]

theorem toInt8_eq_zero {c : UInt8} : c.toInt8 = 0 ↔ c = 0 := toInt8_inj (d := 0)

section
variable {m : Ram} {a b : ℕ}

/-- The loop goes on if the characters are the same and there are some. -/
theorem loadsOnly_goesOn {P : ℕ → Prop} (ha : P a) (hb : P b) :
    LoadsOnly m P (InMemory.goesOn a b) (decide (m a ≠ 0 ∧ m a = m b)) := by
  refine (loadsOnly_load ha).bind ?_
  by_cases hzero : m a = 0
  · rw [if_pos (toInt8_eq_zero.mpr hzero), decide_eq_false (fun h ↦ h.1 hzero)]
    exact loadsOnly_pure false
  · have hsame : decide (m a ≠ 0 ∧ m a = m b) = decide ((m a).toInt8 = (m b).toInt8) :=
      decide_eq_decide.mpr ((and_iff_right hzero).trans toInt8_inj.symm)
    rw [if_neg (mt toInt8_eq_zero.mp hzero), hsame]
    refine (loadsOnly_load ha).bind ((loadsOnly_load hb).bind ?_)
    exact loadsOnly_pure _

theorem loadsOnly_difference {P : ℕ → Prop} (ha : P a) (hb : P b) :
    LoadsOnly m P (InMemory.difference a b) ((m a).toNat - (m b).toNat) :=
  (loadsOnly_load ha).bind ((loadsOnly_load hb).bind (loadsOnly_pure _))

end

/-- Some of the places of two strings. -/
def At (a b : ℕ) (I : ℕ → Prop) (x : ℕ) : Prop := ∃ i, I i ∧ (x = a + i ∨ x = b + i)

/-- Up to where one of the strings ends. -/
def Shared (s t : List UInt8) (i : ℕ) : Prop := i ≤ s.length ∧ i ≤ t.length

/-- The comparison stops at the first characters of the strings. -/
structure StopsAt (s t : List UInt8) : Prop where
  stop : ¬(deref s ≠ 0 ∧ deref s = deref t)
  strcmp : strcmp s t = (deref s).toNat - (deref t).toNat
  strncmp : ∀ n, strncmp s t (n + 1) = (deref s).toNat - (deref t).toNat

/-- **Either the strings begin with the same character, or the comparison stops.** -/
theorem cons_or_stopsAt (s t : List UInt8) :
    (∃ c s' t', s = c :: s' ∧ t = c :: t') ∨ StopsAt s t := by
  cases s with
  | nil => exact .inr ⟨fun h ↦ h.1 rfl, by cases t <;> rfl, fun n ↦ by cases t <;> rfl⟩
  | cons c s =>
    cases t with
    | nil => exact .inr ⟨fun h ↦ h.1 h.2, rfl, fun _ ↦ rfl⟩
    | cons d t =>
      by_cases hcd : c = d
      · exact .inl ⟨c, s, t, rfl, by rw [hcd]⟩
      · exact .inr ⟨fun h ↦ hcd h.2, if_neg hcd, fun _ ↦ if_neg hcd⟩

section
variable {m : Ram} {a b : ℕ} {s t : List UInt8}

theorem deref_eq (h : m.StringAt a s) : m a = deref s := by
  cases s with
  | nil => exact h.nil
  | cons c s => exact h.cons.1

/-- The places behind the first one. -/
theorem At.succ {I J : ℕ → Prop} (hIJ : ∀ i, I i → J (i + 1)) {x : ℕ}
    (h : At (a + 1) (b + 1) I x) : At a b J x := by
  obtain ⟨i, hi, hx⟩ := h
  exact ⟨i + 1, hIJ i hi, by omega⟩

/-- **One place of the strings.**  The loop goes on behind it, or the comparison stops there. -/
theorem loadsOnly_place {α : Type} {P : ℕ → Prop} {next stop : Prog loads α} {v : α}
    (hs : m.StringAt a s) (ht : m.StringAt b t) (ha : P a) (hb : P b)
    (hnext : ∀ c s' t', s = c :: s' → t = c :: t' → m.StringAt (a + 1) s' →
      m.StringAt (b + 1) t' → LoadsOnly m P next v)
    (hstop : StopsAt s t → LoadsOnly m P stop v) :
    LoadsOnly m P (do if ← InMemory.goesOn a b then next else stop) v := by
  refine (loadsOnly_goesOn ha hb).bind ?_
  rw [deref_eq hs, deref_eq ht]
  rcases cons_or_stopsAt s t with ⟨c, s', t', rfl, rfl⟩ | hstops
  · obtain ⟨-, hne, hs'⟩ := hs.cons
    obtain ⟨-, -, ht'⟩ := ht.cons
    rw [decide_eq_true ⟨hne, rfl⟩, if_pos rfl]
    exact hnext c s' t' rfl rfl hs' ht'
  · rw [decide_eq_false hstops.stop, if_neg Bool.false_ne_true]
    exact hstop hstops

/-- **`strcmp` of two strings in memory** is `CString.strcmp` of them, and loads nothing behind the
first terminator. -/
theorem loadsOnly_strcmp {fuel : ℕ} (hs : m.StringAt a s) (ht : m.StringAt b t)
    (hfuel : s.length < fuel) :
    LoadsOnly m (At a b (Shared s t)) (InMemory.strcmp fuel a b) (some (strcmp s t)) := by
  induction fuel generalizing a b s t with
  | zero => exact absurd hfuel (Nat.not_lt_zero _)
  | succ fuel ih =>
    have hfirst : At a b (Shared s t) a := ⟨0, ⟨Nat.zero_le _, Nat.zero_le _⟩, .inl rfl⟩
    have hsecond : At a b (Shared s t) b := ⟨0, ⟨Nat.zero_le _, Nat.zero_le _⟩, .inr rfl⟩
    refine loadsOnly_place hs ht hfirst hsecond ?_ fun hstops ↦ ?_
    · rintro c s' t' rfl rfl hs' ht'
      rw [strcmp, if_pos rfl]
      refine (ih hs' ht' (Nat.lt_of_succ_lt_succ hfuel)).mono fun x hx ↦ hx.succ fun i hi ↦ ?_
      exact ⟨Nat.succ_le_succ hi.1, Nat.succ_le_succ hi.2⟩
    · rw [hstops.strcmp, ← deref_eq hs, ← deref_eq ht]
      exact (loadsOnly_difference hfirst hsecond).bind (loadsOnly_pure _)

/-- **`strncmp` of two strings in memory** is `CString.strncmp` of them, and loads only `n` bytes of
each. -/
theorem loadsOnly_strncmp (hs : m.StringAt a s) (ht : m.StringAt b t) (n : ℕ) :
    LoadsOnly m (At a b fun i ↦ i < n ∧ Shared s t i) (InMemory.strncmp a b n)
      (strncmp s t n) := by
  induction n generalizing a b s t with
  | zero =>
    rw [strncmp]
    exact loadsOnly_pure 0
  | succ n ih =>
    have hzero : 0 < n + 1 ∧ Shared s t 0 := ⟨Nat.succ_pos n, Nat.zero_le _, Nat.zero_le _⟩
    have hfirst : At a b (fun i ↦ i < n + 1 ∧ Shared s t i) a := ⟨0, hzero, .inl rfl⟩
    have hsecond : At a b (fun i ↦ i < n + 1 ∧ Shared s t i) b := ⟨0, hzero, .inr rfl⟩
    refine loadsOnly_place hs ht hfirst hsecond ?_ fun hstops ↦ ?_
    · rintro c s' t' rfl rfl hs' ht'
      rw [strncmp, if_pos rfl]
      refine (ih hs' ht').mono fun x hx ↦ hx.succ fun i hi ↦ ?_
      exact ⟨Nat.succ_lt_succ hi.1, Nat.succ_le_succ hi.2.1, Nat.succ_le_succ hi.2.2⟩
    · rw [hstops.strncmp, ← deref_eq hs, ← deref_eq ht]
      exact loadsOnly_difference hfirst hsecond

end

/-! ## The order -/

/-- **The number has the sign of the order** of two strings, byte by byte. -/
structure SignOfOrder (r : ℤ) (s t : List UInt8) : Prop where
  neg : r < 0 ↔ s < t
  zero : r = 0 ↔ s = t
  pos : 0 < r ↔ t < s

section
variable {s t u : List UInt8}

/-- The other way round, the result is the opposite. -/
theorem strcmp_swap (s t : List UInt8) : strcmp t s = -strcmp s t := by
  induction s generalizing t with
  | nil => cases t <;> exact (Int.neg_sub _ _).symm
  | cons c s ih =>
    cases t with
    | nil => exact (Int.neg_sub _ _).symm
    | cons d t =>
      rw [strcmp, strcmp]
      by_cases hcd : c = d
      · rw [if_pos hcd, if_pos hcd.symm, ih]
      · rw [if_neg hcd, if_neg (Ne.symm hcd), Int.neg_sub]

theorem strcmp_lt_zero_iff (hs : 0 ∉ s) (ht : 0 ∉ t) : strcmp s t < 0 ↔ s < t := by
  induction s generalizing t with
  | nil =>
    cases t with
    | nil => exact iff_of_false (by decide) (List.not_lt_nil [])
    | cons d t =>
      have hd := ne_terminator ht
      exact iff_of_true (by change ((0 : ℕ) : ℤ) - d.toNat < 0; omega) (List.nil_lt_cons d t)
  | cons c s ih =>
    cases t with
    | nil => exact iff_of_false (by change ¬(c.toNat : ℤ) - (0 : ℕ) < 0; omega) (List.not_lt_nil _)
    | cons d t =>
      rw [strcmp, List.cons_lt_cons_iff, UInt8.lt_iff_toNat_lt]
      by_cases hcd : c = d
      · rw [if_pos hcd, ih (fun h ↦ hs (List.mem_cons_of_mem _ h))
          fun h ↦ ht (List.mem_cons_of_mem _ h)]
        subst hcd
        simp
      · rw [if_neg hcd]
        simp only [hcd, false_and, or_false]
        omega

/-- **`strcmp` is the lexicographic order of the bytes.** -/
theorem signOfOrder_strcmp (hs : 0 ∉ s) (ht : 0 ∉ t) : SignOfOrder (strcmp s t) s t where
  neg := strcmp_lt_zero_iff hs ht
  zero := strcmp_eq_zero_iff hs ht
  pos := by
    rw [← strcmp_lt_zero_iff ht hs, strcmp_swap s t]
    omega

theorem SignOfOrder.nonpos {r : ℤ} (h : SignOfOrder r s t) : r ≤ 0 ↔ s ≤ t := by
  rw [← Int.not_lt, h.pos, List.not_lt]

/-- **`strncmp` is `strcmp` of the first `n` bytes.** -/
theorem strncmp_eq (s t : List UInt8) (n : ℕ) : strncmp s t n = strcmp (s.take n) (t.take n) := by
  induction n generalizing s t with
  | zero =>
    rw [strncmp, List.take_zero, List.take_zero]
    rfl
  | succ n ih =>
    cases s with
    | nil => cases t <;> rfl
    | cons c s =>
      cases t with
      | nil => rfl
      | cons d t => rw [List.take_succ_cons, List.take_succ_cons, strncmp, strcmp, ih]

end

/-- **The sign of `strcmp` is the lexicographic order of the bytes** of two strings in memory, and
that of `strncmp` the order of their first `n` bytes.  Nothing is loaded that lies behind the first
terminator, or behind the first `n` bytes. -/
theorem strcmp_order {m : Ram} {a b : ℕ} {s t : List UInt8} (hs : m.StringAt a s)
    (ht : m.StringAt b t) :
    (∀ fuel, s.length < fuel →
      LoadsOnly m (At a b (Shared s t)) (InMemory.strcmp fuel a b) (some (strcmp s t))) ∧
    SignOfOrder (strcmp s t) s t ∧ strcmp t s = -strcmp s t ∧
    (∀ u, 0 ∉ u → strcmp s t ≤ 0 → strcmp t u ≤ 0 → strcmp s u ≤ 0) ∧
    ∀ n, LoadsOnly m (At a b fun i ↦ i < n ∧ Shared s t i) (InMemory.strncmp a b n)
        (strncmp s t n) ∧
      strncmp s t n = strcmp (s.take n) (t.take n) ∧
      SignOfOrder (strncmp s t n) (s.take n) (t.take n) := by
  have horder := signOfOrder_strcmp hs.no_zero ht.no_zero
  refine ⟨fun fuel hfuel ↦ loadsOnly_strcmp hs ht hfuel, horder, strcmp_swap s t, ?_, fun n ↦ ?_⟩
  · intro u hu hst htu
    rw [horder.nonpos] at hst
    rw [(signOfOrder_strcmp ht.no_zero hu).nonpos] at htu
    rw [(signOfOrder_strcmp hs.no_zero hu).nonpos]
    exact List.le_trans hst htu
  · refine ⟨loadsOnly_strncmp hs ht n, strncmp_eq s t n, ?_⟩
    rw [strncmp_eq]
    exact signOfOrder_strcmp (fun h ↦ hs.no_zero (List.mem_of_mem_take h))
      fun h ↦ ht.no_zero (List.mem_of_mem_take h)

/-- An accented letter at `0`, and a `z` at `8`. -/
def accented : Ram := Ram.store (Ram.store (fun _ ↦ 0) 8 ([122] ++ [0])) 0 ([0xE9] ++ [0])

/-- As an unsigned character the accented letter is the greater one. -/
theorem strcmp_order_accented : SignOfOrder (strcmp [0xE9] [122]) [0xE9] [122] ∧
    LoadsOnly accented (At 0 8 fun i ↦ i < 1 ∧ Shared [0xE9] [122] i) (InMemory.strncmp 0 8 1)
      111 := by
  have hletter : accented.StringAt 0 [0xE9] := Ram.stringAt_store _ _ (by decide)
  have hz : accented.StringAt 8 [122] := (Ram.stringAt_store _ _ (by decide)).store (by decide)
  obtain ⟨-, horder, -, -, hfirst⟩ := strcmp_order hletter hz
  exact ⟨horder, (hfirst 1).1⟩

end Aetherion.CString
