import Aetherion.Base.Ram
import Aetherion.Shell.CString

/-!
# `sprintf`

The small `sprintf` of `kernel/string.c`, which knows `%d` and `%s`.  Its result is compared with
the expansion of the format (`Expansion`), in which a number is written as usual.

The digits of a number are taken off the low end until nothing is left, and a negative number is
negated for that.  The most negative `int` has no opposite: it stays negative, its last digit comes
out as an opening bracket, and there is no second one.  Apart from that, and from texts whose
length is no `int`, the expansion is what is written (`sprintf_iff`).
-/

set_option autoImplicit false

namespace Aetherion.Ai

open CString (ofString)

/-! ## The code -/

/-- An argument behind the format. -/
inductive Arg where
  | int (val : Int32)
  | str (s : List UInt8)
  deriving DecidableEq

/-- The memory, and where the next character goes. -/
structure Out where
  mem : Ram
  /-- `buf_ptr`. -/
  bufPtr : ℕ

/-- `*buf_ptr++ = c`. -/
def Out.put (o : Out) (c : UInt8) : Out := ⟨o.mem.store o.bufPtr [c], o.bufPtr + 1⟩

/-- `(val % 10) + '0'`, in a `char`. -/
def digit (val : Int32) : UInt8 := (val % 10 + 48).toInt8.toUInt8

theorem toInt_div_ten {val : Int32} (h : 0 ≤ val.toInt) : (val / 10).toInt = val.toInt / 10 := by
  rw [Int32.toInt_div_of_ne_right val 10 (by decide)]
  exact Int.tdiv_eq_ediv_of_nonneg h

/-- Nothing is left of a number that is not positive. -/
theorem div_ten_nonpos {val : Int32} (h : val.toInt ≤ 0) : (val / 10).toInt ≤ 0 := by
  have htdiv : (val / 10).toInt = val.toInt.tdiv 10 :=
    Int32.toInt_div_of_ne_right val 10 (by decide)
  rw [htdiv, Int.tdiv_eq_ediv]
  split
  · omega
  · rw [show Int.sign 10 = 1 from rfl]
    omega

/-- `do { temp[i++] = (val % 10) + '0'; val /= 10; } while (val > 0);` -/
def digitLoop (val : Int32) (temp : List UInt8) : List UInt8 :=
  if val / 10 > 0 then digitLoop (val / 10) (temp ++ [digit val]) else temp ++ [digit val]
termination_by val.toInt.toNat
decreasing_by
  rename_i h
  have hleft : 0 < (val / 10).toInt := Int32.lt_iff_toInt_lt.mp h
  have hpos : 0 < val.toInt := by
    by_contra hnot
    exact absurd hleft (Int.not_lt.mpr (div_ten_nonpos (by omega)))
  have hdiv := toInt_div_ten (Int.le_of_lt hpos)
  omega

/-- What is in `temp` when the number is complete. -/
def tempOf (val : Int32) : List UInt8 :=
  let temp := digitLoop (if val < 0 then -val else val) []
  if val < 0 then temp ++ [45] else temp

/-- The branch for `%d`: `while (i--) *buf_ptr++ = temp[i];`. -/
def putInt (o : Out) (val : Int32) : Out := (tempOf val).reverse.foldl Out.put o

/-- `va_arg(args, int)`.  There is no saying what it gives for another argument, or for none. -/
def vaInt : List Arg → Option (Int32 × List Arg)
  | .int val :: args => some (val, args)
  | _ => none

/-- `va_arg(args, char*)`. -/
def vaStr : List Arg → Option (List UInt8 × List Arg)
  | .str s :: args => some (s, args)
  | _ => none

/-- The loop over the format. -/
def sprintfLoop : List UInt8 → List Arg → Out → Option Out
  | [], _, o => some o
  | [c], _, o => some (o.put c)
  | c :: d :: rest, args, o =>
    if c = 37 then  -- `'%'`
      if d = 100 then
        (vaInt args).bind fun a ↦ sprintfLoop rest a.2 (putInt o a.1)
      else if d = 115 then
        (vaStr args).bind fun a ↦ sprintfLoop rest a.2 (a.1.foldl Out.put o)
      else sprintfLoop rest args (o.put d)
    else sprintfLoop (d :: rest) args (o.put c)

/-- What `sprintf` leaves behind. -/
structure Printed where
  mem : Ram
  /-- The value returned. -/
  ret : Int32

def sprintf (m : Ram) (buffer : ℕ) (format : List UInt8) (args : List Arg) : Option Printed :=
  (sprintfLoop format args ⟨m, buffer⟩).map fun o ↦
    ⟨o.mem.store o.bufPtr [0], .ofNat (o.bufPtr - buffer)⟩

/-! ## What it should write -/

/-- **The expansion of a format** with the arguments that it asks for, where `dec` writes the
numbers. -/
inductive Expansion (dec : Int32 → List UInt8) : List UInt8 → List Arg → List UInt8 → Prop where
  | nil : Expansion dec [] [] []
  | int (val : Int32) {rest : List UInt8} {args : List Arg} {out : List UInt8}
      (h : Expansion dec rest args out) :
      Expansion dec (37 :: 100 :: rest) (.int val :: args) (dec val ++ out)
  | str (s : List UInt8) {rest : List UInt8} {args : List Arg} {out : List UInt8}
      (h : Expansion dec rest args out) :
      Expansion dec (37 :: 115 :: rest) (.str s :: args) (s ++ out)
  | escaped {c : UInt8} (hd : c ≠ 100) (hs : c ≠ 115) {rest : List UInt8} {args : List Arg}
      {out : List UInt8} (h : Expansion dec rest args out) :
      Expansion dec (37 :: c :: rest) args (c :: out)
  | lone : Expansion dec [37] [] [37]
  | char {c : UInt8} (hc : c ≠ 37) {rest : List UInt8} {args : List Arg} {out : List UInt8}
      (h : Expansion dec rest args out) : Expansion dec (c :: rest) args (c :: out)

/-- A number as it is usually written. -/
def decimal (val : Int32) : List UInt8 := ofString (toString val.toInt)

/-- The text is in the buffer, with a terminator behind it and nothing else changed, and its length
has been returned. -/
def Writes (m : Ram) (buffer : ℕ) (format : List UInt8) (args : List Arg) (out : List UInt8) :
    Prop :=
  ∃ r, sprintf m buffer format args = some r ∧ r.mem = m.store buffer (out ++ [0]) ∧
    r.ret.toInt = out.length

/-! ## One number -/

theorem ofString_append (s t : String) : ofString (s ++ t) = ofString s ++ ofString t := by
  simp [ofString]

/-- The last digit of a number, and those before it. -/
theorem ofString_repr (n : ℕ) : ofString n.repr =
    (if n < 10 then [] else ofString (n / 10).repr) ++ [.ofNat (48 + n % 10)] := by
  have hdigit (k : ℕ) (hk : k < 10) : UInt8.ofNat k.digitChar.toNat = .ofNat (48 + k) := by
    rw [Nat.toNat_digitChar_of_lt_ten hk]
  rw [ofString, ofString, Nat.toList_repr, Nat.toList_repr, Nat.toDigits_eq_if (by decide)]
  split
  · rw [List.map_singleton, hdigit n ‹_›, Nat.mod_eq_of_lt ‹_›]
    rfl
  · rw [List.map_append, List.map_singleton, hdigit _ (Nat.mod_lt _ (by decide))]

theorem digit_eq {val : Int32} (h : 0 ≤ val.toInt) :
    digit val = .ofNat (48 + val.toInt.toNat % 10) := by
  have hlt : val.toInt.toNat % 10 < 10 := Nat.mod_lt _ (by decide)
  have hmod : val % 10 = .ofNat (val.toInt.toNat % 10) := by
    rw [← Int32.toInt_inj, Int32.toInt_mod, Int32.toInt_ofNat_of_lt (by omega),
      Int.tmod_eq_emod_of_nonneg h]
    change val.toInt % 10 = _
    omega
  have hchar : ∀ k < 10, (Int32.ofNat k + 48).toInt8.toUInt8 = .ofNat (48 + k) := by decide
  rw [digit, hmod, hchar _ hlt]

/-- **The digits of a number**, lowest first. -/
theorem digitLoop_eq {val : Int32} (h : 0 ≤ val.toInt) (temp : List UInt8) :
    digitLoop val temp = temp ++ (ofString val.toInt.toNat.repr).reverse := by
  have hdiv := toInt_div_ten h
  rw [digitLoop, ofString_repr, digit_eq h]
  by_cases hten : val.toInt.toNat < 10
  · have hlast : ¬val / 10 > 0 := fun hgt ↦ by
      have hpos : 0 < (val / 10).toInt := Int32.lt_iff_toInt_lt.mp hgt
      omega
    rw [if_neg hlast, if_pos hten]
    rfl
  · have hmore : val / 10 > 0 := Int32.lt_iff_toInt_lt.mpr (show 0 < _ by omega)
    rw [if_pos hmore, if_neg hten, digitLoop_eq (by omega), hdiv,
      show (val.toInt / 10).toNat = val.toInt.toNat / 10 by omega]
    simp
termination_by val.toInt.toNat
decreasing_by omega

/-- The opposite of a number, unless it is the most negative one. -/
theorem toInt_neg_of_ne {val : Int32} (h : val ≠ .minValue) : (-val).toInt = -val.toInt := by
  have hle : -2 ^ 31 ≤ val.toInt := val.minValue_le_toInt
  have hlt := val.toInt_lt
  have hne : val.toInt ≠ -2 ^ 31 := fun heq ↦ h (Int32.toInt_inj.mp heq)
  rw [Int32.toInt_neg, Int.bmod_eq_of_le (by omega) (by omega)]

/-- **A number is written as usual**, unless it is the most negative one. -/
theorem tempOf_reverse {val : Int32} (h : val ≠ .minValue) :
    (tempOf val).reverse = decimal val := by
  rw [decimal, Int.toString_eq_repr, Int.repr_eq_if]
  by_cases hneg : val < 0
  · have hlt : val.toInt < 0 := Int32.lt_iff_toInt_lt.mp hneg
    have hopp := toInt_neg_of_ne h
    simp only [tempOf, if_pos hneg]
    rw [if_neg (by omega), digitLoop_eq (by omega), hopp, List.nil_append, List.reverse_append,
      List.reverse_reverse, ofString_append]
    rfl
  · have hle : 0 ≤ val.toInt := Int.not_lt.mp fun hlt ↦ hneg (Int32.lt_iff_toInt_lt.mpr hlt)
    simp only [tempOf, if_neg hneg]
    rw [if_pos hle, digitLoop_eq hle, List.nil_append, List.reverse_reverse]

/-- The most negative one comes out as a minus sign and a bracket. -/
theorem tempOf_minValue : (tempOf .minValue).reverse = [45, 40] := by
  have hneg : Int32.minValue < 0 := by decide
  have hlast : ¬-Int32.minValue / 10 > 0 := by decide
  simp only [tempOf, if_pos hneg]
  rw [digitLoop, if_neg hlast]
  rfl

/-- `temp` has 32 entries, and no more than 11 are needed. -/
theorem length_tempOf_le (val : Int32) : (tempOf val).length ≤ 11 := by
  by_cases hmin : val = .minValue
  · rw [hmin, ← List.length_reverse, tempOf_minValue]
    decide
  · have hle : -2 ^ 31 ≤ val.toInt := val.minValue_le_toInt
    have hlt := val.toInt_lt
    have hdigits {n : ℕ} (hn : n < 2 ^ 32) : (ofString n.repr).length ≤ 10 := by
      rw [ofString, List.length_map, Nat.toList_repr,
        Nat.length_toDigits_le_iff (by decide) (by decide)]
      omega
    rw [← List.length_reverse, tempOf_reverse hmin, decimal, Int.toString_eq_repr, Int.repr_eq_if]
    split
    · exact Nat.le_succ_of_le (hdigits (by omega))
    · have hrest := hdigits (n := (-val.toInt).toNat) (by omega)
      rw [ofString_append, List.length_append]
      change 1 + _ ≤ 11
      omega

/-! ## The loop -/

/-- Where two texts part. -/
def Clash (a b : List UInt8) : Prop :=
  ∃ (i : ℕ) (x y : UInt8), a[i]? = some x ∧ b[i]? = some y ∧ x ≠ y

theorem Clash.append_left {a b : List UInt8} (h : Clash a b) (p : List UInt8) :
    Clash (p ++ a) (p ++ b) := by
  obtain ⟨i, x, y, hx, hy, hne⟩ := h
  refine ⟨p.length + i, x, y, ?_, ?_, hne⟩
  · rwa [List.getElem?_append_right (Nat.le_add_right ..), Nat.add_sub_cancel_left]
  · rwa [List.getElem?_append_right (Nat.le_add_right ..), Nat.add_sub_cancel_left]

theorem Clash.append {a b : List UInt8} (h : Clash a b) (a' b' : List UInt8) :
    Clash (a ++ a') (b ++ b') := by
  obtain ⟨i, x, y, hx, hy, hne⟩ := h
  obtain ⟨hi, -⟩ := List.getElem?_eq_some_iff.mp hx
  obtain ⟨hi', -⟩ := List.getElem?_eq_some_iff.mp hy
  exact ⟨i, x, y, by rwa [List.getElem?_append_left hi],
    by rwa [List.getElem?_append_left hi'], hne⟩

theorem Clash.ne {a b : List UInt8} (h : Clash a b) : a ≠ b := by
  rintro rfl
  obtain ⟨i, x, y, hx, hy, hne⟩ := h
  exact hne (Option.some.inj (hx.symm.trans hy))

/-- Texts that clash do not leave the same memory behind. -/
theorem Clash.store_ne {a b : List UInt8} (h : Clash a b) (m : Ram) (p : ℕ) :
    m.store p a ≠ m.store p b := by
  obtain ⟨i, x, y, hx, hy, hne⟩ := h
  intro heq
  have hi := congrFun heq (p + i)
  simp only [Ram.store, if_pos (Nat.le_add_right p i), Nat.add_sub_cancel_left, hx, hy,
    Option.getD_some] at hi
  exact hne hi

variable {dec dec' : Int32 → List UInt8} {format : List UInt8} {args : List Arg}
  {out : List UInt8}

/-- The numbers can be written in another way. -/
theorem Expansion.exists_other (h : Expansion dec format args out) (dec' : Int32 → List UInt8) :
    ∃ out', Expansion dec' format args out' := by
  induction h with
  | nil => exact ⟨[], .nil⟩
  | int val _ ih => exact ih.imp' _ fun _ ↦ .int val
  | str s _ ih => exact ih.imp' _ fun _ ↦ .str s
  | escaped hd hs _ ih => exact ih.imp' _ fun _ ↦ .escaped hd hs
  | lone => exact ⟨[37], .lone⟩
  | char hc _ ih => exact ih.imp' _ fun _ ↦ .char hc

/-- It makes no difference if it does not for the numbers that are there. -/
theorem Expansion.congr (h : Expansion dec format args out)
    (hdec : ∀ val, .int val ∈ args → dec' val = dec val) : Expansion dec' format args out := by
  induction h with
  | nil => exact .nil
  | int val _ ih =>
    rw [← hdec val List.mem_cons_self]
    exact .int val (ih fun v hv ↦ hdec v (List.mem_cons_of_mem _ hv))
  | str s _ ih => exact .str s (ih fun v hv ↦ hdec v (List.mem_cons_of_mem _ hv))
  | escaped hd hs _ ih => exact .escaped hd hs (ih hdec)
  | lone => exact .lone
  | char hc _ ih => exact .char hc (ih hdec)

/-- **One number that comes out wrong** shows, whatever the other ones do. -/
theorem Expansion.clash (h : Expansion dec format args out) (dec' : Int32 → List UInt8)
    (hdec : ∀ val, .int val ∈ args → dec' val = dec val ∨ Clash (dec' val) (dec val))
    (hne : ∃ val, .int val ∈ args ∧ dec' val ≠ dec val) :
    ∃ out', Expansion dec' format args out' ∧ Clash out' out := by
  induction h with
  | nil => simp at hne
  | int val h ih =>
    rcases hdec val List.mem_cons_self with heq | hclash
    · obtain ⟨v, hv, hvne⟩ := hne
      have hrest : Arg.int v ∈ _ := (List.mem_cons.mp hv).resolve_left fun hval ↦
        hvne (Arg.int.inj hval ▸ heq)
      obtain ⟨out', hout', hclash⟩ :=
        ih (fun v hv ↦ hdec v (List.mem_cons_of_mem _ hv)) ⟨v, hrest, hvne⟩
      exact ⟨_, .int val hout', heq ▸ hclash.append_left _⟩
    · obtain ⟨out', hout'⟩ := h.exists_other dec'
      exact ⟨_, .int val hout', hclash.append ..⟩
  | str s _ ih =>
    obtain ⟨v, hv, hvne⟩ := hne
    have hrest : Arg.int v ∈ _ := (List.mem_cons.mp hv).resolve_left Arg.noConfusion
    obtain ⟨out', hout', hclash⟩ :=
      ih (fun v hv ↦ hdec v (List.mem_cons_of_mem _ hv)) ⟨v, hrest, hvne⟩
    exact ⟨_, .str s hout', hclash.append_left _⟩
  | @escaped c hd hs _ _ _ _ ih =>
    obtain ⟨out', hout', hclash⟩ := ih hdec hne
    exact ⟨_, .escaped hd hs hout', hclash.append_left [c]⟩
  | lone => simp at hne
  | @char c hc _ _ _ _ ih =>
    obtain ⟨out', hout', hclash⟩ := ih hdec hne
    exact ⟨_, .char hc hout', hclash.append_left [c]⟩

/-- Text without directives. -/
theorem Expansion.chars {text : List UInt8} (htext : 37 ∉ text)
    (h : Expansion dec format args out) : Expansion dec (text ++ format) args (text ++ out) := by
  induction text with
  | nil => exact h
  | cons c text ih =>
    rw [List.mem_cons, not_or] at htext
    exact .char (Ne.symm htext.1) (ih htext.2)

theorem foldl_put (text : List UInt8) (m : Ram) (p : ℕ) :
    text.foldl Out.put ⟨m, p⟩ = ⟨m.store p text, p + text.length⟩ := by
  induction text generalizing m p with
  | nil => rw [Ram.store_nil]; rfl
  | cons c text ih =>
    rw [List.foldl_cons, Out.put, ih, List.length_cons, show p + 1 = p + [c].length from rfl,
      Ram.store_append, List.length_singleton, Nat.add_right_comm, Nat.add_assoc]
    rfl

/-- **The loop writes an expansion**, in which numbers come out as `temp` backwards. -/
theorem sprintfLoop_eq (h : Expansion (fun val ↦ (tempOf val).reverse) format args out) (m : Ram)
    (p : ℕ) : sprintfLoop format args ⟨m, p⟩ = some ⟨m.store p out, p + out.length⟩ := by
  have hput (c : UInt8) {rest : List UInt8} {args : List Arg} {out : List UInt8} {m : Ram} {p : ℕ}
      (ih : ∀ m p, sprintfLoop rest args ⟨m, p⟩ = some ⟨m.store p out, p + out.length⟩) :
      sprintfLoop rest args (Out.put ⟨m, p⟩ c) =
        some ⟨m.store p (c :: out), p + (c :: out).length⟩ := by
    have hlen : p + [c].length + out.length = p + (c :: out).length := by
      rw [List.length_singleton, List.length_cons]
      omega
    rw [Out.put, ih, show p + 1 = p + [c].length from rfl, Ram.store_append, hlen]
    rfl
  induction h generalizing m p with
  | nil => rw [Ram.store_nil]; rfl
  | int val _ ih =>
    rw [sprintfLoop, if_pos rfl, if_pos rfl, vaInt, Option.bind_some, putInt, foldl_put, ih,
      Ram.store_append, List.length_append, Nat.add_assoc]
  | str s _ ih =>
    rw [sprintfLoop, if_pos rfl, if_neg (by decide), if_pos rfl, vaStr, Option.bind_some, foldl_put,
      ih, Ram.store_append, List.length_append, Nat.add_assoc]
  | @escaped c hd hs _ _ _ _ ih =>
    rw [sprintfLoop, if_pos rfl, if_neg hd, if_neg hs]
    exact hput c ih
  | lone => rfl
  | @char c hc rest _ _ h ih =>
    cases rest with
    | nil =>
      cases h
      rfl
    | cons d rest =>
      rw [sprintfLoop, if_neg hc]
      exact hput c ih

/-- What `sprintf` leaves behind when it writes an expansion. -/
theorem sprintf_eq (h : Expansion (fun val ↦ (tempOf val).reverse) format args out) (m : Ram)
    (buffer : ℕ) :
    sprintf m buffer format args = some ⟨m.store buffer (out ++ [0]), .ofNat out.length⟩ := by
  rw [sprintf, sprintfLoop_eq h, Option.map_some]
  dsimp only
  rw [Ram.store_append, Nat.add_sub_cancel_left]

/-- The most negative number is not written as it should be. -/
theorem clash_minValue : Clash (tempOf .minValue).reverse (decimal .minValue) :=
  ⟨1, 40, 50, by rw [tempOf_minValue]; rfl, by decide, by decide⟩

/-- Wherever it stands, the text comes out wrong. -/
theorem not_writes_of_minValue (h : Expansion decimal format args out)
    (hmin : .int .minValue ∈ args) (m : Ram) (buffer : ℕ) : ¬Writes m buffer format args out := by
  rintro ⟨r, hr, hmem, -⟩
  obtain ⟨out', hout', hclash⟩ := h.clash (fun val ↦ (tempOf val).reverse) (fun val _ ↦ by
    by_cases hval : val = .minValue
    · subst hval
      exact Or.inr clash_minValue
    · exact Or.inl (tempOf_reverse hval)) ⟨_, hmin, clash_minValue.ne⟩
  rw [sprintf_eq hout', Option.some.injEq] at hr
  subst hr
  exact (hclash.append [0] [0]).store_ne m buffer hmem

/-- Without it the expansion is written. -/
theorem sprintf_decimal (h : Expansion decimal format args out) (hmin : .int .minValue ∉ args)
    (m : Ram) (buffer : ℕ) :
    sprintf m buffer format args = some ⟨m.store buffer (out ++ [0]), .ofNat out.length⟩ :=
  sprintf_eq (h.congr fun _ hval ↦ tempOf_reverse fun heq ↦ hmin (heq ▸ hval)) m buffer

theorem writes_of_not_minValue (h : Expansion decimal format args out)
    (hmin : .int .minValue ∉ args) (hlen : out.length < 2 ^ 31) (m : Ram) (buffer : ℕ) :
    Writes m buffer format args out :=
  ⟨_, sprintf_decimal h hmin m buffer, rfl, Int32.toInt_ofNat_of_lt hlen⟩

/-- **`sprintf` writes the expansion and returns its length exactly if** no number is the most
negative one and the length is an `int`. -/
theorem sprintf_iff (h : Expansion decimal format args out) (m : Ram) (buffer : ℕ) :
    Writes m buffer format args out ↔ .int .minValue ∉ args ∧ out.length < 2 ^ 31 := by
  constructor
  · intro hwrites
    have hmin : .int .minValue ∉ args := fun hmin ↦ not_writes_of_minValue h hmin m buffer hwrites
    refine ⟨hmin, ?_⟩
    obtain ⟨r, hr, -, hret⟩ := hwrites
    rw [sprintf_decimal h hmin, Option.some.injEq] at hr
    subst hr
    change (Int32.ofNat out.length).toInt = out.length at hret
    have hlt := (Int32.ofNat out.length).toInt_lt
    omega
  · rintro ⟨hmin, hlen⟩
    exact writes_of_not_minValue h hmin hlen m buffer

/-- A number, a string and a lone `%`. -/
theorem sprintf_number_string_percent :
    Writes (fun _ ↦ 0) 0 [37, 100, 37, 115, 37] [.int (-5), .str [97, 98]]
      [45, 53, 97, 98, 37] := by
  have hout : Expansion decimal [37, 100, 37, 115, 37] [.int (-5), .str [97, 98]]
      (decimal (-5) ++ ([97, 98] ++ [37])) := .int _ (.str _ .lone)
  exact (sprintf_iff hout _ 0).mpr ⟨by decide, by decide⟩

/-- The most negative number alone. -/
theorem sprintf_most_negative :
    ¬∀ (m : Ram) (buffer : ℕ) (format : List UInt8) (args : List Arg) (out : List UInt8),
      Expansion decimal format args out → Writes m buffer format args out := fun h ↦
  not_writes_of_minValue (.int .minValue .nil) List.mem_cons_self (fun _ ↦ 0) 0
    (h _ _ _ _ _ (.int .minValue .nil))

end Aetherion.Ai
