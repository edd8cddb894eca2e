import Mathlib.Data.List.Induction
import Mathlib.Data.Fin.VecNotation
import Mathlib.Logic.Function.Basic
import Aetherion.Strings.Functions

/-!
# Strings in buffers

Some buffers of the same size, one behind the other, with a string in each, and the functions of
`kernel/string.c` called on them in any order.  What a caller has in mind is a list of characters
for each buffer (`Texts`); what the functions do is done to bytes.

As long as each call has room (`Fits`), the two agree over any number of calls (`calls_on_strings`):
every call comes to an end and returns what it would for the lists, afterwards the buffers hold the
lists, and no byte outside them has changed.
-/

set_option autoImplicit false

namespace Aetherion.Strings

open Ai (strcpy)
open Function

/-- Where the buffers are. -/
structure Buffers where
  base : ℕ
  size : ℕ
  count : ℕ

/-- The address of a buffer. -/
def Buffers.addr (b : Buffers) (i : Fin b.count) : ℕ := b.base + b.size * i

/-- A list of characters for each buffer. -/
abbrev Texts (b : Buffers) := Fin b.count → List UInt8

variable {b : Buffers}

/-- A call of one of the functions. -/
inductive Call (b : Buffers) where
  | strcpy (dest src : Fin b.count)
  | strcat (dest src : Fin b.count)
  | strncpy (dest src : Fin b.count) (n : ℕ)
  | strlen (s : Fin b.count)
  | strchr (s : Fin b.count) (c : Int32)

/-- What a call returns. -/
inductive Result
  | ptr (p : Option ℕ)
  | size (n : ℕ)
  deriving DecidableEq

/-- The call on memory. -/
def Call.run (fuel : ℕ) (m : Ram) : Call b → Option (Result × Ram)
  | .strcpy dest src =>
    (Ai.strcpy fuel m (b.addr dest) (b.addr src)).map fun m ↦ (.ptr (b.addr dest), m)
  | .strcat dest src =>
    (Strings.strcat fuel m (b.addr dest) (b.addr src)).map fun m ↦ (.ptr (b.addr dest), m)
  | .strncpy dest src n =>
    some (.ptr (b.addr dest), Strings.strncpy m (b.addr dest) (b.addr src) n)
  | .strlen s => (Strings.strlen fuel m (b.addr s)).map fun n ↦ (.size n, m)
  | .strchr s c => (Strings.strchr fuel m (b.addr s) c).map fun p ↦ (.ptr p, m)

/-- The results of some calls, and the memory after them. -/
def runCalls (fuel : ℕ) : Ram → List (Call b) → Option (List Result × Ram)
  | m, [] => some ([], m)
  | m, call :: calls => do
    let (r, m) ← call.run fuel m
    let (rs, m) ← runCalls fuel m calls
    return (r :: rs, m)

/-! ## On lists -/

/-- What a call does to the texts. -/
def Call.onTexts (v : Texts b) : Call b → Texts b
  | .strcpy dest src => update v dest (v src)
  | .strcat dest src => update v dest (v dest ++ v src)
  | .strncpy dest src n =>
    update v dest (if (v src).length < n then v src else (v src).take n ++ (v dest).drop n)
  | .strlen _ | .strchr _ _ => v

/-- What a call returns on them. -/
def Call.result (v : Texts b) : Call b → Result
  | .strcpy dest _ | .strcat dest _ | .strncpy dest _ _ => .ptr (b.addr dest)
  | .strlen s => .size (v s).length
  | .strchr s c => .ptr (((v s).idxOf? (charOf c)).map (b.addr s + ·))

/-- **The call has room.**  A string is not added to itself, and one that is cut off has to have
another behind it. -/
def Call.Fits (v : Texts b) : Call b → Prop
  | .strcat dest src => (v dest).length + (v src).length < b.size ∧ (dest = src → v src = [])
  | .strncpy dest src n => n ≤ b.size ∧ (n ≤ (v src).length → n ≤ (v dest).length)
  | .strcpy _ _ | .strlen _ | .strchr _ _ => True

/-- What some calls do to the texts. -/
def after (v : Texts b) (calls : List (Call b)) : Texts b := calls.foldl Call.onTexts v

/-- All of some calls have room. -/
def AllFit : Texts b → List (Call b) → Prop
  | _, [] => True
  | v, call :: calls => call.Fits v ∧ AllFit (call.onTexts v) calls

/-- What some calls return. -/
def results : Texts b → List (Call b) → List Result
  | _, [] => []
  | v, call :: calls => call.result v :: results (call.onTexts v) calls

/-! ## On memory -/

/-- **The buffers hold these strings.** -/
structure Holds (m : Ram) (v : Texts b) : Prop where
  string : ∀ i, m.StringAt (b.addr i) (v i)
  short : ∀ i, (v i).length < b.size

/-- The same bytes outside the buffers. -/
def SameOutside (b : Buffers) (m m' : Ram) : Prop :=
  ∀ x, x < b.base ∨ b.base + b.size * b.count ≤ x → m' x = m x

section
variable {m : Ram} {v : Texts b} {fuel : ℕ}

/-- Two buffers are apart. -/
theorem Buffers.apart {i j : Fin b.count} (h : i ≠ j) :
    b.addr i + b.size ≤ b.addr j ∨ b.addr j + b.size ≤ b.addr i := by
  have hne : i.val ≠ j.val := fun heq ↦ h (Fin.ext heq)
  simp only [addr, Nat.add_assoc, ← Nat.mul_succ, Nat.add_le_add_iff_left]
  rcases Nat.lt_or_gt_of_ne hne with hlt | hgt
  · exact .inl (Nat.mul_le_mul_left _ hlt)
  · exact .inr (Nat.mul_le_mul_left _ hgt)

/-- A buffer is among the buffers. -/
theorem Buffers.inside (i : Fin b.count) :
    b.base ≤ b.addr i ∧ b.addr i + b.size ≤ b.base + b.size * b.count := by
  simp only [addr, Nat.add_assoc, ← Nat.mul_succ, Nat.add_le_add_iff_left]
  exact ⟨Nat.le_add_right .., Nat.mul_le_mul_left _ i.isLt⟩

/-- **A store inside a buffer** changes the string there, and no other. -/
theorem Holds.store (h : Holds m v) (dest : Fin b.count) (off : ℕ) {bs t : List UInt8}
    (hin : off + bs.length ≤ b.size) (hlen : t.length < b.size)
    (ht : (m.store (b.addr dest + off) bs).StringAt (b.addr dest) t) :
    Holds (m.store (b.addr dest + off) bs) (update v dest t) ∧
      SameOutside b m (m.store (b.addr dest + off) bs) := by
  refine ⟨⟨fun i ↦ ?_, fun i ↦ ?_⟩, fun x hx ↦ Ram.store_apart m ?_⟩
  · by_cases hi : i = dest
    · rw [hi, update_self]
      exact ht
    · have hapart := b.apart hi
      have hshort := h.short i
      rw [update_of_ne hi]
      exact (h.string i).store (by omega)
  · by_cases hi : i = dest
    · rwa [hi, update_self]
    · rw [update_of_ne hi]
      exact h.short i
  · have hinside := b.inside dest
    omega

/-- The source of a copy is the buffer itself, or apart from it. -/
theorem Holds.source (h : Holds m v) (dest src : Fin b.count) :
    b.addr dest ≤ b.addr src ∨ b.addr src + (v src).length < b.addr dest := by
  have hshort := h.short src
  by_cases heq : dest = src
  · rw [heq]
    exact .inl le_rfl
  · have hapart := b.apart heq
    omega

theorem Holds.strcpy (h : Holds m v) (dest src : Fin b.count) (hfuel : b.size ≤ fuel) :
    ∃ m', Ai.strcpy fuel m (b.addr dest) (b.addr src) = some m' ∧
      Holds m' (update v dest (v src)) ∧ SameOutside b m m' := by
  have hshort := h.short src
  have hfits : 0 + (v src ++ [0]).length ≤ b.size := by
    rw [List.length_append, List.length_singleton]
    omega
  have hstore := h.store dest 0 (t := v src) hfits hshort
    (Ram.stringAt_store m _ (h.string src).no_zero)
  exact ⟨_, strcpy_forward (h.string src) (by omega) (h.source dest src), hstore⟩

theorem Holds.strcat (h : Holds m v) {dest src : Fin b.count} (hfuel : b.size ≤ fuel)
    (hroom : (v dest).length + (v src).length < b.size) (hself : dest = src → v src = []) :
    ∃ m', Strings.strcat fuel m (b.addr dest) (b.addr src) = some m' ∧
      Holds m' (update v dest (v dest ++ v src)) ∧ SameOutside b m m' := by
  have hapart : b.addr dest + (v dest).length ≤ b.addr src ∨
      b.addr src + (v src).length < b.addr dest + (v dest).length := by
    by_cases heq : dest = src
    · rw [heq, hself heq]
      exact .inl le_rfl
    · have happart := b.apart heq
      omega
  have hstore := h.store dest (v dest).length
    (show (v dest).length + (v src ++ [0]).length ≤ b.size by
      rw [List.length_append, List.length_singleton]; omega)
    (by rw [List.length_append]; exact hroom)
    ((h.string dest).append (h.string src).no_zero)
  exact ⟨_, strcat_eq (h.string dest) (h.string src) (by omega) (by omega) hapart, hstore⟩

theorem Holds.strncpy (h : Holds m v) {dest src : Fin b.count} {n : ℕ} (hn : n ≤ b.size)
    (hcut : n ≤ (v src).length → n ≤ (v dest).length) :
    Holds (Strings.strncpy m (b.addr dest) (b.addr src) n) (update v dest
      (if (v src).length < n then v src else (v src).take n ++ (v dest).drop n)) ∧
      SameOutside b m (Strings.strncpy m (b.addr dest) (b.addr src) n) := by
  rw [strncpy_eq (h.string src) (h.source dest src)]
  split
  · rename_i hlt
    -- the string, its terminator, and more zeros
    obtain ⟨k, hk⟩ := Nat.exists_eq_add_one_of_ne_zero (Nat.sub_ne_zero_of_lt hlt)
    rw [List.take_of_length_le hlt.le, hk, List.replicate_succ]
    refine h.store dest 0 ?_ (h.short src)
      (Ram.stringAt_store_more m _ (h.string src).no_zero _)
    rw [List.length_append, List.length_cons, List.length_replicate]
    omega
  · rename_i hge
    have hle := hcut (Nat.le_of_not_lt hge)
    have htake : ((v src).take n).length = n := List.length_take_of_le (Nat.le_of_not_lt hge)
    rw [Nat.sub_eq_zero_of_le (Nat.le_of_not_lt hge), List.replicate_zero, List.append_nil]
    have hover := (h.string dest).overwrite (t := (v src).take n)
      (fun hmem ↦ (h.string src).no_zero (List.take_subset _ _ hmem)) (by omega)
    rw [htake] at hover
    have hshort := h.short dest
    refine h.store dest 0 (by omega) ?_ hover
    rw [List.length_append, List.length_drop]
    omega

/-- **One call.** -/
theorem Holds.call (hfuel : b.size ≤ fuel) (h : Holds m v) (call : Call b) (hfits : call.Fits v) :
    ∃ m', call.run fuel m = some (call.result v, m') ∧ Holds m' (call.onTexts v) ∧
      SameOutside b m m' := by
  have hsame : SameOutside b m m := fun _ _ ↦ rfl
  have hlt (i : Fin b.count) : (v i).length < fuel := (h.short i).trans_le hfuel
  cases call with
  | strcpy dest src =>
    obtain ⟨m', hm', hholds⟩ := h.strcpy dest src hfuel
    exact ⟨m', by rw [Call.run, hm']; rfl, hholds⟩
  | strcat dest src =>
    obtain ⟨m', hm', hholds⟩ := h.strcat hfuel hfits.1 hfits.2
    exact ⟨m', by rw [Call.run, hm']; rfl, hholds⟩
  | strncpy dest src n => exact ⟨_, rfl, h.strncpy hfits.1 hfits.2⟩
  | strlen s => exact ⟨m, by rw [Call.run, strlen_eq (h.string s) (hlt s)]; rfl, h, hsame⟩
  | strchr s c => exact ⟨m, by rw [Call.run, strchr_eq (h.string s) (hlt s)]; rfl, h, hsame⟩

end

/-- **The functions work on strings**, for any number of calls in any order that all have room. -/
theorem calls_on_strings (b : Buffers) {fuel : ℕ} (hfuel : b.size ≤ fuel) (m : Ram) (v : Texts b)
    (h : Holds m v) (calls : List (Call b)) (hfit : AllFit v calls) :
    ∃ m', runCalls fuel m calls = some (results v calls, m') ∧ Holds m' (after v calls) ∧
      SameOutside b m m' := by
  induction calls generalizing m v with
  | nil => exact ⟨m, rfl, h, fun _ _ ↦ rfl⟩
  | cons call calls ih =>
    obtain ⟨m₁, hm₁, hholds₁, hsame₁⟩ := h.call hfuel call hfit.1
    obtain ⟨m₂, hm₂, hholds₂, hsame₂⟩ := ih m₁ _ hholds₁ hfit.2
    refine ⟨m₂, ?_, hholds₂, fun x hx ↦ (hsame₂ x hx).trans (hsame₁ x hx)⟩
    rw [runCalls, hm₁]
    simp [hm₂, results]

/-- Two buffers of eight bytes. -/
abbrev twoBuffers : Buffers := ⟨0, 8, 2⟩

/-- `ab` is in the first one. -/
def oneText : Texts twoBuffers := ![[97, 98], []]

/-- It is copied, added to, and copied in part. -/
def someCalls : List (Call twoBuffers) :=
  [.strcpy 1 0, .strcat 0 1, .strlen 0, .strchr 0 98, .strncpy 1 0 1]

theorem calls_on_strings_two : ∃ m',
    runCalls 8 (Ram.store (fun _ ↦ 0) 0 [97, 98, 0]) someCalls =
      some ([.ptr (some 8), .ptr (some 0), .size 4, .ptr (some 1), .ptr (some 8)], m') ∧
    m'.StringAt 0 [97, 98, 97, 98] ∧ m'.StringAt 8 [97, 98] := by
  have hholds : Holds (Ram.store (fun _ ↦ 0) 0 [97, 98, 0]) oneText := by
    refine ⟨Fin.forall_fin_two.mpr ⟨?_, ?_⟩, Fin.forall_fin_two.mpr (by decide)⟩
    · exact Ram.stringAt_store (s := [97, 98]) (fun _ ↦ 0) 0 (by decide)
    · exact ⟨List.not_mem_nil, fun i hi ↦ absurd hi (Nat.not_lt_zero i), rfl⟩
  have hfit : AllFit oneText someCalls :=
    ⟨trivial, ⟨by decide, by decide⟩, trivial, trivial, ⟨by decide, fun _ ↦ by decide⟩, trivial⟩
  obtain ⟨m', hm', hafter, -⟩ := calls_on_strings twoBuffers le_rfl _ oneText hholds someCalls hfit
  exact ⟨m', hm', hafter.string 0, hafter.string 1⟩

end Aetherion.Strings
