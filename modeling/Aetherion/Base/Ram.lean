import Mathlib.Data.Nat.Notation
import Mathlib.Tactic.Ring

/-!
# Physical memory

A byte at every address, and the words that bytes make up, lowest byte first.  Nothing wraps around
here: the address is whatever the processor has computed.  Two rules are enough for programs that
keep their data apart: a word that is stored can be read back (`word_store`), and a store leaves
what lies before it and behind it (`store_apart`, `word_store_apart`).
-/

set_option autoImplicit false

/-- A byte at every address. -/
abbrev Ram := ℕ → UInt8

namespace Ram

/-- Put the bytes `bs` at `a`. -/
def store (m : Ram) (a : ℕ) (bs : List UInt8) : Ram := fun x ↦
  if a ≤ x then (bs[x - a]?).getD (m x) else m x

/-- The `n` lowest bytes of a number, lowest first. -/
def bytes (v : ℕ) : ℕ → List UInt8
  | 0 => []
  | n + 1 => .ofNat v :: bytes (v / 256) n

/-- The number that the `n` bytes at `a` make up, lowest first. -/
def word (m : Ram) (a : ℕ) : ℕ → ℕ
  | 0 => 0
  | n + 1 => (m a).toNat + 256 * word m (a + 1) n

variable (m : Ram) {a b n k : ℕ} {bs : List UInt8}

@[simp] theorem length_bytes (v n : ℕ) : (bytes v n).length = n := by
  induction n generalizing v with
  | zero => rfl
  | succ n ih => rw [bytes, List.length_cons, ih]

/-! ## Stores -/

/-- **A store leaves the rest alone.** -/
theorem store_apart {x : ℕ} (h : x < a ∨ a + bs.length ≤ x) : m.store a bs x = m x := by
  rw [store]
  split
  · rw [List.getElem?_eq_none (by omega), Option.getD_none]
  · rfl

/-- A store of several bytes, one at a time. -/
theorem store_cons (v : UInt8) (bs : List UInt8) :
    m.store a (v :: bs) = (m.store (a + 1) bs).store a [v] := by
  funext x
  simp only [store]
  rcases Nat.lt_trichotomy x a with hlt | rfl | hgt
  · rw [if_neg (by omega), if_neg (by omega), if_neg (by omega)]
  · simp
  · obtain ⟨d, rfl⟩ := Nat.exists_eq_add_of_lt hgt
    rw [if_pos (by omega), if_pos (by omega), if_pos (by omega),
      show a + d + 1 - a = d + 1 by omega, show a + d + 1 - (a + 1) = d by omega,
      List.getElem?_cons_succ]
    simp

theorem store_nil : m.store a [] = m := by
  funext x
  simp [store]

/-- Two stores, one right behind the other. -/
theorem store_append (bs bs' : List UInt8) :
    (m.store a bs).store (a + bs.length) bs' = m.store a (bs ++ bs') := by
  funext x
  simp only [store]
  rcases Nat.lt_or_ge x a with hlt | hge
  · rw [if_neg (by omega), if_neg (by omega), if_neg (by omega)]
  rw [if_pos hge, if_pos hge]
  rcases Nat.lt_or_ge (x - a) bs.length with hin | hout
  · rw [if_neg (by omega), List.getElem?_append_left hin]
  · rw [if_pos (by omega), List.getElem?_append_right hout, List.getElem?_eq_none hout,
      Nat.sub_add_eq, Option.getD_none]

/-- The byte at the start of what is stored. -/
theorem store_head (v : UInt8) (bs : List UInt8) : m.store a (v :: bs) a = v := by simp [store]

/-! ## Words -/

variable {m} {m' : Ram}

/-- A word only depends on its bytes. -/
theorem word_congr (h : ∀ i < n, m' (a + i) = m (a + i)) : m'.word a n = m.word a n := by
  induction n generalizing a with
  | zero => rfl
  | succ n ih =>
    have hfst := h 0 (by omega)
    have hrest := ih (a := a + 1) fun i hi ↦ by
      have hi' := h (i + 1) (by omega)
      rwa [show a + (i + 1) = a + 1 + i by omega] at hi'
    rw [Nat.add_zero] at hfst
    rw [word, word, hrest, hfst]

/-- A word of zeros. -/
theorem word_eq_zero (h : ∀ i < n, m (a + i) = 0) : m.word a n = 0 := by
  induction n generalizing a with
  | zero => rfl
  | succ n ih =>
    have hfst := h 0 (by omega)
    rw [Nat.add_zero] at hfst
    rw [word, hfst, ih fun i hi ↦ ?_]
    · rfl
    · have hi' := h (i + 1) (by omega)
      rwa [show a + (i + 1) = a + 1 + i by omega] at hi'

variable (m)

/-- A word in two parts. -/
theorem word_add : m.word a (n + k) = m.word a n + 256 ^ n * m.word (a + n) k := by
  induction n generalizing a with
  | zero => simp [word]
  | succ n ih =>
    rw [Nat.add_right_comm, word, word, ih, Nat.pow_succ, show a + 1 + n = a + (n + 1) by omega]
    ring

/-- **What is stored can be read.** -/
theorem word_store (v n : ℕ) : (m.store a (bytes v n)).word a n = v % 256 ^ n := by
  induction n generalizing a v with
  | zero => rw [Nat.pow_zero, Nat.mod_one]; rfl
  | succ n ih =>
    have hrest : ((m.store (a + 1) (bytes (v / 256) n)).store a [.ofNat v]).word (a + 1) n =
        v / 256 % 256 ^ n := by
      rw [← ih]
      exact word_congr fun i _ ↦ store_apart _ (.inr (by simp))
    have hbyte : (UInt8.ofNat v).toNat = v % 256 := UInt8.toNat_ofNat'
    rw [bytes, word, store_head, store_cons, hrest, hbyte, Nat.pow_succ, Nat.mul_comm (256 ^ n),
      Nat.mod_mul]

/-- A word that a store does not reach. -/
theorem word_store_apart (h : b + n ≤ a ∨ a + bs.length ≤ b) :
    (m.store a bs).word b n = m.word b n :=
  word_congr fun i hi ↦ store_apart m (by omega)

/-- The same for a word that is stored. -/
theorem word_store_bytes (v : ℕ) (h : b + n ≤ a ∨ a + k ≤ b) :
    (m.store a (bytes v k)).word b n = m.word b n :=
  word_store_apart m (by rwa [length_bytes])

/-- And for a byte. -/
theorem store_bytes {x : ℕ} (v : ℕ) (h : x < a ∨ a + k ≤ x) : m.store a (bytes v k) x = m x :=
  store_apart m (by rwa [length_bytes])

theorem bytes_zero (n : ℕ) : bytes 0 n = List.replicate n 0 := by
  induction n with
  | zero => rfl
  | succ n ih =>
    rw [bytes, Nat.zero_div, ih, List.replicate_succ]
    rfl

/-- Zeros that are stored. -/
theorem store_bytes_zero {x : ℕ} (hlow : a ≤ x) (hhigh : x < a + n) :
    m.store a (bytes 0 n) x = 0 := by
  rw [store, if_pos hlow, bytes_zero, List.getElem?_replicate, if_pos (by omega), Option.getD_some]

/-! ## Parts of words -/

theorem word_lt : m.word a n < 256 ^ n := by
  induction n generalizing a with
  | zero => exact Nat.one_pos
  | succ n ih =>
    have hbyte := (m a).toNat_lt
    have hrest := ih (a := a + 1)
    rw [word, Nat.pow_succ]
    omega

/-- A word is its lower and its upper part. -/
theorem word_mod : m.word a (n + k) % 256 ^ n = m.word a n := by
  rw [word_add, Nat.add_mul_mod_self_left, Nat.mod_eq_of_lt m.word_lt]

theorem word_div : m.word a (n + k) / 256 ^ n = m.word (a + n) k := by
  rw [word_add, Nat.add_mul_div_left _ _ (Nat.pow_pos (by decide)),
    Nat.div_eq_of_lt m.word_lt, Nat.zero_add]

variable {m} {m' : Ram}

/-- Memory is determined by a word of it and the bytes around that. -/
theorem eq_of_word (hword : m'.word a n = m.word a n)
    (hapart : ∀ x, x < a ∨ a + n ≤ x → m' x = m x) : m' = m := by
  induction n generalizing a with
  | zero =>
    funext x
    exact hapart x (by omega)
  | succ n ih =>
    rw [word, word] at hword
    have hbyte := (m a).toNat_lt
    have hbyte' := (m' a).toNat_lt
    refine ih (a := a + 1) (by omega) fun x hx ↦ ?_
    by_cases hxa : x = a
    · rw [hxa, ← UInt8.toNat_inj]
      omega
    · exact hapart x (by omega)

variable (m)

/-- **A word with its middle part replaced** is the store of that part alone. -/
theorem store_middle {i j v : ℕ} (hv : v < 256 ^ n) :
    m.store a (bytes (256 ^ i * (256 ^ n * (m.word a (i + n + j) / 256 ^ (i + n)) + v) +
      m.word a (i + n + j) % 256 ^ i) (i + n + j)) = m.store (a + i) (bytes v n) := by
  have hhigh : m.word a (i + n + j) / 256 ^ (i + n) = m.word (a + (i + n)) j := m.word_div
  have hlow : m.word a (i + n + j) % 256 ^ i = m.word a i := by
    rw [Nat.add_assoc, m.word_mod]
  -- what is stored, in the parts that are read back
  have hparts : 256 ^ i * (256 ^ n * m.word (a + (i + n)) j + v) + m.word a i =
      m.word a i + 256 ^ i * v + 256 ^ (i + n) * m.word (a + (i + n)) j := by
    ring
  have hread : (m.store (a + i) (bytes v n)).word a (i + n + j) =
      m.word a i + 256 ^ i * v + 256 ^ (i + n) * m.word (a + (i + n)) j := by
    rw [word_add, word_add, word_store_bytes m v (by omega), word_store,
      word_store_bytes m v (by omega), Nat.mod_eq_of_lt hv]
  have hlt := (m.store (a + i) (bytes v n)).word_lt (a := a) (n := i + n + j)
  rw [hhigh, hlow, hparts, ← hread]
  refine eq_of_word (a := a) (n := i + n + j) ?_ fun x hx ↦ ?_
  · exact (word_store m _ _).trans (Nat.mod_eq_of_lt hlt)
  · rw [store_bytes m _ hx, store_bytes m v (by omega)]

end Ram
