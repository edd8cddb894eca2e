import Mathlib.Data.List.Basic
import Mathlib.Data.List.Range
import Mathlib.Data.Nat.ModEq
import Mathlib.Logic.Function.Basic

/-!
# A ring buffer is a bounded queue

A ring of `n` cells with a head, where the next element goes, and a tail, where the next one is
taken from.  Head and tail are equal when the ring is empty, so one cell always stays unused and
the ring holds at most `n - 1` elements.

`RingBuffer.contents` reads the stretch from the tail to the head as a list.  `contents_push` and
`contents_eq_cons` say that the two operations are those of a queue of capacity `n - 1`, and
`Fifo` is that queue, with a record of everything it ever accepted and everything it ever
delivered; `Fifo.Balanced` says that nothing is lost, doubled or reordered in between.
-/

set_option autoImplicit false

/-- A ring buffer.  The number of cells is a parameter of the operations. -/
structure RingBuffer (α : Type) where
  /-- The cells. -/
  cells : ℕ → α
  /-- Where the next element goes. -/
  head : ℕ
  /-- Where the next element is taken from. -/
  tail : ℕ

namespace RingBuffer

variable {α : Type}

/-- The number of elements in a ring of `n` cells. -/
def len (n : ℕ) (r : RingBuffer α) : ℕ := (r.head + n - r.tail) % n

/-- The elements in a ring of `n` cells, oldest first. -/
def contents (n : ℕ) (r : RingBuffer α) : List α :=
  (List.range (r.len n)).map fun i ↦ r.cells ((r.tail + i) % n)

/-- Append an element, or leave the ring alone if it is full. -/
def push (n : ℕ) (r : RingBuffer α) (x : α) : RingBuffer α :=
  if (r.head + 1) % n ≠ r.tail then
    { r with cells := Function.update r.cells r.head x, head := (r.head + 1) % n }
  else r

/-- Drop the oldest element. -/
def pop (n : ℕ) (r : RingBuffer α) : RingBuffer α := { r with tail := (r.tail + 1) % n }

/-- The two indices are inside the ring. -/
structure InRange (n : ℕ) (r : RingBuffer α) : Prop where
  head : r.head < n
  tail : r.tail < n

variable {n : ℕ} {r : RingBuffer α}

@[simp] theorem length_contents : (r.contents n).length = r.len n := by simp [contents]

/-- The length of the stretch, without a remainder. -/
theorem InRange.len_eq (h : r.InRange n) :
    r.len n = if r.tail ≤ r.head then r.head - r.tail else r.head + n - r.tail := by
  have hh := h.head
  have ht := h.tail
  rw [len]
  split
  · rw [show r.head + n - r.tail = r.head - r.tail + n by omega, Nat.add_mod_right,
      Nat.mod_eq_of_lt (by omega)]
  · rw [Nat.mod_eq_of_lt (by omega)]

theorem InRange.len_lt (h : r.InRange n) : r.len n < n :=
  Nat.mod_lt _ (Nat.zero_lt_of_lt h.head)

theorem InRange.head_eq (h : r.InRange n) : (r.tail + r.len n) % n = r.head := by
  have hh := h.head
  have ht := h.tail
  rw [h.len_eq]
  split
  · rw [show r.tail + (r.head - r.tail) = r.head by omega, Nat.mod_eq_of_lt hh]
  · rw [show r.tail + (r.head + n - r.tail) = r.head + n by omega, Nat.add_mod_right,
      Nat.mod_eq_of_lt hh]

/-- **Empty** is when head and tail meet. -/
theorem InRange.contents_eq_nil_iff (h : r.InRange n) : r.contents n = [] ↔ r.head = r.tail := by
  have hh := h.head
  have ht := h.tail
  rw [← List.length_eq_zero_iff, length_contents, h.len_eq]
  split <;> omega

/-- **Full** is when the head is right behind the tail. -/
theorem InRange.full_iff (h : r.InRange n) : (r.head + 1) % n = r.tail ↔ r.len n + 1 = n := by
  have hh := h.head
  have ht := h.tail
  rw [h.len_eq]
  rcases Nat.lt_or_ge (r.head + 1) n with hlt | hge
  · rw [Nat.mod_eq_of_lt hlt]
    split <;> omega
  · rw [show r.head + 1 = n by omega, Nat.mod_self]
    split <;> omega

theorem InRange.push (h : r.InRange n) (x : α) : (r.push n x).InRange n := by
  rw [RingBuffer.push]
  split
  · exact ⟨Nat.mod_lt _ (Nat.zero_lt_of_lt h.head), h.tail⟩
  · exact h

theorem InRange.pop (h : r.InRange n) : (r.pop n).InRange n :=
  ⟨h.head, Nat.mod_lt _ (Nat.zero_lt_of_lt h.head)⟩

/-- Two offsets from one index name the same cell only if they are equal. -/
theorem add_mod_inj {a i j : ℕ} (hi : i < n) (hj : j < n) :
    (a + i) % n = (a + j) % n ↔ i = j := by
  refine ⟨?_, fun h ↦ h ▸ rfl⟩
  intro h
  have hij : i % n = j % n := Nat.ModEq.add_left_cancel' a h
  rwa [Nat.mod_eq_of_lt hi, Nat.mod_eq_of_lt hj] at hij

/-- Pushing stores an element exactly when fewer than `n - 1` are stored. -/
theorem InRange.push_eq (h : r.InRange n) (x : α) :
    r.push n x =
      if (r.contents n).length < n - 1 then
        { r with cells := Function.update r.cells r.head x, head := (r.head + 1) % n }
      else r := by
  have hlen := h.len_lt
  rw [length_contents, RingBuffer.push]
  by_cases hf : (r.head + 1) % n = r.tail
  · rw [if_neg (not_not_intro hf), if_neg (by have := h.full_iff.mp hf; omega)]
  · rw [if_pos hf, if_pos (by have := mt h.full_iff.mpr hf; omega)]

/-- **Pushing appends**, unless the ring is full. -/
theorem InRange.contents_push (h : r.InRange n) (x : α) :
    (r.push n x).contents n =
      if (r.contents n).length < n - 1 then r.contents n ++ [x] else r.contents n := by
  have hlen := h.len_lt
  by_cases hroom : (r.contents n).length < n - 1
  · have hpush : r.push n x =
        { r with cells := Function.update r.cells r.head x, head := (r.head + 1) % n } :=
      (h.push_eq x).trans (if_pos hroom)
    have hne : (r.head + 1) % n ≠ r.tail := fun he ↦ by
      have := h.full_iff.mp he
      rw [length_contents] at hroom
      omega
    have hlen' : (r.push n x).len n = r.len n + 1 := by
      have hr := h.push x
      have hh := h.head
      have ht := h.tail
      rw [hr.len_eq, h.len_eq, hpush]
      simp only
      rcases Nat.lt_or_ge (r.head + 1) n with hlt | hge
      · rw [Nat.mod_eq_of_lt hlt] at hne ⊢
        split <;> split <;> omega
      · rw [show r.head + 1 = n by omega, Nat.mod_self] at hne ⊢
        split <;> split <;> omega
    rw [if_pos hroom, contents, hlen', List.range_succ, List.map_append, List.map_singleton,
      contents, hpush]
    simp only
    congr 1
    · refine List.map_congr_left fun i hi ↦ ?_
      rw [List.mem_range] at hi
      -- the cell written is the one at offset `len`, and `i` is a smaller offset
      rw [Function.update_of_ne]
      rw [← h.head_eq, Ne, add_mod_inj (by omega) hlen]
      omega
    · rw [h.head_eq, Function.update_self]
  · rw [if_neg hroom, h.push_eq, if_neg hroom]

/-- **Popping takes the oldest element off.** -/
theorem InRange.contents_eq_cons (h : r.InRange n) (hne : r.head ≠ r.tail) :
    r.contents n = r.cells r.tail :: (r.pop n).contents n := by
  have hh := h.head
  have ht := h.tail
  have hlen : r.len n = (r.pop n).len n + 1 := by
    rw [h.pop.len_eq, h.len_eq, RingBuffer.pop]
    simp only
    rcases Nat.lt_or_ge (r.tail + 1) n with hlt | hge
    · rw [Nat.mod_eq_of_lt hlt]
      split <;> split <;> omega
    · rw [show r.tail + 1 = n by omega, Nat.mod_self]
      split <;> split <;> omega
  rw [contents, hlen, List.range_succ_eq_map, List.map_cons, List.map_map, Nat.add_zero,
    Nat.mod_eq_of_lt ht, contents]
  congr 1
  refine List.map_congr_left fun i _ ↦ ?_
  show r.cells ((r.tail + (i + 1)) % n) = r.cells (((r.tail + 1) % n + i) % n)
  rw [Nat.mod_add_mod, Nat.add_assoc, Nat.add_comm 1 i]

end RingBuffer

/-! ## The queue it is -/

/-- A bounded queue with its history. -/
structure Fifo (α : Type) where
  /-- What is waiting, oldest first. -/
  queue : List α
  /-- What was ever let in. -/
  accepted : List α
  /-- What was ever handed out. -/
  delivered : List α

namespace Fifo

variable {α : Type}

/-- Nothing is waiting and nothing has happened. -/
def empty : Fifo α := ⟨[], [], []⟩

/-- What can happen to a queue. -/
inductive Op (α : Type) where
  /-- An element arrives. -/
  | push (x : α)
  /-- The oldest element is taken. -/
  | pop

/-- A queue of capacity `k`: an element that finds it full is dropped. -/
def step (k : ℕ) (q : Fifo α) : Op α → Fifo α
  | .push x =>
    if q.queue.length < k then
      { q with queue := q.queue ++ [x], accepted := q.accepted ++ [x] }
    else q
  | .pop =>
    match q.queue with
    | [] => q
    | x :: rest => { q with queue := rest, delivered := q.delivered ++ [x] }

/-- Everything let in has been handed out, in order, or is still waiting. -/
def Balanced (q : Fifo α) : Prop := q.delivered ++ q.queue = q.accepted

theorem balanced_empty : (empty : Fifo α).Balanced := rfl

theorem Balanced.step {q : Fifo α} (h : q.Balanced) (k : ℕ) (op : Op α) :
    (q.step k op).Balanced := by
  simp only [Balanced] at h ⊢
  cases op with
  | push x =>
    rw [Fifo.step]
    split
    · simp only; rw [← List.append_assoc, h]
    · exact h
  | pop =>
    rw [Fifo.step]
    split
    · exact h
    · rename_i x rest hq
      rw [hq] at h
      simp only
      rw [List.append_assoc, List.singleton_append, h]

/-- **Nothing is lost, doubled or reordered** in any run. -/
theorem balanced_run (k : ℕ) (ops : List (Op α)) : (ops.foldl (Fifo.step k) empty).Balanced :=
  List.foldlRecOn ops (Fifo.step k) balanced_empty fun _ h op _ ↦ h.step k op

end Fifo
