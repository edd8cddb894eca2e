import Mathlib.Data.List.Induction
import Mathlib.Data.Nat.Notation
import Mathlib.Logic.Function.Basic

/-!
# Stores

A store holds a value under every address.  It is given requests one after the other: to hand out
the values under some addresses, or to take new ones.  What it hands out is, for each address, the
value that was last put there, or the one it had at the beginning (`answers_getElem?`).

That is the whole of what anybody wants from it, so it is also what there is to show of something
that claims to be a store: that it does what `Store.run` does.
-/

set_option autoImplicit false

namespace Store

variable {A V : Type} [DecidableEq A]

/-- A request. -/
inductive Op (A V : Type) where
  /-- Hand out the values under these addresses. -/
  | read (addrs : List A)
  /-- Take these values under their addresses, in this order. -/
  | write (items : List (A × V))

/-- What a request puts into the store. -/
def Op.items : Op A V → List (A × V)
  | .read _ => []
  | .write items => items

/-- The store after some values have been put into it. -/
def put (s : A → V) (items : List (A × V)) : A → V :=
  items.foldl (fun s item ↦ Function.update s item.1 item.2) s

/-- What a request is answered with. -/
def answer (s : A → V) : Op A V → List V
  | .read addrs => addrs.map s
  | .write _ => []

/-- The answers to some requests, and the store after them. -/
def run : (A → V) → List (Op A V) → List (List V) × (A → V)
  | s, [] => ([], s)
  | s, op :: ops =>
    let r := run (put s op.items) ops
    (answer s op :: r.1, r.2)

/-- The value that was put last under an address, if there was one. -/
def last (a : A) (items : List (A × V)) : Option V :=
  (items.reverse.find? (·.1 = a)).map Prod.snd

/-! ## The last value -/

section
variable (s : A → V) (a : A)

theorem put_append (items items' : List (A × V)) :
    put s (items ++ items') = put (put s items) items' := List.foldl_append ..

theorem put_concat (items : List (A × V)) (b : A) (v : V) :
    put s (items ++ [(b, v)]) = Function.update (put s items) b v := put_append s items [(b, v)]

theorem last_concat (items : List (A × V)) (b : A) (v : V) :
    last a (items ++ [(b, v)]) = if b = a then some v else last a items := by
  rw [last, List.reverse_append, List.reverse_singleton, List.singleton_append, List.find?_cons]
  split
  · rename_i heq
    rw [if_pos (of_decide_eq_true heq)]
    rfl
  · rename_i hne
    rw [if_neg (of_decide_eq_false hne)]
    rfl

/-- **Under an address is what was put there last.** -/
theorem put_apply (items : List (A × V)) : put s items a = (last a items).getD (s a) := by
  induction items using List.reverseRecOn with
  | nil => rfl
  | append_singleton items item ih =>
    obtain ⟨b, v⟩ := item
    rw [put_concat, last_concat, Function.update_apply]
    by_cases hb : b = a
    · rw [if_pos hb, if_pos hb.symm]
      rfl
    · rw [if_neg hb, if_neg (Ne.symm hb), ih]

end

/-! ## Runs -/

section
variable (s : A → V) (ops : List (Op A V))

theorem length_answers : (run s ops).1.length = ops.length := by
  induction ops generalizing s with
  | nil => rfl
  | cons op ops ih => exact congrArg Nat.succ (ih _)

/-- A request is answered from what the ones before it have left. -/
theorem answers_getElem? (i : ℕ) :
    (run s ops).1[i]? = ops[i]?.map (answer (put s ((ops.take i).flatMap Op.items))) := by
  induction ops generalizing s i with
  | nil => rfl
  | cons op ops ih =>
    cases i with
    | zero => rfl
    | succ i =>
      rw [List.take_succ_cons, List.flatMap_cons, put_append]
      exact ih _ i

end

end Store
