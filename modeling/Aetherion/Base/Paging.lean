import Aetherion.Base.Ram

/-!
# Four-level page walks

The translation of a virtual address by the processor.  A table has 512 entries of 8 bytes.  The
walk starts in a table of level `3` and uses nine bits of the address at each level; it ends at an
entry that is not present, at an entry for a large page, or in a table of level `0`.

What the walk reads goes through a `Paging.Fetch`, which answers `none` for what cannot be read; so
a walk through the tables of a program and nothing else is `walk (fetchIn …)`, and a walk through
all of memory is `walk (fetch …)`.
-/

set_option autoImplicit false

namespace Paging

/-- The entry at a physical address, if it can be read. -/
abbrev Fetch := ℕ → Option ℕ

/-- All of memory can be read. -/
def fetch (m : Ram) : Fetch := fun a ↦ some (m.word a 8)

/-- Only what lies in these `n` bytes can be read. -/
def fetchIn (m : Ram) (base n : ℕ) : Fetch := fun a ↦
  if base ≤ a ∧ a + 8 ≤ base + n then some (m.word a 8) else none

/-- Bit 0 of an entry. -/
def Present (e : ℕ) : Prop := e % 2 = 1

/-- Bit 7 of an entry. -/
def PageSize (e : ℕ) : Prop := e / 2 ^ 7 % 2 = 1

instance (e : ℕ) : Decidable (Present e) := inferInstanceAs (Decidable (_ = _))

instance (e : ℕ) : Decidable (PageSize e) := inferInstanceAs (Decidable (_ = _))

/-- The address in an entry of something that is `2 ^ k` bytes large: the bits from `k` to 51. -/
def address (e k : ℕ) : ℕ := e % 2 ^ 52 / 2 ^ k * 2 ^ k

/-- An entry in a table of this level is for `2 ^ shift level` bytes. -/
def shift (level : ℕ) : ℕ := 12 + 9 * level

/-- The number of the entry for a virtual address. -/
def index (v level : ℕ) : ℕ := v / 2 ^ shift level % 512

/-- The walk from a table of a level on.  There are large pages at level `1` and `2`. -/
def walk (fetch : Fetch) (v : ℕ) : ℕ → ℕ → Option ℕ
  | 0, table =>
    match fetch (table + 8 * index v 0) with
    | none => none
    | some e => if Present e then some (address e (shift 0) + v % 2 ^ shift 0) else none
  | level + 1, table =>
    match fetch (table + 8 * index v (level + 1)) with
    | none => none
    | some e =>
      if Present e then
        if PageSize e then
          if level < 2 then some (address e (shift (level + 1)) + v % 2 ^ shift (level + 1))
          else none
        else walk fetch v level (address e (shift 0))
      else none

variable {f : Fetch} {v level table e : ℕ}

/-- An address that the level below covers uses the first entry. -/
theorem index_eq_zero (hv : v < 2 ^ shift level) : index v level = 0 := by
  rw [index, Nat.div_eq_of_lt hv]

/-- The walk goes down through an entry for a table. -/
theorem walk_table (he : f (table + 8 * index v (level + 1)) = some e) (hpresent : Present e)
    (hsize : ¬PageSize e) : walk f v (level + 1) table = walk f v level (address e (shift 0)) := by
  rw [walk, he]
  simp only [if_pos hpresent, if_neg hsize]

/-- The walk ends at an entry for a large page. -/
theorem walk_page (he : f (table + 8 * index v (level + 1)) = some e) (hpresent : Present e)
    (hsize : PageSize e) (hlevel : level < 2) : walk f v (level + 1) table =
      some (address e (shift (level + 1)) + v % 2 ^ shift (level + 1)) := by
  rw [walk, he]
  simp only [if_pos hpresent, if_pos hsize, if_pos hlevel]

/-- The walk ends where nothing can be read. -/
theorem walk_eq_none (hnone : f (table + 8 * index v level) = none) :
    walk f v level table = none := by
  cases level <;> rw [walk, hnone]

/-- The walk ends at an entry that is not present. -/
theorem walk_not_present (he : f (table + 8 * index v level) = some e) (hpresent : ¬Present e) :
    walk f v level table = none := by
  cases level <;> rw [walk, he] <;> exact if_neg hpresent

/-- **The walk comes to an entry that is not present**, through entries for tables. -/
inductive FindsAbsent (f : Fetch) (v : ℕ) : ℕ → ℕ → Prop where
  /-- It is the first one. -/
  | here {level table e : ℕ} (he : f (table + 8 * index v level) = some e)
      (habsent : ¬Present e) : FindsAbsent f v level table
  /-- It is further down. -/
  | deeper {level table e : ℕ} (he : f (table + 8 * index v (level + 1)) = some e)
      (hpresent : Present e) (hsize : ¬PageSize e)
      (hnext : FindsAbsent f v level (address e (shift 0))) : FindsAbsent f v (level + 1) table

/-- Then there is no translation. -/
theorem FindsAbsent.walk_eq_none (h : FindsAbsent f v level table) :
    walk f v level table = none := by
  induction h with
  | here he habsent => exact walk_not_present he habsent
  | deeper he hpresent hsize _ ih => exact (walk_table he hpresent hsize).trans ih

theorem index_lt : index v level < 512 := Nat.mod_lt _ (by decide)

/-- An address that this level covers, and that uses its first entry, is covered by that entry. -/
theorem lt_of_index_eq_zero (hv : v < 2 ^ shift (level + 1)) (hindex : index v level = 0) :
    v < 2 ^ shift level := by
  have hshift : 2 ^ shift (level + 1) = 512 * 2 ^ shift level := by
    rw [shift, shift, Nat.mul_succ, ← Nat.add_assoc, Nat.pow_add _ _ 9, Nat.mul_comm]
  have hlt : v / 2 ^ shift level < 512 := by
    rw [Nat.div_lt_iff_lt_mul (Nat.two_pow_pos _)]
    omega
  rw [index, Nat.mod_eq_of_lt hlt] at hindex
  exact (Nat.div_eq_zero_iff_lt (Nat.two_pow_pos _)).mp hindex

end Paging
