import Aetherion.Base.Bump
import Aetherion.Base.Memory
import Aetherion.Ahci.Driver

/-!
# The memory of the AHCI driver

`ahci_alloc_aligned` is a bump allocator (`Bump`) in 64-bit arithmetic: rounding up is an addition
and a mask.  As long as the exact pointer stays below `2 ^ 64` nothing wraps around and the two
compute the same (`placed_allocAll`), so the blocks are aligned and have no byte in common
(`allocated_apart`).
-/

set_option autoImplicit false

namespace Aetherion.Ahci

/-- The arguments of a call.  The alignment is a power of two. -/
structure AllocCall where
  size : UInt64
  align : UInt64
  align_pow : ∃ k, align.toNat = 2 ^ k

/-- A call, and what it has returned. -/
structure Allocated where
  addr : UInt64
  call : AllocCall

/-- What some calls return, one after the other. -/
def allocAll : UInt64 → List AllocCall → List Allocated
  | _, [] => []
  | ptr, c :: cs =>
    let r := ahciAllocAligned ptr c.size c.align
    ⟨r.1, c⟩ :: allocAll r.2 cs

/-- `g_mem_alloc_ptr` after them. -/
def allocPtr (ptr : UInt64) (calls : List AllocCall) : UInt64 :=
  calls.foldl (fun p c ↦ (ahciAllocAligned p c.size c.align).2) ptr

/-! ## The exact addresses -/

theorem AllocCall.align_pos (c : AllocCall) : 0 < c.align.toNat := by
  obtain ⟨k, hk⟩ := c.align_pow
  rw [hk]
  exact Nat.two_pow_pos k

/-- The call as a request. -/
def AllocCall.request (c : AllocCall) : Bump.Request := ⟨c.size.toNat, c.align.toNat, c.align_pos⟩

/-- The block as it is placed. -/
def Allocated.placed (a : Allocated) : Bump.Placed := ⟨a.addr.toNat, a.call.request⟩

/-- The pointer after some calls, without wrapping around. -/
def exactPtr (ptr : UInt64) (calls : List AllocCall) : ℕ :=
  Bump.finish ptr.toNat (calls.map AllocCall.request)

section
variable {ptr : UInt64} {c : AllocCall} {calls : List AllocCall}

/-- **The mask rounds up**, as long as the result is below `2 ^ 64`. -/
theorem toNat_ahciAllocAligned (h : Bump.alignUp ptr.toNat c.align.toNat < 2 ^ 64) :
    (ahciAllocAligned ptr c.size c.align).1.toNat = Bump.alignUp ptr.toNat c.align.toNat := by
  obtain ⟨k, hk⟩ := c.align_pow
  have hpos := Nat.two_pow_pos k
  have hk64 : k < 64 := by
    rw [← Nat.pow_lt_pow_iff_right (a := 2) (by decide), ← hk]
    exact c.align.toNat_lt
  -- a multiple of the alignment below `2 ^ 64` leaves room for the alignment
  have hroom : Bump.alignUp ptr.toNat c.align.toNat + c.align.toNat ≤ 2 ^ 64 := by
    refine Bump.alignUp_add_le h ?_
    rw [hk]
    exact Nat.pow_dvd_pow 2 (by omega)
  have hle := Bump.le_alignUp c.align_pos ptr.toNat
  have hmask : (c.align - 1).toNat = 2 ^ k - 1 := by
    rw [UInt64.toNat_sub_of_le _ _ (UInt64.le_iff_toNat_le.mpr (by rw [hk]; exact hpos)), hk]
    rfl
  have hsum : (ptr + c.align - 1).toNat = ptr.toNat + 2 ^ k - 1 := by
    rw [UInt64.toNat_sub, UInt64.toNat_add, hk, show UInt64.toNat 1 = 1 from rfl]
    omega
  have hdown := Words.toNat_and_not_mask (ptr + c.align - 1) (c.align - 1) hmask
  have hdiv := Nat.div_add_mod' (ptr.toNat + 2 ^ k - 1) (2 ^ k)
  rw [ahciAllocAligned, hdown, hsum, Bump.alignUp, hk]
  omega

/-- **One call.** -/
theorem ahciAllocAligned_next (h : Bump.next ptr.toNat c.request < 2 ^ 64) :
    (ahciAllocAligned ptr c.size c.align).1.toNat = Bump.alignUp ptr.toNat c.request.align ∧
      (ahciAllocAligned ptr c.size c.align).2.toNat = Bump.next ptr.toNat c.request := by
  have haddr : (ahciAllocAligned ptr c.size c.align).1.toNat =
      Bump.alignUp ptr.toNat c.align.toNat :=
    toNat_ahciAllocAligned (Nat.lt_of_le_of_lt (Nat.le_add_right ..) h)
  refine ⟨haddr, ?_⟩
  change ((ahciAllocAligned ptr c.size c.align).1 + c.size).toNat = _
  rw [UInt64.toNat_add, haddr]
  exact Nat.mod_eq_of_lt h

/-- **Any number of calls**: the addresses and the pointer are the exact ones. -/
theorem placed_allocAll (h : exactPtr ptr calls < 2 ^ 64) :
    (allocAll ptr calls).map Allocated.placed =
        Bump.place ptr.toNat (calls.map AllocCall.request) ∧
      (allocPtr ptr calls).toNat = exactPtr ptr calls := by
  induction calls generalizing ptr with
  | nil => exact ⟨rfl, rfl⟩
  | cons c cs ih =>
    have hfirst : Bump.next ptr.toNat c.request < 2 ^ 64 :=
      Nat.lt_of_le_of_lt (Bump.le_finish _ (cs.map AllocCall.request)) h
    obtain ⟨haddr, hptr⟩ := ahciAllocAligned_next hfirst
    have hrest : exactPtr (ahciAllocAligned ptr c.size c.align).2 cs = exactPtr ptr (c :: cs) := by
      rw [exactPtr, hptr]
      rfl
    obtain ⟨hplaced, hlast⟩ := ih (hrest.trans_lt h)
    refine ⟨?_, hlast.trans hrest⟩
    rw [hptr] at hplaced
    rw [allocAll, List.map_cons, hplaced, List.map_cons, Bump.place, Allocated.placed, haddr]

/-- Every call returns once. -/
theorem map_call_allocAll (ptr : UInt64) (calls : List AllocCall) :
    (allocAll ptr calls).map Allocated.call = calls := by
  induction calls generalizing ptr with
  | nil => rfl
  | cons c cs ih => rw [allocAll, List.map_cons, ih]

theorem allocAll_append (ptr : UInt64) (calls calls' : List AllocCall) :
    allocAll ptr (calls ++ calls') =
      allocAll ptr calls ++ allocAll (allocPtr ptr calls) calls' := by
  induction calls generalizing ptr with
  | nil => rfl
  | cons c cs ih =>
    rw [List.cons_append, allocAll, ih]
    rfl

theorem allocPtr_append (ptr : UInt64) (calls calls' : List AllocCall) :
    allocPtr ptr (calls ++ calls') = allocPtr (allocPtr ptr calls) calls' := List.foldl_append ..

/-! ## The blocks -/

/-- **A block is aligned**, and lies between the pointers. -/
theorem dvd_addr (h : exactPtr ptr calls < 2 ^ 64) {a : Allocated} (ha : a ∈ allocAll ptr calls) :
    a.call.align.toNat ∣ a.addr.toNat ∧ ptr.toNat ≤ a.addr.toNat ∧
      a.addr.toNat + a.call.size.toNat ≤ exactPtr ptr calls := by
  have hmem : a.placed ∈ Bump.place ptr.toNat (calls.map AllocCall.request) := by
    rw [← (placed_allocAll h).1]
    exact List.mem_map_of_mem ha
  exact ⟨Bump.dvd_of_mem_place hmem, Bump.le_of_mem_place hmem⟩

/-- **Two blocks have no byte in common.** -/
theorem allocAll_pairwise (h : exactPtr ptr calls < 2 ^ 64) :
    (allocAll ptr calls).Pairwise fun a b ↦
      Mem.Apart a.addr a.call.size.toNat b.addr b.call.size.toNat := by
  have hplaced := Bump.place_pairwise ptr.toNat (calls.map AllocCall.request)
  rw [← (placed_allocAll h).1, List.pairwise_map] at hplaced
  refine hplaced.imp_of_mem fun {a b} _ hb hab ↦ Mem.apart_of_le hab ?_
  exact ((dvd_addr h hb).2.2.trans_lt h).le

end

end Aetherion.Ahci
