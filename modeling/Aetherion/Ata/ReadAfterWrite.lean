import Aetherion.Ata.Drive

/-!
# What was written is read back

On a 48-bit drive the driver does not always reach the sector that was meant (`Ata.Addressing`),
but it makes the same mistake in reading and in writing, and no two sectors get mixed up: the
address on the wire determines the address that was meant (`wireLba_injective`).  So a file system
that only ever uses this driver would not notice.  `read_after_write` says so: a request that is
written and read back comes back as it was, and a request for other sectors is not disturbed.
-/

set_option autoImplicit false

namespace Aetherion.Ata

open Driver Driver.Prog Driver.Peripheral Storage

/-! ## Addresses -/

/-- **No two sectors share an address on the wire.** -/
theorem wireLba_injective {x y : UInt64} {lba48 : Bool}
    (hx : x.toNat < if lba48 then 2 ^ 48 else 2 ^ 28)
    (hy : y.toNat < if lba48 then 2 ^ 48 else 2 ^ 28) (h : wireLba x lba48 = wireLba y lba48) :
    x.toNat = y.toNat := by
  cases lba48 with
  | true =>
    simp only [if_true] at hx hy
    simp only [wireLba, if_true] at h
    have hlow : x.toNat % 2 ^ 24 = y.toNat % 2 ^ 24 := by omega
    have h40 : x.toNat / 2 ^ 40 % 256 = y.toNat / 2 ^ 40 % 256 := by omega
    have h32 : x.toNat / 2 ^ 32 % 256 = y.toNat / 2 ^ 32 % 256 := by omega
    have h24 : x.toNat / 2 ^ 24 % 256 = y.toNat / 2 ^ 24 % 256 := by omega
    -- the four parts make up a number of 48 bits
    omega
  | false =>
    simp only [Bool.false_eq_true, if_false] at hx hy
    simp only [wireLba, Bool.false_eq_true, if_false] at h
    omega

variable {lba lba' : UInt64} {count count' : UInt32} {lba48 : Bool}

/-- The address of one sector of a request. -/
theorem Addressable.lt (h : Addressable lba count lba48) {k : ℕ} (hk : k < count.toNat) :
    (lba + (UInt32.ofNat k).toUInt64).toNat < if lba48 then 2 ^ 48 else 2 ^ 28 := by
  rw [h.toNat_add hk]
  exact Nat.lt_of_lt_of_le (by omega) h

/-- Two sectors of two requests that share an address on the wire are the same sector. -/
theorem Addressable.eq_of_wireLba (h : Addressable lba count lba48)
    (h' : Addressable lba' count' lba48) {k k' : ℕ} (hk : k < count.toNat) (hk' : k' < count'.toNat)
    (heq : wireLba (lba + (UInt32.ofNat k).toUInt64) lba48 =
      wireLba (lba' + (UInt32.ofNat k').toUInt64) lba48) : lba.toNat + k = lba'.toNat + k' := by
  have hinj := wireLba_injective (h.lt hk) (h'.lt hk') heq
  rwa [h.toNat_add hk, h'.toNat_add hk'] at hinj

/-! ## What is stored -/

variable (cells : Cells) (buf : UInt32 → UInt16)

theorem writeWords_apply (l : ℕ) (words : ℕ → UInt16) (n : ℕ) (u : Bool) (a j : ℕ) :
    writeWords cells l words n u a j =
      if u = true ∧ a = l ∧ j < n then words j else cells u a j := by
  induction n with
  | zero => simp [writeWords]
  | succ n ih =>
    rw [writeWords, Cells.put, ih]
    by_cases hu : u = true ∧ a = l
    · obtain ⟨rfl, rfl⟩ := hu
      by_cases hj : j = n
      · subst hj
        simp
      · simp only [hj, true_and, and_false, if_false]
        exact if_congr (by omega) rfl rfl
    · rw [if_neg (by tauto), if_neg (by tauto), if_neg (by tauto)]

/-- A sector that is not written keeps what it has. -/
theorem written_of_ne {n : ℕ} {u : Bool} {a : ℕ}
    (hne : ∀ k < n, wireLba (lba + (UInt32.ofNat k).toUInt64) lba48 ≠ a) (j : ℕ) :
    written cells lba lba48 buf n u a j = cells u a j := by
  induction n with
  | zero => rfl
  | succ n ih =>
    rw [written, writeWords_apply, if_neg fun h ↦ hne n (Nat.lt_succ_self n) h.2.1.symm]
    exact ih fun k hk ↦ hne k (Nat.lt_succ_of_lt hk)

/-- A sector that is written gets its words. -/
theorem written_sector (h : Addressable lba count lba48) {n k j : ℕ} (hn : n ≤ count.toNat)
    (hk : k < n) (hj : j < 256) :
    written cells lba lba48 buf n true (wireLba (lba + (UInt32.ofNat k).toUInt64) lba48) j =
      bufferWords buf (.ofNat k) j := by
  induction n with
  | zero => exact absurd hk (Nat.not_lt_zero k)
  | succ n ih =>
    rw [written, writeWords_apply]
    by_cases heq : wireLba (lba + (UInt32.ofNat k).toUInt64) lba48 =
        wireLba (lba + (UInt32.ofNat n).toUInt64) lba48
    · have hkn := h.eq_of_wireLba h (by omega) (by omega) heq
      obtain rfl : k = n := by omega
      rw [if_pos ⟨rfl, rfl, hj⟩]
    · have hkn : k ≠ n := fun hkn ↦ heq (by rw [hkn])
      rw [if_neg fun h ↦ heq h.2.1]
      exact ih (by omega) (by omega)

/-! ## What is read -/

/-- The place of a word in the buffer, as the driver computes it. -/
theorem index_eq (k j : ℕ) :
    UInt32.ofNat k * 256 + UInt32.ofNat j = UInt32.ofNat (256 * k + j) := by
  rw [UInt32.ofNat_add, UInt32.ofNat_mul, UInt32.mul_comm]
  rfl

theorem ofNat_eq_iff {n m : ℕ} (hn : n < 2 ^ 32) (hm : m < 2 ^ 32) :
    UInt32.ofNat n = UInt32.ofNat m ↔ n = m := by
  rw [← UInt32.toNat_inj, UInt32.toNat_ofNat', UInt32.toNat_ofNat', Nat.mod_eq_of_lt hn,
    Nat.mod_eq_of_lt hm]

theorem readWords_apply {k : ℕ} (hk : k < 2 ^ 24) (words : ℕ → UInt16) {j : ℕ} (hj : j ≤ 256)
    {n : ℕ} (hn : n < 2 ^ 32) :
    readWords buf (.ofNat k) words j (.ofNat n) =
      if 256 * k ≤ n ∧ n < 256 * k + j then words (n - 256 * k) else buf (.ofNat n) := by
  induction j with
  | zero => rw [readWords, if_neg (by omega)]
  | succ j ih =>
    rw [readWords, index_eq, Function.update_apply, ih (by omega)]
    simp only [ofNat_eq_iff hn (show 256 * k + j < 2 ^ 32 by omega)]
    split_ifs with h₁ h₂ h₃ h₃
    · rw [h₁, Nat.add_sub_cancel_left]
    · omega
    · rfl
    · omega
    · omega
    · rfl

/-- **The words of a request** are in the buffer in order. -/
theorem readBuffer_apply {m : ℕ} (hm : m ≤ 2 ^ 24) {n : ℕ} (hn : n < 256 * m) :
    readBuffer cells lba lba48 buf m (.ofNat n) =
      cells true (wireLba (lba + (UInt32.ofNat (n / 256)).toUInt64) lba48) (n % 256) := by
  induction m with
  | zero => omega
  | succ m ih =>
    rw [readBuffer, readWords_apply _ (by omega) _ le_rfl (by omega)]
    by_cases hlast : 256 * m ≤ n
    · rw [if_pos ⟨hlast, by omega⟩, show n / 256 = m by omega, show n % 256 = n - 256 * m by omega]
    · rw [if_neg (by omega)]
      exact ih (by omega) (by omega)

variable {cells}

/-- What is read depends on the sectors of the request only. -/
theorem readBuffer_congr {cells' : Cells} {m : ℕ}
    (h : ∀ k < m, cells true (wireLba (lba + (UInt32.ofNat k).toUInt64) lba48) =
      cells' true (wireLba (lba + (UInt32.ofNat k).toUInt64) lba48)) :
    readBuffer cells lba lba48 buf m = readBuffer cells' lba lba48 buf m := by
  induction m with
  | zero => rfl
  | succ m ih =>
    rw [readBuffer, readBuffer, ih fun k hk ↦ h k (Nat.lt_succ_of_lt hk), h m (Nat.lt_succ_self m)]

/-! ## Read after write -/

/-- **What was written is read back**, word for word and in order, and a request in the same
address mode for sectors that were not written reads what it would have read before. -/
theorem read_after_write (base : UInt16) (d₀ : Drives) (lba : UInt64) (count : UInt32)
    (lba48 : Bool) (haddr : Addressable lba count lba48) (hcount : count.toNat ≤ 2 ^ 24)
    (words buf : UInt32 → UInt16) (h : Trace machine) :
    let dev := (drives base).device d₀
    let write := ataPioWrite base lba count words lba48
    let h' := h ++ write.trace dev h
    write.value dev h = 0 ∧
      ((ataPioRead base lba count buf lba48).value dev h').1 = 0 ∧
      (∀ n < 256 * count.toNat,
        ((ataPioRead base lba count buf lba48).value dev h').2 (.ofNat n) = words (.ofNat n)) ∧
      ∀ lba' count' buf', Addressable lba' count' lba48 →
        (∀ k < count.toNat, ∀ k' < count'.toNat, lba.toNat + k ≠ lba'.toNat + k') →
        (ataPioRead base lba' count' buf' lba48).value dev h' =
          (ataPioRead base lba' count' buf' lba48).value dev h := by
  intro dev write h'
  let d := (drives base).after d₀ h
  have hrun : (drives base).Runs d₀ write d 0 (d.afterWrites lba lba48 words count.toNat) :=
    runs_ataPioWrite lba count words lba48
  obtain ⟨hwrite, hafter⟩ := hrun h rfl
  have hread (lba' : UInt64) (count' : UInt32) (buf' : UInt32 → UInt16) :
      (ataPioRead base lba' count' buf' lba48).value dev h' =
        (0, readBuffer (written d.cells lba lba48 words count.toNat) lba' lba48 buf'
          count'.toNat) := by
    rw [← cells_afterWrites]
    exact (runs_ataPioRead lba' count' buf' lba48 h' hafter).1
  refine ⟨hwrite, by rw [hread], fun n hn ↦ ?_, fun lba' count' buf' haddr' hdisjoint ↦ ?_⟩
  · rw [hread]
    simp only
    rw [readBuffer_apply _ _ hcount hn, written_sector _ _ haddr le_rfl (by omega) (by omega),
      bufferWords, index_eq, Nat.div_add_mod]
  · rw [hread, (runs_ataPioRead lba' count' buf' lba48 h rfl).1]
    refine congrArg (Prod.mk 0) (readBuffer_congr _ fun k' hk' ↦ ?_)
    funext j
    refine written_of_ne _ _ (fun k hk heq ↦ ?_) j
    exact hdisjoint k hk k' hk' (haddr.eq_of_wireLba haddr' hk hk' heq)

/-- Drives of a hundred sectors, with nothing stored on them. -/
def blank : Drives := ⟨default, fun _ _ _ ↦ 0, none, fun _ i ↦ if i = 60 then 100 else 0⟩

/-- A channel with such drives. -/
def blankDrives : Device machine := (drives 0x1F0).device blank

/-- Two sectors that the driver does not address rightly come back all the same: the last word of
the second is the one written. -/
theorem read_after_write_high_sectors :
    ((ataPioRead 0x1F0 0x1000000 2 (fun _ ↦ 0) true).value blankDrives
      ([] ++ (ataPioWrite 0x1F0 0x1000000 2 UInt32.toUInt16 true).trace blankDrives [])).2
        (.ofNat 511) = (UInt32.ofNat 511).toUInt16 := by
  have haddr : Addressable 0x1000000 2 true := by unfold Addressable; decide
  obtain ⟨-, -, hread, -⟩ := read_after_write 0x1F0 blank 0x1000000 2 true haddr (by decide)
    UInt32.toUInt16 (fun _ ↦ 0) []
  have hlt : 511 < 256 * (2 : UInt32).toNat := by decide
  rw [blankDrives, hread 511 hlt]

end Aetherion.Ata
