import Aetherion.Boot.PageTables

/-!
# The page tables of the other boot loader

`protected_mode_entry` in `bootloader.asm` clears three tables, at `0x1000`-`0x3FFF`, and writes one
entry into each of them, with two 32-bit stores.  The walk through these tables gives the first two
megabytes, and everywhere else it comes to an entry that is not present (`identity_maps_2MiB`).

As for `pm_entry`, the direction flag is clear, and all segments are flat.
-/

set_option autoImplicit false

namespace Aetherion.Boot.Pm

/-! ## The code -/

/-- The two stores for an entry. -/
def storeEntry (table v : UInt32) (s : Pm) : Pm := (s.store32 table v).store32 (table + 4) 0

/-- `protected_mode_entry` until paging is on. -/
def protectedModeEntry (s : Pm) : Pm :=
  let s := { s with eax := (s.eax &&& 0xFFFF0000) ||| 0x10, esp := 0x90000 }
  let s := { s with edi := 0x1000, eax := 0, ecx := 4096 * 3 / 4 }.repStosd
  let s := s.storeEntry 0x1000 (0x2000 ||| 0x03)
  let s := s.storeEntry 0x2000 (0x3000 ||| 0x03)
  let s := s.storeEntry 0x3000 0x00000083
  let s := { s with eax := 0x1000 }
  let s := { s with cr3 := s.eax }
  let s := { s with eax := s.cr4 }
  let s := { s with eax := s.eax ||| ((1 : UInt32) <<< 5) }
  let s := { s with cr4 := s.eax }
  -- `rdmsr` and `wrmsr`
  let s := { s with ecx := 0xC0000080, eax := s.efer.toUInt32, edx := (s.efer >>> 32).toUInt32 }
  let s := { s with eax := s.eax ||| ((1 : UInt32) <<< 8) }
  let s := { s with efer := (s.edx.toUInt64 <<< 32) ||| s.eax.toUInt64 }
  let s := { s with eax := s.cr0 }
  let s := { s with eax := s.eax ||| 0x80000000 }
  { s with cr0 := s.eax }

/-! ## The tables -/

variable {s : Pm}

/-- `rep stosd` with zero in EAX. -/
theorem stosd_iterate_zero {n : ℕ} (hedi : s.edi.toNat + 4 * n ≤ 2 ^ 32) (heax : s.eax = 0) :
    ∀ x, s.edi.toNat ≤ x → x < s.edi.toNat + 4 * n → (stosd^[n] s).ram x = 0 := by
  induction n generalizing s with
  | zero =>
    intro x hlow hhigh
    omega
  | succ n ih =>
    intro x hlow hhigh
    have hfirst (hx : x < s.edi.toNat + 4) : s.stosd.ram x = 0 := by
      change s.ram.store s.edi.toNat (Ram.bytes s.eax.toNat 4) x = 0
      rw [heax]
      exact Ram.store_bytes_zero s.ram hlow hx
    rw [Function.iterate_succ_apply]
    rcases n.eq_zero_or_pos with rfl | hpos
    · exact hfirst (by omega)
    · have hnext : s.stosd.edi.toNat = s.edi.toNat + 4 := by
        change (s.edi + 4).toNat = _
        rw [UInt32.toNat_add, show UInt32.toNat 4 = 4 from rfl, Nat.mod_eq_of_lt (by omega)]
      rcases Nat.lt_or_ge x (s.edi.toNat + 4) with hlt | hge
      · -- the rest of the stores come after it
        obtain ⟨ecx, edi, ram, hrun, hram⟩ := stosd_iterate (s := s.stosd) (n := n) (by omega)
        rw [hrun]
        exact (hram x (.inl (by omega))).trans (hfirst hlt)
      · exact ih (s := s.stosd) (by omega) heax x (by omega) (by omega)

theorem repStosd_zero {a n x : ℕ} (hedi : s.edi.toNat = a) (hecx : s.ecx.toNat = n)
    (heax : s.eax = 0) (hle : a + 4 * n ≤ 2 ^ 32) (hlow : a ≤ x) (hhigh : x < a + 4 * n) :
    s.repStosd.ram x = 0 := by
  subst hedi
  rw [repStosd, hecx]
  exact stosd_iterate_zero hle heax x hlow hhigh

/-- The memory after an entry has been stored. -/
theorem storeEntry_ram {table v : UInt32} (htable : table.toNat + 4 < 2 ^ 32) :
    (s.storeEntry table v).ram = (s.ram.store table.toNat (Ram.bytes v.toNat 4)).store
      (table.toNat + 4) (Ram.bytes 0 4) := by
  have hhigh : (table + 4).toNat = table.toNat + 4 := by
    rw [UInt32.toNat_add, show UInt32.toNat 4 = 4 from rfl, Nat.mod_eq_of_lt htable]
  rw [storeEntry, store32, store32, hhigh]
  rfl

/-- The entry is what has been stored. -/
theorem storeEntry_entry {table v : UInt32} (htable : table.toNat + 4 < 2 ^ 32) :
    (s.storeEntry table v).ram.word table.toNat 8 = v.toNat := by
  have hv : v.toNat < 256 ^ 4 := v.toNat_lt
  rw [storeEntry_ram htable, Ram.word_add _ (n := 4) (k := 4), Ram.word_store,
    Ram.word_store_bytes _ _ (by omega), Ram.word_store, Nat.mod_eq_of_lt hv, Nat.zero_mod,
    Nat.mul_zero, Nat.add_zero]

/-- The other entries are what they were. -/
theorem storeEntry_word {table v : UInt32} (htable : table.toNat + 4 < 2 ^ 32) {a : ℕ}
    (ha : a + 8 ≤ table.toNat ∨ table.toNat + 8 ≤ a) :
    (s.storeEntry table v).ram.word a 8 = s.ram.word a 8 := by
  rw [storeEntry_ram htable, Ram.word_store_bytes _ _ (by omega),
    Ram.word_store_bytes _ _ (by omega)]

/-- **A table with one entry.** -/
def OneEntry (m : Ram) (table e : ℕ) : Prop :=
  ∀ i < 512, m.word (table + 8 * i) 8 = if i = 0 then e else 0

theorem oneEntry_of {m : Ram} {table e : ℕ} (hentry : m.word table 8 = e)
    (hrest : ∀ i < 512, i ≠ 0 → m.word (table + 8 * i) 8 = 0) : OneEntry m table e := by
  intro i hi
  split
  · rename_i hzero
    rw [hzero]
    exact hentry
  · exact hrest i hi ‹_›

/-- **What `protected_mode_entry` leaves behind**: three tables with one entry each. -/
theorem protectedModeEntry_spec (s : Pm) :
    s.protectedModeEntry.cr3 = 0x1000 ∧ OneEntry s.protectedModeEntry.ram 0x1000 0x2003 ∧
      OneEntry s.protectedModeEntry.ram 0x2000 0x3003 ∧
      OneEntry s.protectedModeEntry.ram 0x3000 0x83 := by
  obtain ⟨t, ht, hclear⟩ : ∃ t : Pm, s.protectedModeEntry.ram =
      (((t.storeEntry 0x1000 0x2003).storeEntry 0x2000 0x3003).storeEntry 0x3000 0x83).ram ∧
      ∀ x, 0x1000 ≤ x → x < 0x4000 → t.ram x = 0 := by
    refine ⟨_, rfl, fun x hlow hhigh ↦ ?_⟩
    exact repStosd_zero (a := 0x1000) (n := 3072) rfl rfl rfl (by decide) hlow hhigh
  have hzero (a : ℕ) (hlow : 0x1000 ≤ a) (hhigh : a + 8 ≤ 0x4000) : t.ram.word a 8 = 0 :=
    Ram.word_eq_zero fun i hi ↦ hclear _ (by omega) (by omega)
  have h₁ : UInt32.toNat 0x1000 = 0x1000 := rfl
  have h₂ : UInt32.toNat 0x2000 = 0x2000 := rfl
  have h₃ : UInt32.toNat 0x3000 = 0x3000 := rfl
  rw [ht]
  have hrest (a : ℕ) (hlow : 0x1008 ≤ a) (hhigh : a + 8 ≤ 0x4000)
      (hsecond : a + 8 ≤ 0x2000 ∨ 0x2008 ≤ a) (hthird : a + 8 ≤ 0x3000 ∨ 0x3008 ≤ a) :
      (((t.storeEntry 0x1000 0x2003).storeEntry 0x2000 0x3003).storeEntry 0x3000 0x83).ram.word
        a 8 = 0 := by
    rw [storeEntry_word (by decide) (by omega), storeEntry_word (by decide) (by omega),
      storeEntry_word (by decide) (by omega), hzero _ (by omega) (by omega)]
  refine ⟨rfl, oneEntry_of ?_ fun i _ _ ↦ hrest _ (by omega) (by omega) (by omega) (by omega),
    oneEntry_of ?_ fun i _ _ ↦ hrest _ (by omega) (by omega) (by omega) (by omega),
    oneEntry_of ?_ fun i _ _ ↦ hrest _ (by omega) (by omega) (by omega) (by omega)⟩
  · rw [storeEntry_word (by decide) (by omega), storeEntry_word (by decide) (by omega)]
    exact storeEntry_entry (by decide)
  · rw [storeEntry_word (by decide) (by omega)]
    exact storeEntry_entry (by decide)
  · exact storeEntry_entry (by decide)

/-! ## The walk -/

open Paging

section
variable {m : Ram} {table e v level : ℕ}

theorem OneEntry.fetch_zero (h : OneEntry m table e) (hindex : index v level = 0) :
    fetch m (table + 8 * index v level) = some e := by
  rw [fetch, h _ index_lt, if_pos hindex]

/-- Beside the entry there is none. -/
theorem OneEntry.findsAbsent (h : OneEntry m table e) (hindex : index v level ≠ 0) :
    FindsAbsent (fetch m) v level table :=
  .here (by rw [fetch, h _ index_lt, if_neg hindex]) (by decide)

end

/-- **The first two megabytes are mapped to themselves, and nothing else is mapped**, whatever the
memory held before. -/
theorem identity_maps_2MiB (s : Pm) (v : ℕ) (hv : v < 2 ^ 47) :
    (v < 2 ^ 21 → walk (fetch s.protectedModeEntry.ram) v 3 s.protectedModeEntry.cr3.toNat =
      some v) ∧
    (2 ^ 21 ≤ v → FindsAbsent (fetch s.protectedModeEntry.ram) v 3
      s.protectedModeEntry.cr3.toNat) := by
  obtain ⟨hcr3, hpml4, hpdpt, hpd⟩ := protectedModeEntry_spec s
  rw [hcr3, show UInt32.toNat 0x1000 = 0x1000 from rfl]
  constructor
  · intro hlow
    have hthird : index v 3 = 0 := index_eq_zero (hlow.trans (by decide))
    have hsecond : index v 2 = 0 := index_eq_zero (hlow.trans (by decide))
    have hfirst : index v 1 = 0 := index_eq_zero hlow
    rw [walk_table (hpml4.fetch_zero hthird) (by decide) (by decide)]
    refine (walk_table (hpdpt.fetch_zero hsecond) (by decide) (by decide)).trans ?_
    refine (walk_page (hpd.fetch_zero hfirst) (by decide) (by decide) (by decide)).trans ?_
    rw [show address 0x83 (shift (0 + 1)) = 0 by decide, Nat.zero_add]
    exact congrArg some (Nat.mod_eq_of_lt hlow)
  · intro hhigh
    by_cases hthird : index v 3 = 0
    · refine .deeper (hpml4.fetch_zero hthird) (by decide) (by decide) ?_
      by_cases hsecond : index v 2 = 0
      · refine .deeper (hpdpt.fetch_zero hsecond) (by decide) (by decide) ?_
        refine hpd.findsAbsent fun hfirst ↦ ?_
        have hlow := lt_of_index_eq_zero (lt_of_index_eq_zero
          (lt_of_index_eq_zero (hv.trans (by decide)) hthird) hsecond) hfirst
        exact absurd hhigh (Nat.not_le_of_lt hlow)
      · exact hpdpt.findsAbsent hsecond
    · exact hpml4.findsAbsent hthird

/-- The last address below two megabytes and the first one above them, with a memory of zeros. -/
theorem identity_maps_2MiB_edge :
    walk (fetch blank.protectedModeEntry.ram) 0x1FFFFF 3 blank.protectedModeEntry.cr3.toNat =
      some 0x1FFFFF ∧
    FindsAbsent (fetch blank.protectedModeEntry.ram) 0x200000 3
      blank.protectedModeEntry.cr3.toNat :=
  ⟨(identity_maps_2MiB blank 0x1FFFFF (by decide)).1 (by decide),
    (identity_maps_2MiB blank 0x200000 (by decide)).2 (by decide)⟩

end Aetherion.Boot.Pm
