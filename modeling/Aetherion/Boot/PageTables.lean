import Aetherion.Base.Paging

/-!
# The page tables of `pm_entry`

In protected mode stage 2 writes the tables for the first 16 MiB, at `0x1000`-`0x6FFF`, and turns
paging on.  The entries of a page table are 8 bytes long, but the code fills its tables with one
32-bit store for each entry it means, so two of them make up one entry.  The first entry of the
PDPT then leads to the address `0x400300003000`, far outside the tables and outside most memories
(`pmEntry_spec`), and no address is translated.

The code is taken for the 32-bit code it is assembled as; the direction flag is clear, and all
segments are flat.
-/

set_option autoImplicit false

namespace Aetherion.Boot

/-- The processor in protected mode. -/
structure Pm where
  eax : UInt32
  ecx : UInt32
  edx : UInt32
  edi : UInt32
  esi : UInt32
  esp : UInt32
  cr0 : UInt32
  cr3 : UInt32
  cr4 : UInt32
  /-- `IA32_EFER`. -/
  efer : UInt64
  ram : Ram

namespace Pm

/-! ## Instructions -/

/-- The 32-bit word at an address. -/
def load32 (s : Pm) (a : UInt32) : UInt32 := .ofNat (s.ram.word a.toNat 4)

/-- Store a 32-bit word. -/
def store32 (a v : UInt32) (s : Pm) : Pm :=
  { s with ram := s.ram.store a.toNat (Ram.bytes v.toNat 4) }

def push (v : UInt32) (s : Pm) : Pm := { s with esp := s.esp - 4 }.store32 (s.esp - 4) v

/-- What `pop` takes from the stack. -/
def top (s : Pm) : UInt32 := s.load32 s.esp

/-- The stack without it. -/
def drop (s : Pm) : Pm := { s with esp := s.esp + 4 }

def lodsb (s : Pm) : Pm :=
  { s with eax := (s.eax &&& 0xFFFFFF00) ||| (s.ram s.esi.toNat).toUInt32, esi := s.esi + 1 }

def stosw (s : Pm) : Pm :=
  { s with ram := s.ram.store s.edi.toNat (Ram.bytes s.eax.toNat 2), edi := s.edi + 2 }

def stosd (s : Pm) : Pm := { s.store32 s.edi s.eax with edi := s.edi + 4, ecx := s.ecx - 1 }

def repStosd (s : Pm) : Pm := stosd^[s.ecx.toNat] s

/-- `call dbg_putc32`, with the address it pushes.  It is over when it returns behind the character
that follows the call; if it returned anywhere else, there would be no result. -/
def dbgPutc32 (returnAddress : UInt32) (s : Pm) : Option Pm :=
  let s := s.push returnAddress
  let s := ((s.push s.eax).push s.edi).push s.esi
  let s := { s with esi := s.load32 (s.esp + 12) }.lodsb
  let s := s.store32 (s.esp + 12) s.esi
  let s := { s with edi := 0xB8000 + 24 * 160, eax := (s.eax &&& 0xFFFF00FF) ||| 0x0F00 }.stosw
  let s := { s with esi := s.top }.drop
  let s := { s with edi := s.top }.drop
  let s := { s with eax := s.top }.drop
  if s.top = returnAddress + 1 then some s.drop else none

/-- Four stores from `edi` on. -/
def fillTable (base a b c d : UInt32) (s : Pm) : Pm :=
  let s := { s with edi := base }
  s.store32 s.edi a |>.store32 (s.edi + 4) b |>.store32 (s.edi + 8) c |>.store32 (s.edi + 12) d

/-- `pm_entry` until paging is on, with the addresses that its calls push. -/
def pmEntry (returnAddress : ℕ → UInt32) (s : Pm) : Option Pm := do
  let s := { s with eax := (s.eax &&& 0xFFFF0000) ||| 0x10, esp := 0x90000 }
  let s ← s.dbgPutc32 (returnAddress 0)
  let s := { s with edi := 0x1000, cr3 := 0x1000, eax := 0, ecx := 4096 }.repStosd
  let s ← s.dbgPutc32 (returnAddress 1)
  let s := s.fillTable 0x1000 0x2003 0 0 0
  let s ← s.dbgPutc32 (returnAddress 2)
  let s := s.fillTable 0x2000 0x3003 0x4003 0x5003 0x6003
  let s ← s.dbgPutc32 (returnAddress 3)
  let s := s.fillTable 0x3000 0x00000083 0x200083 0 0
  let s := s.fillTable 0x4000 0x400083 0x600083 0 0
  let s := s.fillTable 0x5000 0x800083 0xA00083 0 0
  let s := s.fillTable 0x6000 0xC00083 0xE00083 0 0
  let s ← s.dbgPutc32 (returnAddress 4)
  let s := { s with eax := s.cr4 ||| ((1 : UInt32) <<< 5) }
  let s := { s with cr4 := s.eax }
  let s ← s.dbgPutc32 (returnAddress 5)
  -- `rdmsr` and `wrmsr`
  let s := { s with ecx := 0xC0000080, eax := s.efer.toUInt32, edx := (s.efer >>> 32).toUInt32 }
  let s := { s with eax := s.eax ||| ((1 : UInt32) <<< 8) }
  let s := { s with efer := (s.edx.toUInt64 <<< 32) ||| s.eax.toUInt64 }
  let s ← s.dbgPutc32 (returnAddress 6)
  let s := { s with eax := s.cr0 ||| ((1 : UInt32) <<< 31) }
  some { s with cr0 := s.eax }

/-! ## What they do to the memory -/

variable {s : Pm}

/-- A word that is stored and loaded. -/
theorem ofNat_word_store (m : Ram) (a : ℕ) (v : UInt32) :
    UInt32.ofNat ((m.store a (Ram.bytes v.toNat 4)).word a 4) = v := by
  rw [Ram.word_store, Nat.mod_eq_of_lt (v.toNat_lt.trans_le (by decide)), UInt32.ofNat_toNat]

/-- The memory that `dbg_putc32` does not use: what lies below its stack, and behind the screen. -/
def Untouched (x : ℕ) : Prop := x < 0x8FFF0 ∨ 0xB8F02 ≤ x

/-- **A debug character** costs nothing but some memory. -/
theorem dbgPutc32_eq (returnAddress : UInt32) (hesp : s.esp = 0x90000) :
    ∃ ram, s.dbgPutc32 returnAddress = some { s with ram := ram } ∧
      ∀ x, Untouched x → ram x = s.ram x := by
  obtain ⟨cell, hrun⟩ : ∃ cell, s.dbgPutc32 returnAddress = some { s with
      ram := (((((s.ram.store 0x8FFFC (Ram.bytes returnAddress.toNat 4)).store 0x8FFF8
        (Ram.bytes s.eax.toNat 4)).store 0x8FFF4 (Ram.bytes s.edi.toNat 4)).store 0x8FFF0
        (Ram.bytes s.esi.toNat 4)).store 0x8FFFC (Ram.bytes (returnAddress + 1).toNat 4)).store
        0xB8F00 (Ram.bytes cell 2) } := by
    simp (disch := decide) only [dbgPutc32, push, drop, top, lodsb, stosw, hesp, UInt32.reduceAdd,
      UInt32.reduceSub, UInt32.reduceMul, UInt32.reduceToNat, load32, store32, ofNat_word_store,
      Ram.word_store_bytes, if_true]
    exact ⟨_, rfl⟩
  refine ⟨_, hrun, fun x hx ↦ ?_⟩
  rw [Untouched] at hx
  rw [Ram.store_bytes, Ram.store_bytes, Ram.store_bytes, Ram.store_bytes, Ram.store_bytes,
    Ram.store_bytes] <;> omega

/-- The same in front of other instructions. -/
theorem dbgPutc32_bind {returnAddress : UInt32} {next : Pm → Option Pm} {P : Pm → Prop}
    (hesp : s.esp = 0x90000)
    (hnext : ∀ ram, (∀ x, Untouched x → ram x = s.ram x) →
      ∃ s', next { s with ram := ram } = some s' ∧ P s') :
    ∃ s', (s.dbgPutc32 returnAddress >>= next) = some s' ∧ P s' := by
  obtain ⟨ram, hrun, hram⟩ := dbgPutc32_eq returnAddress hesp
  rw [hrun]
  exact hnext ram hram

/-- `rep stosd` only writes to its own memory, and only counts in its own registers. -/
theorem stosd_iterate {n : ℕ} (hedi : s.edi.toNat + 4 * n ≤ 2 ^ 32) :
    ∃ ecx edi ram, stosd^[n] s = { s with ecx := ecx, edi := edi, ram := ram } ∧
      ∀ x, x < s.edi.toNat ∨ s.edi.toNat + 4 * n ≤ x → ram x = s.ram x := by
  induction n generalizing s with
  | zero => exact ⟨_, _, _, rfl, fun _ _ ↦ rfl⟩
  | succ n ih =>
    rcases n.eq_zero_or_pos with rfl | hpos
    · exact ⟨_, _, _, rfl, fun x hx ↦ Ram.store_bytes _ _ (by omega)⟩
    · have hnext : s.stosd.edi.toNat = s.edi.toNat + 4 := by
        change (s.edi + 4).toNat = _
        rw [UInt32.toNat_add, show UInt32.toNat 4 = 4 from rfl, Nat.mod_eq_of_lt (by omega)]
      obtain ⟨ecx, edi, ram, hrun, hram⟩ := ih (s := s.stosd) (by omega)
      refine ⟨ecx, edi, ram, by rw [Function.iterate_succ_apply, hrun]; rfl, fun x hx ↦ ?_⟩
      rw [hram x (by omega)]
      exact Ram.store_bytes _ _ (by omega)

section
variable (base a b c d : UInt32) (hbase : base.toNat + 16 ≤ 2 ^ 32)

include hbase

theorem toNat_offset {k : ℕ} (hk : k < 16) : (base + .ofNat k).toNat = base.toNat + k := by
  rw [UInt32.toNat_add, UInt32.toNat_ofNat']
  omega

theorem fillTable_ram : (s.fillTable base a b c d).ram =
    (((s.ram.store base.toNat (Ram.bytes a.toNat 4)).store (base.toNat + 4)
      (Ram.bytes b.toNat 4)).store (base.toNat + 8) (Ram.bytes c.toNat 4)).store (base.toNat + 12)
      (Ram.bytes d.toNat 4) := by
  simp only [fillTable, store32]
  rw [show base + 4 = base + .ofNat 4 from rfl, show base + 8 = base + .ofNat 8 from rfl,
    show base + 12 = base + .ofNat 12 from rfl, toNat_offset base hbase (by decide),
    toNat_offset base hbase (by decide), toNat_offset base hbase (by decide)]

/-- **Two 32-bit stores make up one entry.** -/
theorem fillTable_entry :
    (s.fillTable base a b c d).ram.word base.toNat 8 = a.toNat + 2 ^ 32 * b.toNat := by
  have ha : a.toNat < 256 ^ 4 := a.toNat_lt
  have hb : b.toNat < 256 ^ 4 := b.toNat_lt
  rw [fillTable_ram base a b c d hbase, Ram.word_store_bytes _ _ (by omega),
    Ram.word_store_bytes _ _ (by omega), Ram.word_add _ (n := 4) (k := 4),
    Ram.word_store_bytes _ _ (by omega), Ram.word_store, Ram.word_store, Nat.mod_eq_of_lt ha,
    Nat.mod_eq_of_lt hb]
  rfl

theorem fillTable_apart {x : ℕ} (hx : x < base.toNat ∨ base.toNat + 16 ≤ x) :
    (s.fillTable base a b c d).ram x = s.ram x := by
  rw [fillTable_ram base a b c d hbase, Ram.store_bytes, Ram.store_bytes, Ram.store_bytes,
    Ram.store_bytes] <;> omega

theorem fillTable_word {x n : ℕ} (hx : x + n ≤ base.toNat ∨ base.toNat + 16 ≤ x) :
    (s.fillTable base a b c d).ram.word x n = s.ram.word x n :=
  Ram.word_congr fun i hi ↦ fillTable_apart base a b c d hbase (by omega)

end

/-- A word that only debug characters come after. -/
theorem word_untouched {m m' : Ram} {a n : ℕ} (h : ∀ x, Untouched x → m' x = m x)
    (ha : a + n ≤ 0x8FFF0) : m'.word a n = m.word a n :=
  Ram.word_congr fun i hi ↦ h _ (.inl (by omega))

/-- **What `pm_entry` leaves behind.**  Paging is on and starts at `0x1000`; the first entry there
leads to the table at `0x2000`, and the first entry there to none that was written. -/
theorem pmEntry_spec (returnAddress : ℕ → UInt32) (s : Pm) :
    ∃ s', pmEntry returnAddress s = some s' ∧ s'.cr3 = 0x1000 ∧
      s'.ram.word 0x1000 8 = 0x2003 ∧ s'.ram.word 0x2000 8 = 0x400300003003 ∧
      ∀ x, 2 ^ 32 ≤ x → s'.ram x = s.ram x := by
  rw [pmEntry]
  refine dbgPutc32_bind rfl fun r₀ h₀ ↦ ?_
  have hend : 0x1000 + 4 * 4096 ≤ 2 ^ 32 := by decide
  obtain ⟨ecx, edi, rc, hclear, hrc⟩ := stosd_iterate (n := 4096) (s := { s with
    eax := 0, ecx := 4096, edi := 0x1000, esp := 0x90000, cr3 := 0x1000, ram := r₀ }) hend
  have hrep : repStosd { s with
      eax := 0, ecx := 4096, edi := 0x1000, esp := 0x90000, cr3 := 0x1000, ram := r₀ } = _ := hclear
  simp only [hrep]
  refine dbgPutc32_bind rfl fun r₁ h₁ ↦ ?_
  refine dbgPutc32_bind rfl fun r₂ h₂ ↦ ?_
  refine dbgPutc32_bind rfl fun r₃ h₃ ↦ ?_
  refine dbgPutc32_bind rfl fun r₄ h₄ ↦ ?_
  refine dbgPutc32_bind rfl fun r₅ h₅ ↦ ?_
  refine dbgPutc32_bind rfl fun r₆ h₆ ↦ ?_
  -- after the tables there are only debug characters
  have hlast := fun x hx ↦ (h₆ x hx).trans ((h₅ x hx).trans (h₄ x hx))
  refine ⟨_, rfl, rfl, ?_, ?_, fun x hx ↦ ?_⟩
  -- nothing is written to `0x1000` after the second of them, and to `0x2000` after the third
  · refine (word_untouched hlast (by decide)).trans ?_
    iterate 4 refine (fillTable_word _ _ _ _ _ (by decide) (by decide)).trans ?_
    refine (word_untouched h₃ (by decide)).trans ?_
    refine (fillTable_word _ _ _ _ _ (by decide) (by decide)).trans ?_
    exact (word_untouched h₂ (by decide)).trans (fillTable_entry _ _ _ _ _ (by decide))
  · refine (word_untouched hlast (by decide)).trans ?_
    iterate 4 refine (fillTable_word _ _ _ _ _ (by decide) (by decide)).trans ?_
    exact (word_untouched h₃ (by decide)).trans (fillTable_entry _ _ _ _ _ (by decide))
  · have hlarge : Untouched x := .inr (by omega)
    refine (hlast x hlarge).trans ?_
    iterate 4
      refine (fillTable_apart _ _ _ _ _ (by decide) (.inr (hx.trans' (by decide)))).trans ?_
    refine (h₃ x hlarge).trans ?_
    refine (fillTable_apart _ _ _ _ _ (by decide) (.inr (hx.trans' (by decide)))).trans ?_
    refine (h₂ x hlarge).trans ?_
    refine (fillTable_apart _ _ _ _ _ (by decide) (.inr (hx.trans' (by decide)))).trans ?_
    exact (h₁ x hlarge).trans ((hrc x (.inr (hend.trans hx))).trans (h₀ x hlarge))

/-! ## Walking through the tables -/

/-- The tables of `pm_entry`, which end before `0x7000`. -/
def tables (m : Ram) : Paging.Fetch := Paging.fetchIn m 0x1000 0x6000

/-- **The walk leaves the tables.**  From the first entry of the PDPT it goes on at
`0x400300003000`. -/
theorem walk_eq {m : Ram} (hpml4 : m.word 0x1000 8 = 0x2003)
    (hpdpt : m.word 0x2000 8 = 0x400300003003) {f : Paging.Fetch}
    (hf : ∀ a, 0x1000 ≤ a → a + 8 ≤ 0x7000 → f a = some (m.word a 8)) {v : ℕ} (hv : v < 2 ^ 24) :
    Paging.walk f v 3 0x1000 = Paging.walk f v 1 0x400300003000 := by
  have hindex₃ : Paging.index v 3 = 0 := Paging.index_eq_zero (hv.trans (by decide))
  have hindex₂ : Paging.index v 2 = 0 := Paging.index_eq_zero (hv.trans (by decide))
  have hfirst : f (0x1000 + 8 * Paging.index v 3) = some 0x2003 := by
    rw [hindex₃, hf _ (by decide) (by decide), ← hpml4]
  have hsecond : f (0x2000 + 8 * Paging.index v 2) = some 0x400300003003 := by
    rw [hindex₂, hf _ (by decide) (by decide), ← hpdpt]
  rw [Paging.walk_table hfirst (by decide) (by decide)]
  exact Paging.walk_table hsecond (by decide) (by decide)

/-- There is no table. -/
theorem walk_tables_eq_none (m : Ram) (v : ℕ) :
    Paging.walk (tables m) v 1 0x400300003000 = none :=
  Paging.walk_eq_none (if_neg (by omega))

/-- **No address is translated.**  Whatever the memory held before, for every address below 16 MiB
the walk through the tables comes to an address that is not in them.  In all of memory it goes on
there, with what the memory held before. -/
theorem no_address_is_mapped (returnAddress : ℕ → UInt32) (s : Pm) :
    ∃ s', pmEntry returnAddress s = some s' ∧ ∀ v < 2 ^ 24,
      Paging.walk (tables s'.ram) v 3 s'.cr3.toNat = none ∧
      Paging.walk (Paging.fetch s'.ram) v 3 s'.cr3.toNat =
        Paging.walk (Paging.fetch s'.ram) v 1 0x400300003000 ∧
      Paging.fetch s'.ram (0x400300003000 + 8 * Paging.index v 1) =
        Paging.fetch s.ram (0x400300003000 + 8 * Paging.index v 1) := by
  obtain ⟨s', hrun, hcr3, hpml4, hpdpt, hram⟩ := pmEntry_spec returnAddress s
  refine ⟨s', hrun, fun v hv ↦ ?_⟩
  rw [hcr3, show UInt32.toNat 0x1000 = 0x1000 from rfl]
  refine ⟨?_, ?_, ?_⟩
  · rw [walk_eq hpml4 hpdpt (f := tables s'.ram) (fun a hlow hhigh ↦ if_pos ⟨hlow, hhigh⟩) hv]
    exact walk_tables_eq_none s'.ram v
  · exact walk_eq hpml4 hpdpt (fun _ _ _ ↦ rfl) hv
  · exact congrArg some (Ram.word_congr fun i _ ↦ hram _ (by omega))

/-- A processor with nothing in its registers and its memory. -/
def blank : Pm := ⟨0, 0, 0, 0, 0, 0, 0, 0, 0, 0, fun _ ↦ 0⟩

/-- With a memory of zeros the kernel at `0x100000` is not mapped. -/
theorem kernel_is_not_mapped :
    ∃ s', pmEntry (fun _ ↦ 0x10400) blank = some s' ∧
      Paging.walk (tables s'.ram) 0x100000 3 s'.cr3.toNat ≠ some 0x100000 ∧
      Paging.walk (Paging.fetch s'.ram) 0x100000 3 s'.cr3.toNat ≠ some 0x100000 := by
  obtain ⟨s', hrun, hcr3, hpml4, hpdpt, hram⟩ := pmEntry_spec (fun _ ↦ 0x10400) blank
  refine ⟨s', hrun, ?_⟩
  rw [hcr3, show UInt32.toNat 0x1000 = 0x1000 from rfl]
  constructor
  · rw [walk_eq hpml4 hpdpt (f := tables s'.ram) (fun a hlow hhigh ↦ if_pos ⟨hlow, hhigh⟩)
      (by decide), walk_tables_eq_none]
    exact nofun
  · have hentry : s'.ram.word 0x400300003000 8 = 0 := by
      refine (Ram.word_congr fun i _ ↦ hram _ (by omega)).trans ?_
      simp [Ram.word, blank]
    have hfetch : Paging.fetch s'.ram (0x400300003000 + 8 * Paging.index 0x100000 1) = some 0 := by
      rw [Paging.index_eq_zero (by decide), Paging.fetch, hentry]
    rw [walk_eq hpml4 hpdpt (f := Paging.fetch s'.ram) (fun _ _ _ ↦ rfl) (by decide),
      Paging.walk_not_present hfetch (by decide)]
    exact nofun

end Pm

end Aetherion.Boot
