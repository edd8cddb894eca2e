import Aetherion.Shell.Dispatch
import Aetherion.Shell.ReadCommand

/-!
# Which sectors a typed `read` reads

A `ReadLine` is a command line as the help text has it, `read <disk> <lba> <count>`.  The parser
and `atoi` stay in step on every such line (`parseRead_text`), but `atoi` gives each number only
modulo `2 ^ 32`, and `disk_read` gets the second one with its sign carried up to 64 bits.  So the
request is the one that was typed as long as the numbers fit, and `reads_what_is_typed_iff` is the
exact bound on each of them.
-/

set_option autoImplicit false

namespace Aetherion.Shell

open Driver Driver.Prog Storage CString

/-- A command line of the form `read <disk> <lba> <count>`. -/
structure ReadLine where
  /-- The spaces between `read` and the first number, besides the first. -/
  gapDisk : ℕ
  /-- `<disk>`. -/
  disk : Digits
  /-- The spaces before the second number, besides the first. -/
  gapLba : ℕ
  /-- `<lba>`. -/
  lba : Digits
  /-- The spaces before the third number, besides the first. -/
  gapCount : ℕ
  /-- `<count>`. -/
  count : Digits

/-- The bytes of the line. -/
def ReadLine.text (l : ReadLine) : List UInt8 :=
  readWord ++ (List.replicate l.gapDisk 32 ++ (l.disk.bytes ++
    32 :: (List.replicate l.gapLba 32 ++ (l.lba.bytes ++
      32 :: (List.replicate l.gapCount 32 ++ (l.count.bytes ++ []))))))

/-- **The parser finds the three numbers**, each as `atoi` reads it. -/
theorem parseRead_text (l : ReadLine) :
    parseRead l.text = ⟨.ofNat l.disk.value, .ofNat l.lba.value, .ofNat l.count.value⟩ := by
  have hspace (n : ℕ) (d : Digits) (rest : List UInt8) :
      skipSpaces (32 :: (List.replicate n 32 ++ (d.bytes ++ rest))) = d.bytes ++ rest :=
    skipSpaces_append d (n + 1)
  simp only [parseRead, ReadLine.text, readWord, List.cons_append, List.nil_append,
    List.drop_succ_cons, List.drop_zero]
  rw [skipSpaces_append, skipDigits_append l.disk (noDigitFirst_space _), hspace,
    skipDigits_append l.lba (noDigitFirst_space _), hspace,
    atoi_append l.disk (noDigitFirst_space _), atoi_append l.lba (noDigitFirst_space _),
    atoi_append l.count noDigitFirst_nil]

/-! ## What becomes of a number -/

theorem toNat_count (n : ℕ) : (Int32.ofNat n).toUInt32.toNat = n % 2 ^ 32 := by
  change (Int32.ofNat n).toBitVec.toNat = _
  rw [Int32.toBitVec_ofNat', BitVec.toNat_ofNat]

/-- The address that `disk_read` gets for the number `n`. -/
theorem toNat_lba (n : ℕ) : (Int32.ofNat n).toInt64.toUInt64.toNat =
    if n % 2 ^ 32 < 2 ^ 31 then n % 2 ^ 32 else 2 ^ 64 - 2 ^ 32 + n % 2 ^ 32 := by
  change ((Int32.ofNat n).toBitVec.signExtend 64).toNat = _
  have hn : (Int32.ofNat n).toBitVec.toNat = n % 2 ^ 32 := toNat_count n
  rw [BitVec.toNat_signExtend, BitVec.toNat_setWidth, BitVec.msb_eq_decide, hn]
  by_cases h : n % 2 ^ 32 < 2 ^ 31
  · rw [if_pos h, if_neg (by simpa using h)]
    omega
  · rw [if_neg h, if_pos (by simpa using h)]
    omega

/-- It is `n` itself for a number below `2 ^ 31`, and again for the highest addresses there are,
where the sign that is carried up happens to be what was typed. -/
theorem toNat_lba_eq_iff (n : ℕ) : (Int32.ofNat n).toInt64.toUInt64.toNat = n ↔
    n < 2 ^ 31 ∨ 2 ^ 64 - 2 ^ 31 ≤ n ∧ n < 2 ^ 64 := by
  rw [toNat_lba]
  split <;> omega

/-- The table has no place with a negative number, and none that a number beyond `2 ^ 32` names. -/
theorem diskGet_ofNat (g : Registry) (n : ℕ) :
    diskGet g (Int32.ofNat n) = g.get? (n % 2 ^ 32) := by
  have hcount : g.count ≤ 8 := g.count_le
  have hn : (Int32.ofNat n).toBitVec.toNat = n % 2 ^ 32 := toNat_count n
  have hint : (Int32.ofNat n).toInt =
      if 2 * (n % 2 ^ 32) < 2 ^ 32 then ((n % 2 ^ 32 : ℕ) : ℤ) else (n % 2 ^ 32 : ℕ) - 2 ^ 32 := by
    rw [Int32.toInt, BitVec.toInt_eq_toNat_cond, hn]
    rfl
  have hneg : Int32.ofNat n < 0 ↔ 2 ^ 31 ≤ n % 2 ^ 32 := by
    rw [Int32.lt_iff_toInt_lt, hint, show (0 : Int32).toInt = 0 from rfl]
    split <;> omega
  rw [diskGet]
  split
  · rename_i h
    rw [Registry.get?, if_neg (by rw [hneg] at h; omega)]
  · rename_i h
    rw [hneg] at h
    rw [hint, if_pos (by omega), Int.toNat_natCast]

/-! ## The request that is made -/

/-- Either `disk_read` is called for the disk with the first number, with the second number as its
address and the third as its count, or a message is printed and it is not called. -/
def ReadsWhatIsTyped (g : Registry) (l : ReadLine) : Prop :=
  dispatch l.text = .read ∧ ∀ dev h,
    match (prepareRead g l.text).value dev h with
    | some call => g.get? l.disk.value = some call.disk ∧ call.lba.toNat = l.lba.value ∧
        call.count.toNat = l.count.value
    | none => ∃ text ∈ ["Disque invalide\n", "Erreur lecture\n"],
        .out (.print text) ∈ (prepareRead g l.text).trace dev h

/-- No disk: the message, and no call. -/
theorem prepareRead_invalid {g : Registry} {cmdBuf : List UInt8}
    (hnone : diskGet g (parseRead cmdBuf).diskIdx = none) (dev : Device machine)
    (h : Trace machine) :
    (prepareRead g cmdBuf).value dev h = none ∧
      .out (.print "Disque invalide\n") ∈ (prepareRead g cmdBuf).trace dev h := by
  rw [prepareRead]
  simp only [hnone]
  exact ⟨rfl, by simp [vgaWrite]⟩

/-- A disk: a call for it, or a message because there is no memory. -/
theorem prepareRead_valid {g : Registry} {cmdBuf : List UInt8} {d : Disk}
    (hd : diskGet g (parseRead cmdBuf).diskIdx = some d) (dev : Device machine)
    (h : Trace machine) :
    match (prepareRead g cmdBuf).value dev h with
    | some call => call.disk = d ∧ call.lba = (parseRead cmdBuf).lba.toInt64.toUInt64 ∧
        call.count = (parseRead cmdBuf).count.toUInt32
    | none => .out (.print "Erreur lecture\n") ∈ (prepareRead g cmdBuf).trace dev h := by
  rw [prepareRead]
  simp only [hd, value_bind, trace_bind]
  cases (malloc (readSize (parseRead cmdBuf).count)).value dev h with
  | none =>
    simp only [value_bind, value_pure]
    refine List.mem_append_right _ ?_
    simp [vgaWrite]
  | some buf => exact ⟨rfl, rfl, rfl⟩

/-- **What is typed is what is read, exactly while the numbers fit**: the first below `2 ^ 32`, the
second below `2 ^ 31` (or among the last `2 ^ 31` addresses of 64 bits), the third below `2 ^ 32`.
A first number that names no disk even modulo `2 ^ 32` is refused, whatever the other two are. -/
theorem reads_what_is_typed_iff (g : Registry) (l : ReadLine) :
    ReadsWhatIsTyped g l ↔
      g.get? (l.disk.value % 2 ^ 32) = none ∨
        l.disk.value < 2 ^ 32 ∧
          (l.lba.value < 2 ^ 31 ∨ 2 ^ 64 - 2 ^ 31 ≤ l.lba.value ∧ l.lba.value < 2 ^ 64) ∧
          l.count.value < 2 ^ 32 := by
  have hcount : g.count ≤ 8 := g.count_le
  have hparse := parseRead_text l
  have hget : diskGet g (parseRead l.text).diskIdx = g.get? (l.disk.value % 2 ^ 32) := by
    rw [hparse, diskGet_ofNat]
  constructor
  · rintro ⟨-, hreads⟩
    cases hd : g.get? (l.disk.value % 2 ^ 32) with
    | none => exact Or.inl rfl
    | some d =>
      -- on a machine with memory to spare the call is made
      obtain ⟨hdisk, hlba, hcnt⟩ := (prepareRead_steady (hget.trans hd) []) ▸ hreads _ []
      simp only [hparse] at hlba hcnt
      rw [toNat_lba_eq_iff] at hlba
      rw [toNat_count] at hcnt
      refine Or.inr ⟨?_, hlba, by omega⟩
      by_contra hbig
      rw [Registry.get?, if_neg (show ¬l.disk.value < g.count by omega)] at hdisk
      cases hdisk
  · intro hfits
    refine ⟨dispatch_readWord _, fun dev h ↦ ?_⟩
    cases hd : g.get? (l.disk.value % 2 ^ 32) with
    | none =>
      obtain ⟨hv, hmem⟩ := prepareRead_invalid (hget.trans hd) dev h
      rw [hv]
      exact ⟨_, by simp, hmem⟩
    | some d =>
      obtain ⟨hdisk, hlba, hcnt⟩ := hfits.resolve_left (by rw [hd]; exact Option.some_ne_none d)
      have hcall := prepareRead_valid (hget.trans hd) dev h
      revert hcall
      cases (prepareRead g l.text).value dev h with
      | none => exact fun hmem ↦ ⟨_, by simp, hmem⟩
      | some call =>
        rintro ⟨rfl, hl, hc⟩
        rw [Nat.mod_eq_of_lt hdisk] at hd
        refine ⟨hd, ?_, ?_⟩
        · rw [hl, hparse]
          exact (toNat_lba_eq_iff _).mpr hlba
        · rw [hc, hparse]
          exact (toNat_count _).trans (Nat.mod_eq_of_lt hcnt)

/-- `read 0 4294967296 1`. -/
def distantRead : ReadLine where
  gapDisk := 0
  disk := ⟨[48], by decide, by simp [isDigit]⟩
  gapLba := 0
  lba := ⟨[52, 50, 57, 52, 57, 54, 55, 50, 57, 54], by decide, by simp [isDigit]⟩
  gapCount := 0
  count := ⟨[49], by decide, by simp [isDigit]⟩

/-- With one disk registered, `read 0 4294967296 1` reads its sector `0`. -/
theorem distantRead_reads_sector_zero :
    ¬ReadsWhatIsTyped (Registry.empty.add hugeDisk) distantRead ∧
      ∃ dev h call,
        (prepareRead (Registry.empty.add hugeDisk) distantRead.text).value dev h = some call ∧
          call.disk = hugeDisk ∧ call.lba = 0 ∧ call.count = 1 := by
  have hcall :
      (prepareRead (Registry.empty.add hugeDisk) distantRead.text).value (steadyMachine 0 0 0) [] =
        some _ :=
    prepareRead_steady (d := hugeDisk) (by decide) []
  refine ⟨?_, _, _, _, hcall, rfl, by decide, by decide⟩
  rintro ⟨-, hreads⟩
  obtain ⟨-, hlba, -⟩ := hcall ▸ hreads _ []
  exact absurd hlba (by decide)

end Aetherion.Shell
