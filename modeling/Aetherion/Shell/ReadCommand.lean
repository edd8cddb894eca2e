import Aetherion.Shell.CString
import Aetherion.Storage.Requests

/-!
# The `read` command of the shell

`read <disk> <lba> <count>`: three numbers, a block of memory, a call of `disk_read`, and a dump
of what came back.

The block is asked for with `malloc(count * 512)`, where the product is an `int` and the argument
a `size_t`, and the driver is told to fill `count` sectors, as an unsigned number.  The two agree
as long as the product fits; `read_buffer_fits_iff` says for which counts the block is large
enough whatever `malloc` returns.
-/

set_option autoImplicit false

namespace Aetherion.Shell

open Driver Driver.Prog Storage Ahci CString

/-- The three numbers of a command line. -/
structure ReadArgs where
  /-- `disk_idx`. -/
  diskIdx : Int32
  /-- `lba`. -/
  lba : Int32
  /-- `count`. -/
  count : Int32

/-- The parse of a line that begins with `"read "`. -/
def parseRead (cmdBuf : List UInt8) : ReadArgs :=
  let p := skipSpaces (cmdBuf.drop 5)
  let q := skipSpaces (skipDigits p)
  let r := skipSpaces (skipDigits q)
  ⟨atoi p, atoi q, atoi r⟩

/-- `count * 512`, as `malloc` gets it. -/
def readSize (count : Int32) : UInt64 := (count * 512).toInt64.toUInt64

/-- A call of `disk_read`. -/
structure ReadCall where
  /-- The disk. -/
  disk : Disk
  /-- The first sector. -/
  lba : UInt64
  /-- How many sectors. -/
  count : UInt32
  /-- The block behind `buf`. -/
  block : Block

/-- The `read` branch up to the call of `disk_read`, or to one of the two messages instead. -/
def prepareRead (g : Registry) (cmdBuf : List UInt8) : Kernel (Option ReadCall) := do
  let args := parseRead cmdBuf
  match diskGet g args.diskIdx with
  | none => do
    vgaWrite "Disque invalide\n"
    pure none
  | some d => do
    match ← malloc (readSize args.count) with
    | none => do
      vgaWrite "Erreur lecture\n"
      free 0
      pure none
    | some buf => pure (some ⟨d, args.lba.toInt64.toUInt64, args.count.toUInt32, buf.1⟩)

/-- The byte of a buffer at index `i`. -/
def byteAt (words : UInt32 → UInt16) (i : ℕ) : UInt8 :=
  let w := words (.ofNat (i / 2))
  if i % 2 = 0 then w.toUInt8 else (w >>> 8).toUInt8

/-- The dump of the first bytes, sixteen to a row. -/
def hexDump (count : Int32) (words : UInt32 → UInt16) : Kernel Unit :=
  forEach (fun i (_ : Unit) ↦
    if (i : ℤ) < (count * 512).toInt then do
      (if i % 16 = 0 then
        vgaWrite ("\n" ++ hexPad 4 i ++ ": ")
      else pure ())
      vgaWrite (hexPad 2 (byteAt words i).toNat ++ " ")
    else pure ()) 256 0 ()

/-- The `read` branch of the shell. -/
def readCommand (hba : Hba) (g : Registry) (cmdBuf : List UInt8) : Kernel Unit := do
  match ← prepareRead g cmdBuf with
  | none => pure ()
  | some call => do
    let old ← dma call.block.addr
    let r ← diskRead hba (some call.disk) call.lba call.count
      ⟨call.block.addr, fun i ↦ old i.toNat⟩
    let args := parseRead cmdBuf
    if r.1 = 0 then do
      vgaWrite ("Lu " ++ toString args.count.toInt ++ " secteurs du disque " ++
        toString args.diskIdx.toInt ++ " (LBA " ++ toString args.lba.toInt ++ ")\n")
      hexDump args.count r.2.words
      vgaWrite "\n"
    else vgaWrite "Erreur lecture\n"
    free call.block.addr

/-! ## The size of the block -/

/-- Whenever the line makes the shell call `disk_read`, the block has room for all the sectors the
driver is told to fill. -/
def FitsBuffer (g : Registry) (cmdBuf : List UInt8) : Prop :=
  ∀ dev h call, (prepareRead g cmdBuf).value dev h = some call →
    512 * call.count.toNat ≤ call.block.size

/-- The size that is asked for: the product modulo `2 ^ 32`, with its sign bit carried up. -/
theorem toNat_readSize (count : Int32) :
    (readSize count).toNat = 512 * count.toUInt32.toNat % 2 ^ 32 +
      if count.toUInt32.toNat / 2 ^ 22 % 2 = 1 then 2 ^ 64 - 2 ^ 32 else 0 := by
  have hmul : (count * 512).toBitVec.toNat = 512 * count.toUInt32.toNat % 2 ^ 32 := by
    rw [Int32.toBitVec_mul, BitVec.toNat_mul, Nat.mul_comm]
    rfl
  have hmsb : (count * 512).toBitVec.msb = decide (count.toUInt32.toNat / 2 ^ 22 % 2 = 1) := by
    rw [BitVec.msb_eq_decide, hmul, decide_eq_decide]
    omega
  change ((count * 512).toBitVec.signExtend 64).toNat = _
  rw [BitVec.toNat_signExtend, BitVec.toNat_setWidth, hmul, hmsb]
  congr 1
  · omega
  · split
    · rename_i h
      rw [if_pos (of_decide_eq_true h)]
    · rename_i h
      rw [if_neg (by simpa using h)]

/-- The block that is asked for has room for the sectors exactly when the product, taken without
wrapping, keeps below the sign bit, or when its bit 31 is set and the sign extension makes the
request enormous. -/
theorem le_readSize_iff (count : Int32) :
    512 * count.toUInt32.toNat ≤ (readSize count).toNat ↔
      count.toUInt32.toNat < 2 ^ 22 ∨ count.toUInt32.toNat / 2 ^ 22 % 2 = 1 := by
  have hlt : count.toUInt32.toNat < 2 ^ 32 := count.toUInt32.toNat_lt
  rw [toNat_readSize]
  split <;> omega

/-- What the shell calls `disk_read` with, if it does: the parsed count, and a block that `malloc`
gave for the wrapped product. -/
theorem prepareRead_cases {g : Registry} {cmdBuf : List UInt8} {dev : Device machine}
    {h : Trace machine} {call : ReadCall}
    (hcall : (prepareRead g cmdBuf).value dev h = some call) :
    (diskGet g (parseRead cmdBuf).diskIdx).isSome ∧
      call.count = (parseRead cmdBuf).count.toUInt32 ∧
      (readSize (parseRead cmdBuf).count).toNat ≤ call.block.size := by
  rw [prepareRead] at hcall
  simp only at hcall
  split at hcall
  · rw [value_bind, value_pure] at hcall
    cases hcall
  · rename_i d hd
    rw [value_bind] at hcall
    split at hcall
    · simp only [value_bind, value_pure] at hcall
      cases hcall
    · rename_i buf hbuf
      rw [value_pure, Option.some.injEq] at hcall
      rw [← hcall]
      exact ⟨by rw [hd]; rfl, rfl, buf.2⟩

/-- On a machine whose heap gives exactly what it is asked for, a valid disk is read into a block
of the wrapped size. -/
theorem prepareRead_steady {g : Registry} {cmdBuf : List UInt8} {d : Disk}
    (hd : diskGet g (parseRead cmdBuf).diskIdx = some d) (h : Trace machine) :
    (prepareRead g cmdBuf).value (steadyMachine 0 0 0) h =
      some ⟨d, (parseRead cmdBuf).lba.toInt64.toUInt64, (parseRead cmdBuf).count.toUInt32,
        heapBlock (readSize (parseRead cmdBuf).count)⟩ := by
  rw [prepareRead]
  simp only [hd]
  rfl

/-- **The block is large enough exactly when the count stays below `2 ^ 22` or has bit 22 set.**
Where the line names no disk, there is no call and nothing to fit. -/
theorem read_buffer_fits_iff (g : Registry) (cmdBuf : List UInt8) :
    FitsBuffer g cmdBuf ↔
      diskGet g (parseRead cmdBuf).diskIdx = none ∨
        (parseRead cmdBuf).count.toUInt32.toNat < 2 ^ 22 ∨
          (parseRead cmdBuf).count.toUInt32.toNat / 2 ^ 22 % 2 = 1 := by
  rw [← le_readSize_iff]
  constructor
  · intro hfits
    cases hd : diskGet g (parseRead cmdBuf).diskIdx with
    | none => exact Or.inl rfl
    | some d => exact Or.inr (hfits _ [] _ (prepareRead_steady hd []))
  · rintro (hnone | hle) dev h call hcall
    · obtain ⟨hsome, -, -⟩ := prepareRead_cases hcall
      rw [hnone] at hsome
      cases hsome
    · obtain ⟨-, hcount, hblock⟩ := prepareRead_cases hcall
      rw [hcount]
      exact hle.trans hblock

/-- `read 0 0 8388609`. -/
def hugeRead : List UInt8 :=
  [114, 101, 97, 100, 32, 48, 32, 48, 32, 56, 51, 56, 56, 54, 48, 57]

/-- A disk of the size of the request. -/
def hugeDisk : Disk :=
  ⟨"ata00", .ataPio, 8388609, 512, 8388609 * 512, some (.ata ⟨0x1F0, 0x3F6, true, true, 8388609⟩)⟩

/-- With one disk registered, `read 0 0 8388609` has the driver fill 8388609 sectors of a block of
512 bytes. -/
theorem not_fitsBuffer_hugeRead : ¬FitsBuffer (Registry.empty.add hugeDisk) hugeRead := by
  intro hfits
  have hcall := hfits (steadyMachine 0 0 0) [] _ (prepareRead_steady (d := hugeDisk) (by decide) [])
  exact absurd hcall (by decide)

end Aetherion.Shell
