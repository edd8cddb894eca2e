import Mathlib.Data.List.GetD
import Mathlib.Data.Option.Basic
import Mathlib.Data.Int.Notation
import Mathlib.Data.Nat.Notation

/-!
# The layout of the disk image

Four files have to agree on where things are on the disk.  `create_disk_image.cmake` writes the
image, `generate_kernel_sectors.cmake` counts the sectors of the kernel, and the two stages of the
boot loader read from the addresses they have as constants.

They do not agree: stage 2 and the kernel are written one sector before the place they are read
from.  A disk on which both are where they are read from is one that looks the same a sector
further on (`eq_default_of_shift`), so there is nothing but zeros on it.
-/

set_option autoImplicit false

namespace Aetherion.Boot

/-- The bytes of a file, which are also the value of a variable it is read into. -/
abbrev Bytes := List UInt8

/-! ## The image -/

/-- The commands for which `create_disk_image.cmake` has forms that are not documented: `math` has
no `STRING LENGTH`, and `string(REPEAT …)` takes a number, where the script gives it the name of a
variable.  A CMake that does not stop at them is taken to do what they say. -/
structure CMake where
  /-- `math(STRING LENGTH s out)`. -/
  mathStringLength : Bytes → Option ℕ
  length_of_eq : ∀ {s n}, mathStringLength s = some n → n = s.length
  /-- `string(REPEAT s count out)`, with the value of the variable `count`. -/
  stringRepeat : Bytes → ℤ → Option Bytes
  repeat_of_eq : ∀ {s n t}, stringRepeat s n = some t → t = (List.replicate n.toNat s).flatten

/-- `if(s STRLESS t)`. -/
def strLess (s t : Bytes) : Bool := decide (s < t)

/-- The check of `create_disk_image.cmake` on stage 1; if it fails, it is a `FATAL_ERROR`. -/
def checkStage1 (cmake : CMake) (stage1Bin : Bytes) : Option Unit :=
  if strLess stage1Bin [0x35, 0x31, 0x32] then some ()
  else do
    let stage1Len ← cmake.mathStringLength stage1Bin
    guard (stage1Len = 512)

/-- Stage 2 as `create_disk_image.cmake` pads it. -/
def padStage2 (cmake : CMake) (stage2Bin : Bytes) : Option Bytes := do
  let stage2Len ← cmake.mathStringLength stage2Bin
  let stage2Pad : ℤ := 8192 - stage2Len
  if 0 < stage2Pad then do
    let stage2Padding ← cmake.stringRepeat [0] stage2Pad
    return stage2Bin ++ stage2Padding
  else return stage2Bin

/-- `create_disk_image.cmake`: what is written to `aetherion.img`, unless the script stops. -/
def createDiskImage (cmake : CMake) (stage1Bin stage2Bin kernelBin : Bytes) : Option Bytes := do
  checkStage1 cmake stage1Bin
  let stage2Padded ← padStage2 cmake stage2Bin
  return stage1Bin ++ stage2Padded ++ kernelBin

/-- `generate_kernel_sectors.cmake`: the file is read as hexadecimal digits. -/
def kernelSectors (kernelBin : Bytes) : ℕ :=
  let kernelHexLen := 2 * kernelBin.length
  let kernelSize := kernelHexLen / 2
  (kernelSize + 511) / 512

/-! ## What is read -/

/-- `STAGE2_LBA_START` of `stage1.asm`. -/
def stage2LbaStart : ℕ := 2

/-- `STAGE2_SECTORS` of `stage1.asm`. -/
def stage2Sectors : ℕ := 16

/-- `KERNEL_LBA_START` of `stage2.asm`. -/
def kernelLbaStart : ℕ := 18

/-- A medium: the byte at a position, if there is one. -/
abbrev Medium := ℕ → Option UInt8

/-- The image by itself, the last sector filled up. -/
def imageMedium (image : Bytes) : Medium := fun i ↦
  if i < 512 * ((image.length + 511) / 512) then some (image.getD i 0) else none

/-- The image on a medium that goes on with zeros. -/
def zeroFilled (image : Bytes) : Medium := fun i ↦ some (image.getD i 0)

/-- From sector `lba` on, the medium has these bytes. -/
def Medium.Holds (m : Medium) (lba : ℕ) (bytes : Bytes) : Prop :=
  ∀ i (hi : i < bytes.length), m (512 * lba + i) = some bytes[i]

/-- Stage 2 with its padding. -/
def padded (stage2Bin : Bytes) : Bytes :=
  stage2Bin ++ List.replicate (512 * stage2Sectors - stage2Bin.length) 0

/-- What is read is what was meant: stage 2, and sectors that begin with the kernel and have all
of it. -/
def Medium.Agrees (m : Medium) (stage2Bin kernelBin : Bytes) : Prop :=
  m.Holds stage2LbaStart (padded stage2Bin) ∧
    ∃ sectors : Bytes, sectors.length = 512 * kernelSectors kernelBin ∧
      m.Holds kernelLbaStart sectors ∧ kernelBin <+: sectors

/-! ## The two layouts -/

section
variable {cmake : CMake} {stage1Bin stage2Bin kernelBin image : Bytes}

theorem kernelSectors_eq (kernelBin : Bytes) :
    kernelSectors kernelBin = (kernelBin.length + 511) / 512 := by
  simp only [kernelSectors]
  omega

theorem length_padded (h : stage2Bin.length ≤ 8192) : (padded stage2Bin).length = 8192 := by
  rw [padded, List.length_append, List.length_replicate, stage2Sectors]
  omega

theorem padStage2_eq {stage2Padded : Bytes} (h : stage2Bin.length ≤ 8192)
    (hpadded : padStage2 cmake stage2Bin = some stage2Padded) :
    stage2Padded = padded stage2Bin := by
  obtain ⟨stage2Len, hlen, hpadded⟩ := Option.bind_eq_some_iff.mp hpadded
  obtain rfl := cmake.length_of_eq hlen
  have hpad : 512 * stage2Sectors - stage2Bin.length = (8192 - (stage2Bin.length : ℤ)).toNat := by
    rw [stage2Sectors]
    omega
  rw [padded, hpad]
  dsimp only at hpadded
  split at hpadded
  · obtain ⟨stage2Padding, hpadding, hpadded⟩ := Option.bind_eq_some_iff.mp hpadded
    obtain rfl := Option.some_inj.mp hpadded
    rw [cmake.repeat_of_eq hpadding, List.flatten_replicate_singleton]
  · obtain rfl := Option.some_inj.mp hpadded
    rw [show (8192 - (stage2Bin.length : ℤ)).toNat = 0 by omega, List.replicate_zero,
      List.append_nil]

/-- **What is written**, one part directly after the other. -/
theorem createDiskImage_eq (h : stage2Bin.length ≤ 8192)
    (himage : createDiskImage cmake stage1Bin stage2Bin kernelBin = some image) :
    image = stage1Bin ++ (padded stage2Bin ++ kernelBin) := by
  obtain ⟨-, -, himage⟩ := Option.bind_eq_some_iff.mp himage
  obtain ⟨stage2Padded, hpadded, himage⟩ := Option.bind_eq_some_iff.mp himage
  obtain rfl := Option.some_inj.mp himage
  rw [padStage2_eq h hpadded, List.append_assoc]

/-- A byte of the image after the first sector. -/
theorem getD_image (h : stage1Bin.length = 512) (body : Bytes) (i : ℕ) :
    (stage1Bin ++ body).getD (512 + i) 0 = body.getD i 0 := by
  rw [List.getD_append_right _ _ _ _ (by omega), h, Nat.add_sub_cancel_left]

/-- **A list that is the same some places further on** has nothing but the default in it. -/
theorem eq_default_of_shift {α : Type} {l : List α} {d : α} {k : ℕ} (hk : 0 < k)
    (h : ∀ i < l.length, l.getD (k + i) d = l.getD i d) (i : ℕ) : l.getD i d = d := by
  -- from the end of the list backwards
  induction hn : l.length - i using Nat.strongRecOn generalizing i with
  | ind n ih =>
    by_cases hi : i < l.length
    · rw [← h i hi]
      exact ih _ (by omega) (k + i) rfl
    · exact List.getD_eq_default _ _ (by omega)

/-- Where both layouts are right, the part after stage 1 is the same a sector further on. -/
theorem shift_of_agrees (h₁ : stage1Bin.length = 512) (h₂ : stage2Bin.length ≤ 8192)
    (hagrees : (zeroFilled (stage1Bin ++ (padded stage2Bin ++ kernelBin))).Agrees stage2Bin
      kernelBin) (i : ℕ) (hi : i < (padded stage2Bin ++ kernelBin).length) :
    (padded stage2Bin ++ kernelBin).getD (512 + i) 0 =
      (padded stage2Bin ++ kernelBin).getD i 0 := by
  have hpadded := length_padded h₂
  obtain ⟨hstage2, sectors, -, hkernel, rest, rfl⟩ := hagrees
  rw [List.length_append, hpadded] at hi
  rcases Nat.lt_or_ge i 8192 with hlt | hge
  · have hread := Option.some_inj.mp (hstage2 i (by omega))
    rw [show 512 * stage2LbaStart + i = 512 + (512 + i) by rw [stage2LbaStart]; omega,
      getD_image h₁] at hread
    rw [hread, List.getD_append _ _ _ _ (by omega), List.getD_eq_getElem]
  · obtain ⟨j, rfl⟩ := Nat.exists_eq_add_of_le hge
    have hread := Option.some_inj.mp (hkernel j (by rw [List.length_append]; omega))
    rw [show 512 * kernelLbaStart + j = 512 + (512 + (8192 + j)) by rw [kernelLbaStart]; omega,
      getD_image h₁, List.getElem_append_left (by omega)] at hread
    rw [hread, List.getD_append_right _ _ _ _ (by omega), hpadded, Nat.add_sub_cancel_left,
      List.getD_eq_getElem]

theorem mem_padded {b : UInt8} (hb : b ∈ padded stage2Bin) : b ∈ stage2Bin ∨ b = 0 := by
  rw [padded, List.mem_append] at hb
  exact hb.imp_right List.eq_of_mem_replicate

/-- A list of zeros has no other byte. -/
theorem getD_of_forall_zero {l : Bytes} (h : ∀ b ∈ l, b = 0) (i : ℕ) : l.getD i 0 = 0 := by
  by_cases hi : i < l.length
  · rw [List.getD_eq_getElem _ _ hi]
    exact h _ (List.getElem_mem hi)
  · exact List.getD_eq_default _ _ (by omega)

/-- **On a medium that goes on with zeros** the two layouts only agree about zeros. -/
theorem agrees_zeroFilled_iff (h₁ : stage1Bin.length = 512) (h₂ : stage2Bin.length ≤ 8192) :
    (zeroFilled (stage1Bin ++ (padded stage2Bin ++ kernelBin))).Agrees stage2Bin kernelBin ↔
      ∀ b ∈ stage2Bin ++ kernelBin, b = 0 := by
  constructor
  · intro hagrees b hb
    have hmem : b ∈ padded stage2Bin ++ kernelBin := by
      rw [padded, List.append_assoc, List.mem_append]
      exact (List.mem_append.mp hb).imp_right (List.mem_append_right _)
    obtain ⟨i, hi, rfl⟩ := List.getElem_of_mem hmem
    rw [← List.getD_eq_getElem _ 0 hi]
    exact eq_default_of_shift (by decide) (shift_of_agrees h₁ h₂ hagrees) i
  · intro hzero
    have hbody : ∀ b ∈ padded stage2Bin ++ kernelBin, b = 0 := by
      intro b hb
      rcases List.mem_append.mp hb with hb | hb
      · exact (mem_padded hb).elim (fun hb ↦ hzero b (List.mem_append_left _ hb)) id
      · exact hzero b (List.mem_append_right _ hb)
    -- whatever is read, from the first sector on, is zero
    have hread (lba : ℕ) (hlba : 0 < lba) (bytes : Bytes) (hbytes : ∀ b ∈ bytes, b = 0) :
        (zeroFilled (stage1Bin ++ (padded stage2Bin ++ kernelBin))).Holds lba bytes := by
      intro i hi
      obtain ⟨j, hj⟩ : ∃ j, 512 * lba + i = 512 + j := ⟨512 * lba + i - 512, by omega⟩
      rw [zeroFilled, hj, getD_image h₁, getD_of_forall_zero hbody, hbytes _ (List.getElem_mem hi)]
    refine ⟨hread _ (by decide) _ fun b hb ↦ hbody b (List.mem_append_left _ hb),
      kernelBin ++ List.replicate (512 * kernelSectors kernelBin - kernelBin.length) 0, ?_,
      hread _ (by decide) _ fun b hb ↦ ?_, List.prefix_append ..⟩
    · rw [List.length_append, List.length_replicate, kernelSectors_eq]
      omega
    · rcases List.mem_append.mp hb with hb | hb
      · exact hbody b (List.mem_append_right _ hb)
      · exact List.eq_of_mem_replicate hb

/-- **The image by itself** is a sector too short for what is read. -/
theorem not_agrees_imageMedium (h₁ : stage1Bin.length = 512) (h₂ : stage2Bin.length ≤ 8192) :
    ¬(imageMedium (stage1Bin ++ (padded stage2Bin ++ kernelBin))).Agrees stage2Bin kernelBin := by
  rintro ⟨hstage2, sectors, hlen, hkernel, -⟩
  have hpadded := length_padded h₂
  have hsectors := kernelSectors_eq kernelBin
  have hmissing (i : ℕ) (hi : 512 * (17 + kernelSectors kernelBin) ≤ i) :
      imageMedium (stage1Bin ++ (padded stage2Bin ++ kernelBin)) i = none := by
    rw [imageMedium, if_neg]
    simp only [List.length_append]
    omega
  rcases Nat.eq_zero_or_pos (kernelSectors kernelBin) with hzero | hpos
  · -- the last sector of stage 2
    have h := hstage2 8191 (by omega)
    rw [hmissing _ (by rw [stage2LbaStart]; omega)] at h
    cases h
  · -- the last sector of the kernel
    have h := hkernel (512 * kernelSectors kernelBin - 1) (by omega)
    rw [hmissing _ (by rw [kernelLbaStart]; omega)] at h
    cases h

end

/-! ## Whether they agree -/

/-- A CMake that takes the commands. -/
def lenient : CMake where
  mathStringLength s := some s.length
  length_of_eq h := (Option.some_inj.mp h).symm
  stringRepeat s n := some (List.replicate n.toNat s).flatten
  repeat_of_eq h := (Option.some_inj.mp h).symm

/-- With it there is always an image. -/
theorem createDiskImage_lenient {stage1Bin stage2Bin : Bytes} (h₁ : stage1Bin.length = 512)
    (h₂ : stage2Bin.length ≤ 8192) (kernelBin : Bytes) :
    createDiskImage lenient stage1Bin stage2Bin kernelBin =
      some (stage1Bin ++ (padded stage2Bin ++ kernelBin)) := by
  have hcheck : checkStage1 lenient stage1Bin = some () := by
    rw [checkStage1]
    split
    · rfl
    · exact if_pos h₁
  have hpad : ∃ stage2Padded, padStage2 lenient stage2Bin = some stage2Padded := by
    simp only [padStage2, lenient, Option.bind_eq_bind, Option.bind_some]
    split <;> exact ⟨_, rfl⟩
  obtain ⟨stage2Padded, hpadded⟩ := hpad
  rw [createDiskImage, hcheck, hpadded, padStage2_eq h₂ hpadded, ← List.append_assoc]
  rfl

/-- **The image is never read as it was written.**  Whatever the files are, if the script comes to
its end then stage 2 or the kernel is not where it is looked for; and not on a larger medium
either, if there is a byte in them that is not zero. -/
theorem image_agrees_iff (cmake : CMake) (stage1Bin stage2Bin kernelBin : Bytes)
    (h₁ : stage1Bin.length = 512) (h₂ : stage2Bin.length ≤ 8192) :
    (¬∃ image, createDiskImage cmake stage1Bin stage2Bin kernelBin = some image ∧
      (imageMedium image).Agrees stage2Bin kernelBin) ∧
    ∀ image, createDiskImage cmake stage1Bin stage2Bin kernelBin = some image →
      ((zeroFilled image).Agrees stage2Bin kernelBin ↔ ∀ b ∈ stage2Bin ++ kernelBin, b = 0) := by
  refine ⟨fun ⟨image, himage, hagrees⟩ ↦ ?_, fun image himage ↦ ?_⟩
  · rw [createDiskImage_eq h₂ himage] at hagrees
    exact not_agrees_imageMedium h₁ h₂ hagrees
  · rw [createDiskImage_eq h₂ himage]
    exact agrees_zeroFilled_iff h₁ h₂

/-- A boot sector. -/
def bootSector : Bytes := 0xFA :: List.replicate 509 0 ++ [0x55, 0xAA]

theorem length_bootSector : bootSector.length = 512 := by
  rw [bootSector, List.length_append, List.length_cons, List.length_replicate]
  rfl

theorem image_agrees_never_one_byte :
    ¬∃ image, createDiskImage lenient bootSector [0xFA] [0x48] = some image ∧
      (imageMedium image).Agrees [0xFA] [0x48] :=
  (image_agrees_iff lenient bootSector [0xFA] [0x48] length_bootSector (by decide)).1

/-- An image of two programs of one byte is written, and they are not where they are looked for. -/
theorem createDiskImage_one_byte :
    ∃ image, createDiskImage lenient bootSector [0xFA] [0x48] = some image ∧
      ¬(imageMedium image).Agrees [0xFA] [0x48] ∧ ¬(zeroFilled image).Agrees [0xFA] [0x48] := by
  refine ⟨_, createDiskImage_lenient length_bootSector (by decide) _,
    not_agrees_imageMedium length_bootSector (by decide), fun hagrees ↦ ?_⟩
  have hzero := (agrees_zeroFilled_iff length_bootSector (by decide)).mp hagrees
  exact absurd (hzero 0xFA (by decide)) (by decide)

end Aetherion.Boot
