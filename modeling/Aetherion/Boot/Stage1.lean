import Aetherion.Base.RealMode

/-!
# Stage 1

The boot sector, from its first instruction to the far jump.  The BIOS and the ports can answer
what they like.  Where the assembler has put the variables, and what address each `call` pushes, is
left open (`Boot.Labels`), but for what `ORG` and the size of a sector say about it.
-/

set_option autoImplicit false

namespace Aetherion.Boot

open RealMode

/-! ## Labels -/

/-- The calls of stage 1. -/
inductive Site where
  | started
  | a20On
  | driveParams
  | lbaCheck
  | lbaOk
  | lbaRead
  | lbaErrorCode
  | lbaError
  | lbaDone
  | chsFallback
  | readChs
  | chsDone
  | jumpStage2
  | printDisk
  | a20Failed
  | printA20
  | upperNibble
  | lowerNibble

/-- Where the labels of stage 1 are. -/
structure Labels where
  /-- The address that a call pushes. -/
  ret : Site → UInt16
  bootDrive : UInt16
  heads : UInt16
  secsTrk : UInt16
  dap : UInt16
  msgDisk : UInt16
  msgA20 : UInt16
  ret_mem : ∀ c, 0x7C00 ≤ (ret c).toNat ∧ (ret c).toNat < 0x7DFE
  bootDrive_mem : 0x7C00 ≤ bootDrive.toNat ∧ bootDrive.toNat < 0x7DFE
  heads_mem : 0x7C00 ≤ heads.toNat ∧ heads.toNat + 1 < 0x7DFE
  secsTrk_mem : 0x7C00 ≤ secsTrk.toNat ∧ secsTrk.toNat + 1 < 0x7DFE
  bootDrive_heads : bootDrive ≠ heads ∧ bootDrive ≠ heads + 1
  bootDrive_secsTrk : bootDrive ≠ secsTrk ∧ bootDrive ≠ secsTrk + 1

/-- Code of the boot sector, which ends at `0x7E00`. -/
abbrev Stage1 := Code 0x7E00

/-! ## Debug output -/

/-- `dbg_putc`: the character stands behind the call. -/
def dbgPutc : Stage1 Unit := do
  let ip ← pop
  modify fun s ↦ { s with si := ip }
  -- `lodsb`
  modify fun s ↦ { s with ax := setLow s.ax (s.load8 s.ds s.si), si := s.si + 1 }
  let s ← get
  push s.si
  modify fun s ↦ { s with ax := setHigh s.ax 0x0E, bx := 0x0007 }
  int 0x10

/-- `dbg_put_nibble`. -/
def dbgPutNibble : Stage1 Unit := do
  modify fun s ↦ { s with ax := setLow s.ax ((low s.ax &&& 0x0F) + 0x30) }
  modify fun s ↦ if low s.ax ≤ 0x39 then s else { s with ax := setLow s.ax (low s.ax + 7) }
  modify fun s ↦ { s with ax := setHigh s.ax 0x0E, bx := 0x0007 }
  int 0x10

/-- `print`, which may find no end in this many characters. -/
def print : ℕ → Stage1 Unit
  | 0 => stop .endless
  | n + 1 => do
    -- `lodsb`
    modify fun s ↦ { s with ax := setLow s.ax (s.load8 s.ds s.si), si := s.si + 1 }
    let s ← get
    if low s.ax = 0 then pure ()
    else do
      modify fun s ↦ { s with ax := setHigh s.ax 0x0E, bx := 0x0007 }
      int 0x10
      print n

section
variable (L : Labels) (fuel : ℕ)

/-- `call dbg_putc`, and the character. -/
def callDbgPutc (c : Site) : Stage1 Unit := call (L.ret c) (L.ret c + 1) dbgPutc

/-- A call of any other routine. -/
def callAt (c : Site) (body : Stage1 Unit) : Stage1 Unit := call (L.ret c) (L.ret c) body

/-- `dbg_put_hex`. -/
def dbgPutHex : Stage1 Unit := do
  let s ← get
  push s.ax
  modify fun s ↦ { s with ax := setLow s.ax (low s.ax >>> 4) }
  callAt L .upperNibble dbgPutNibble
  let ax ← pop
  modify fun s ↦ { s with ax := ax }
  callAt L .lowerNibble dbgPutNibble

/-- A message, and the end. -/
def die (c : Site) (msg : UInt16) : Stage1 Unit := do
  modify fun s ↦ { s with si := msg }
  callAt L c (print fuel)
  stop .halted

/-! ## The drive -/

/-- The beginning of `get_drive_params`. -/
def pushParams : Stage1 Unit := do
  let s ← get
  push s.ax
  push s.bx
  push s.cx
  push s.dx
  push s.es
  push s.di

/-- The end of `get_drive_params`, on both of its ways. -/
def popParams : Stage1 Unit := do
  let di ← pop
  modify fun s ↦ { s with di := di }
  let es ← pop
  modify fun s ↦ { s with es := es }
  let dx ← pop
  modify fun s ↦ { s with dx := dx }
  let cx ← pop
  modify fun s ↦ { s with cx := cx }
  let bx ← pop
  modify fun s ↦ { s with bx := bx }
  let ax ← pop
  modify fun s ↦ { s with ax := ax }

/-- What `get_drive_params` makes of the reply. -/
def storeParams : Stage1 Unit := do
  let s ← get
  if s.cf then
    modify fun s ↦ (s.store16 s.ds L.secsTrk 18).store16 s.ds L.heads 2
  else
    modify fun s ↦ { s with ax := (low s.cx).toUInt16 &&& 0x3F }
    modify fun s ↦ s.store16 s.ds L.secsTrk s.ax
    modify fun s ↦ { s with ax := (high s.dx).toUInt16 + 1 }
    modify fun s ↦ s.store16 s.ds L.heads s.ax

/-- `get_drive_params`. -/
def getDriveParams : Stage1 Unit := do
  pushParams
  modify fun s ↦
    { s with ax := setHigh s.ax 0x08, dx := setLow s.dx (s.load8 s.ds L.bootDrive) }
  int 0x13
  storeParams L
  popParams

/-- `div` by a word in memory. -/
def divMem (off : UInt16) : Stage1 Unit := do
  let s ← get
  match divWord s.dx s.ax (s.load16 s.ds off) with
  | none => stop .divideError
  | some (quot, rem) => modify fun s ↦ { s with ax := quot, dx := rem }

/-- `read_chs_fallback`.  The number of the function is overwritten by the segment. -/
def readChsFallback : Stage1 Unit := do
  modify fun s ↦ { s with ax := 2, dx := 0 }
  divMem L.secsTrk
  modify fun s ↦ { s with dx := s.dx + 1 }
  modify fun s ↦ { s with cx := setHigh (setLow s.cx (low s.dx)) 0 }
  modify fun s ↦ { s with dx := 0 }
  divMem L.heads
  modify fun s ↦ { s with dx := setHigh s.dx (low s.dx) }
  modify fun s ↦ { s with cx := setHigh s.cx (low s.ax) }
  modify fun s ↦ { s with ax := setLow (setHigh s.ax 0x02) 16 }
  modify fun s ↦ { s with dx := setLow s.dx (s.load8 s.ds L.bootDrive), bx := 0 }
  modify fun s ↦ { s with ax := 0x1000, es := 0x1000 }
  int 0x13

/-! ## The way to stage 2 -/

/-- The first instructions. -/
def start : Stage1 Unit := do
  modify fun s ↦ { s with ax := 0, ds := 0, es := 0, ss := 0, sp := 0x7C00 }
  modify fun s ↦ s.store8 s.ds L.bootDrive (low s.dx)
  callDbgPutc L .started

/-- The A20 gate. -/
def enableA20 : Stage1 Unit := do
  let v ← inb 0x92
  modify fun s ↦ { s with ax := setLow s.ax v }
  if v &&& 2 ≠ 0 then callDbgPutc L .a20On
  else do
    modify fun s ↦ { s with ax := setLow s.ax (v ||| 2) }
    outb 0x92 (v ||| 2)
    let v ← inb 0x92
    modify fun s ↦ { s with ax := setLow s.ax v }
    if v &&& 2 ≠ 0 then callDbgPutc L .a20On
    else do
      callDbgPutc L .a20Failed
      die L fuel .printA20 L.msgA20

/-- Whether the BIOS knows LBA packets. -/
def checkLba : Stage1 Bool := do
  callDbgPutc L .lbaCheck
  modify fun s ↦
    { s with
      ax := setHigh s.ax 0x41
      bx := 0x55AA
      dx := setLow s.dx (s.load8 s.ds L.bootDrive) }
  int 0x13
  let s ← get
  return !s.cf && s.bx = 0xAA55 && low s.cx &&& 1 ≠ 0

/-- Stage 2 is read with a packet. -/
def readLba : Stage1 Bool := do
  callDbgPutc L .lbaOk
  callDbgPutc L .lbaRead
  modify fun s ↦ { s with dx := setLow s.dx (s.load8 s.ds L.bootDrive) }
  let s ← get
  push s.ds
  modify fun s ↦ { s with ax := 0x07C0, ds := 0x07C0 }
  modify fun s ↦ { s with si := L.dap, ax := setHigh s.ax 0x42 }
  int 0x13
  let ds ← pop
  modify fun s ↦ { s with ds := ds }
  let s ← get
  if s.cf then
    modify fun s ↦ { s with ax := setLow s.ax (high s.ax) }
    callAt L .lbaErrorCode (dbgPutHex L)
    callDbgPutc L .lbaError
    return false
  else
    callDbgPutc L .lbaDone
    return true

/-- `.use_chs` -/
def useChs : Stage1 Unit := do
  callDbgPutc L .chsFallback
  callAt L .readChs (readChsFallback L)
  let s ← get
  if s.cf then die L fuel .printDisk L.msgDisk
  else callDbgPutc L .chsDone

/-- `.stage2_loaded`: the store for stage 2, and what comes after it. -/
def handOff : Stage1 Unit := do
  let s ← get
  push s.ds
  modify fun s ↦ { s with ax := 0, ds := 0 }
  modify fun s ↦ s.store8 s.ds 0x7BFF (low s.dx)
  let ds ← pop
  modify fun s ↦ { s with ds := ds }
  callDbgPutc L .jumpStage2

/-- The two ways to read stage 2. -/
def loadStage2 : Stage1 Unit := do
  let lba ← checkLba L
  if lba then
    let loaded ← readLba L
    if loaded then pure () else useChs L fuel
  else useChs L fuel

/-- Stage 1 up to `jmp 0x1000:0x0000`. -/
def stage1 : Stage1 Unit := do
  start L
  enableA20 L fuel
  callAt L .driveParams (getDriveParams L)
  loadStage2 L fuel
  handOff L

end

/-- `stage2_start` as far as the drive is concerned, for a variable at this offset. -/
def stage2Start (bootDrive : UInt16) (s : Cpu) : Cpu :=
  let s := { s with ax := 0x1000, ds := 0x1000, es := 0x1000, ss := 0x1000, sp := 0x9000 }
  let s := s.push s.ds
  let s := { s with ax := 0, ds := 0 }
  let s := { s with dx := setLow s.dx (s.load8 s.ds 0x7BFF) }
  let s := { s with bx := setLow s.bx (low s.dx) }
  let s := { s with ds := s.top }.drop
  s.store8 s.ds bootDrive (low s.bx)

end Aetherion.Boot
