import Aetherion.Base.Triple
import Aetherion.Boot.ReadChs

/-!
# Stage 2 up to protected mode

`stage2_start` and what it calls, up to the `mov cr0` that turns protected mode on.  Stage 2 prints
one more character before it jumps to `pm_entry`, but with protected mode on an `INT 10h` is no call
of the BIOS, and what becomes of it is no matter of this file.

The variables are those of `Boot.Chs`; what the stack holds between a `call` and its `ret` is left
out, since the only routine that looks at it is `dbg_putc`, for the character behind the call.

`INT 10h` AH=0Eh returns nothing.  `INT 13h` returns what it likes in the general registers, ES and
the carry flag, and changes no memory but the buffer of a read.  When that buffer is where stage 2
is, there is no telling what comes next (`Stop.overwritten`).
-/

set_option autoImplicit false

namespace Aetherion.Boot.Stage2

open RealMode Driver Driver.Prog

/-! ## The outside -/

/-- The registers the BIOS gets and returns, in their lower halves. -/
structure Regs where
  ax : UInt16
  bx : UInt16
  cx : UInt16
  dx : UInt16
  si : UInt16
  di : UInt16
  es : UInt16
  cf : Bool

/-- The registers as a disk call. -/
def Regs.call (r : Regs) : Int13 :=
  ⟨high r.ax, low r.ax, high r.cx, low r.cx, high r.dx, low r.dx, r.es, r.bx⟩

/-- What `cpuid` returns. -/
structure Cpuid where
  eax : UInt32
  ebx : UInt32
  ecx : UInt32
  edx : UInt32

inductive Out where
  /-- `INT 10h`. -/
  | int10 (r : Regs)
  | popfd (eflags : UInt32)
  | lgdt
  | movCr0 (v : UInt32)

inductive In where
  | int13 (r : Regs)
  | pushfd
  | cpuid (leaf : UInt32)
  /-- `mov eax, cr0`. -/
  | cr0

/-- The BIOS and the processor. -/
def bios : Iface where
  Out := Out
  In := In
  Reply
    | .int13 _ => Regs
    | .pushfd => UInt32
    | .cpuid _ => Cpuid
    | .cr0 => UInt32

/-- Why stage 2 does not get to protected mode. -/
inductive Stop where
  /-- It has printed a message and executed `hlt`. -/
  | halted
  /-- A divide error. -/
  | divideError
  /-- `read_chs` goes on and on. -/
  | endless
  /-- A read has gone to where stage 2 is. -/
  | overwritten

/-- The registers, and the variables. -/
structure State extends Regs where
  vars : Chs

abbrev Code (α : Type) := StateT State (ExceptT Stop (Prog bios)) α

def emit (o : Out) : Code Unit := liftM (Prog.emit (F := bios) o)

def ask (i : In) : Code (bios.Reply i) := liftM (Prog.ask (F := bios) i)

def pushfd : Code UInt32 := ask .pushfd

def movFromCr0 : Code UInt32 := ask .cr0

/-- Stage 2 has its sixteen sectors at `0x10000`. -/
def Overwrites (c : Int13) : Prop :=
  c.ah = 0x02 ∧ c.address < 0x12000 ∧ 0x10000 < c.address + 512 * c.al.toNat

instance (c : Int13) : Decidable (Overwrites c) := inferInstanceAs (Decidable (_ ∧ _))

/-- `int 0x13`. -/
def int13 : Code Unit := do
  let s ← get
  let r : Regs ← ask (.int13 s.toRegs)
  if Overwrites s.call then throw .overwritten
  else modify fun s ↦ { s with toRegs := r }

/-! ## Debug output -/

/-- The calls of `dbg_putc` and of `print`. -/
inductive Site where
  | entry
  | cpuChk
  | cpuOk
  | lbaChk
  | lbaOk
  | lbaRead
  | lbaError
  | lbaDone
  | chsFb
  | chsLoop
  | chsDone
  | pmGdt
  | pmCr0
  | cpuErrLm
  | diskErr

/-- The character behind the call. -/
def Site.char : Site → UInt8
  | .entry => 65
  | .cpuChk => 66
  | .cpuOk => 67
  | .lbaChk => 68
  | .lbaOk => 69
  | .lbaRead => 70
  | .lbaError => 52
  | .lbaDone => 71
  | .chsFb => 72
  | .chsLoop => 73
  | .chsDone => 74
  | .pmGdt => 75
  | .pmCr0 => 76
  | .cpuErrLm => 50
  | .diskErr => 52

/-- Where the labels of stage 2 are. -/
structure Labels where
  /-- The address behind the character of a call. -/
  behind : Site → UInt16
  dap : UInt16
  msgCpuLm : UInt16
  msgDisk : UInt16

/-- `INT 10h` AH=0Eh, for the character in AL. -/
def teletype : Code Unit := do
  modify fun s ↦ { s with ax := setHigh s.ax 0x0E, bx := 0x0007 }
  let s ← get
  emit (.int10 s.toRegs)

/-- `lodsb`, of this character. -/
def lodsb (c : UInt8) : Code Unit :=
  modify fun s ↦ { s with ax := setLow s.ax c, si := s.si + 1 }

/-- `print`, of this message. -/
def print : List UInt8 → Code Unit
  | [] => lodsb 0
  | c :: text => do
    lodsb c
    teletype
    print text

/-- `dbg_put_nibble`. -/
def dbgPutNibble : Code Unit := do
  modify fun s ↦ { s with ax := setLow s.ax ((low s.ax &&& 0x0F) + 0x30) }
  modify fun s ↦ if low s.ax ≤ 0x39 then s else { s with ax := setLow s.ax (low s.ax + 7) }
  teletype

/-- `dbg_put_hex`. -/
def dbgPutHex : Code Unit := do
  let s ← get
  modify fun s ↦ { s with ax := setLow s.ax (low s.ax >>> 4) }
  dbgPutNibble
  -- `pop ax`
  modify fun t ↦ { t with ax := s.ax }
  dbgPutNibble

section
variable (L : Labels)

/-- `dbg_putc`: `lodsb` ends behind the character. -/
def dbgPutc (c : Site) : Code Unit := do
  modify fun s ↦ { s with ax := setLow s.ax c.char, si := L.behind c }
  teletype

/-- `msg_cpu_lm` and `msg_disk`, without their terminators. -/
def msgText : Site → List UInt8
  | .cpuErrLm => "Stage2: Long mode not supported\r\n".toUTF8.toList
  | _ => "Stage2: Disk error\r\n".toUTF8.toList

/-- An error character, a message, and the end. -/
def die (c : Site) (msg : UInt16) : Code Unit := do
  dbgPutc L c
  modify fun s ↦ { s with si := msg }
  print (msgText c)
  throw .halted

/-! ## The processor -/

/-- The ID flag, which can be changed if there is `cpuid`. -/
def idFlag : UInt32 := (1 : UInt32) <<< 21

/-- The bit for long mode. -/
def lmBit : UInt32 := (1 : UInt32) <<< 29

/-- `cpuid`, with the leaf in EAX. -/
def cpuid (leaf : UInt32) : Code Cpuid := do
  let r : Cpuid ← ask (.cpuid leaf)
  modify fun s ↦
    { s with
      ax := r.eax.toUInt16
      bx := r.ebx.toUInt16
      cx := r.ecx.toUInt16
      dx := r.edx.toUInt16 }
  return r

/-- `check_cpu64`. -/
def checkCpu64 : Code Unit := do
  let eflags ← pushfd
  emit (.popfd (eflags ^^^ idFlag))
  let eflags' ← pushfd
  emit (.popfd eflags)
  modify fun s ↦ { s with ax := (eflags' ^^^ eflags).toUInt16, cx := eflags.toUInt16 }
  if (eflags' ^^^ eflags) &&& idFlag = 0 then modify fun s ↦ { s with cf := true }
  else do
    let largest ← cpuid 0x80000000
    if largest.eax < 0x80000001 then modify fun s ↦ { s with cf := true }
    else do
      let features ← cpuid 0x80000001
      if features.edx &&& lmBit = 0 then modify fun s ↦ { s with cf := true }
      else modify fun s ↦ { s with cf := false }

/-! ## The drive -/

/-- What `get_drive_params` stores, from the reply. -/
def Regs.params (r : Regs) (v : Chs) : Chs :=
  if r.cf then { v with secsTrk := 18, heads := 2 }
  else { v with secsTrk := (low r.cx).toUInt16 &&& 0x3F, heads := (high r.dx).toUInt16 + 1 }

/-- `get_drive_params`.  `popad` leaves ES as the BIOS has returned it. -/
def getDriveParams : Code Unit := do
  let saved ← get
  modify fun s ↦ { s with ax := setHigh s.ax 0x08, dx := setLow s.dx s.vars.bootDrive }
  int13
  modify fun s ↦ { s with vars := s.params s.vars }
  modify fun s ↦
    { s with
      ax := saved.ax
      bx := saved.bx
      cx := saved.cx
      dx := saved.dx
      si := saved.si
      di := saved.di }

/-- Whether the kernel is to be read with a packet.  Only a call that fails has its reply looked at
any further. -/
def checkLba : Code Bool := do
  dbgPutc L .lbaChk
  modify fun s ↦
    { s with ax := setHigh s.ax 0x41, bx := 0x55AA, dx := setLow s.dx s.vars.bootDrive }
  int13
  let s ← get
  return !s.cf || s.bx = 0xAA55 && low s.cx &&& 1 ≠ 0

/-- The kernel is read with a packet. -/
def readLba : Code Bool := do
  dbgPutc L .lbaOk
  dbgPutc L .lbaRead
  modify fun s ↦
    { s with si := L.dap, ax := setHigh s.ax 0x42, dx := setLow s.dx s.vars.bootDrive }
  int13
  let s ← get
  if s.cf then do
    modify fun s ↦ { s with ax := setLow s.ax (high s.ax) }
    dbgPutHex
    dbgPutc L .lbaError
    return false
  else do
    dbgPutc L .lbaDone
    return true

/-- `call lba2chs`.  What it leaves in AX and DX is loaded over before the next call. -/
def callLba2chs : Code Unit := do
  let s ← get
  match lba2chs s.vars with
  | none => throw .divideError
  | some v => modify fun s ↦ { s with vars := v }

/-- The registers for the next chunk. -/
def loadCall (s : State) : State :=
  { s with
    ax := setLow (setHigh s.ax 0x02) s.vars.cnt.toUInt8
    cx := setLow (setHigh s.cx s.vars.cyl.toUInt8) s.vars.sec
    dx := setLow (setHigh s.dx s.vars.hd) s.vars.bootDrive
    bx := s.vars.off
    es := s.vars.seg }

/-- The loop of `read_chs`, of at most so many passes.  It returns with the carry flag. -/
def readChsLoop : ℕ → Code Unit
  | 0 => throw .endless
  | n + 1 => do
    modify fun s ↦ { s with ax := s.vars.left }
    let s ← get
    if s.ax = 0 then modify fun s ↦ { s with cf := false }
    else do
      dbgPutc L .chsLoop
      modify fun s ↦ { s with cx := maxChsRead }
      modify fun s ↦ if s.cx.toInt16 ≤ s.ax.toInt16 then s else { s with cx := s.ax }
      modify fun s ↦ { s with vars := { s.vars with cnt := s.cx } }
      callLba2chs
      modify loadCall
      int13
      let s ← get
      if s.cf then modify fun s ↦ { s with cf := true }
      else do
        modify fun s ↦ { s with vars := s.vars.advance }
        readChsLoop n

/-- `read_chs`. -/
def readChs (kernelSectors : UInt16) (n : ℕ) : Code Unit := do
  modify fun s ↦ { s with vars := readChsStart kernelSectors s.vars }
  readChsLoop L n

/-! ## The way to protected mode -/

/-- The first instructions, with this byte at `0x7BFF`. -/
def start (drive : UInt8) : Code Unit := do
  modify fun s ↦ { s with ax := 0x1000, es := 0x1000 }
  modify fun s ↦ { s with ax := 0, dx := setLow s.dx drive }
  modify fun s ↦ { s with bx := setLow s.bx (low s.dx) }
  modify fun s ↦ { s with vars := { s.vars with bootDrive := low s.bx } }

/-- `.lba_fail`: the kernel is read in chunks. -/
def useChs (kernelSectors : UInt16) (n : ℕ) : Code Unit := do
  dbgPutc L .chsFb
  readChs L kernelSectors n
  let s ← get
  if s.cf then die L .diskErr L.msgDisk else dbgPutc L .chsDone

/-- `.kernel_loaded`, up to `mov cr0, eax`. -/
def enter : Code Unit := do
  dbgPutc L .pmGdt
  emit .lgdt
  dbgPutc L .pmCr0
  let cr0 ← movFromCr0
  modify fun s ↦ { s with ax := (cr0 ||| 1).toUInt16 }
  emit (.movCr0 (cr0 ||| 1))

/-- The two ways to read the kernel. -/
def loadKernel (kernelSectors : UInt16) (n : ℕ) : Code Unit := do
  let lba ← checkLba L
  if lba then do
    let loaded ← readLba L
    if loaded then pure () else useChs L kernelSectors n
  else useChs L kernelSectors n

/-- Stage 2 up to protected mode. -/
def stage2 (kernelSectors : UInt16) (n : ℕ) (drive : UInt8) : Code Unit := do
  start drive
  getDriveParams
  dbgPutc L .entry
  dbgPutc L .cpuChk
  checkCpu64
  let s ← get
  if s.cf then die L .cpuErrLm L.msgCpuLm
  else do
    dbgPutc L .cpuOk
    loadKernel L kernelSectors n
    enter L

end

end Aetherion.Boot.Stage2
