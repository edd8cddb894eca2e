import Aetherion.Base.Peripheral
import Aetherion.Ata.Addressing

/-!
# A drive that works

The drives of a channel with what is stored on them: for each unit, and each sector that a command
can name, a cell of 256 words; and for each unit what it says about itself.  They are never busy and
make no errors.  A command to read or write opens a data phase, in which the words of its sectors go
through the data port one after the other, and so does IDENTIFY.

Against these drives the loops of the driver are functions of what is stored: `readBuffer` is what
`ata_pio_read` makes of the buffer, and `written` what `ata_pio_write` makes of the cells.
-/

set_option autoImplicit false

namespace Aetherion.Ata

open Driver Driver.Prog Driver.Peripheral Storage

/-! ## The drives -/

/-- What is stored: by unit (the slave is `true`), sector, and word of the sector. -/
abbrev Cells := Bool → ℕ → ℕ → UInt16

/-- The data phase of a command. -/
structure Transfer where
  /-- The command. -/
  command : Command
  /-- How many words have gone through. -/
  word : ℕ

/-- The data phase that a command opens, if it has one. -/
def TaskFile.opens (t : TaskFile) (code : UInt8) : Option Transfer :=
  if isTransfer code then some ⟨t.command code, 0⟩
  else if isIdentify code then some ⟨{ t.command code with count := 1 }, 0⟩
  else none

/-- The phase after one more word, if there is one to follow. -/
def Transfer.next (t : Transfer) : Option Transfer :=
  if t.word + 1 < 256 * t.command.count then some { t with word := t.word + 1 } else none

/-- The two drives of a channel. -/
structure Drives where
  /-- The registers. -/
  taskFile : TaskFile
  /-- What is stored. -/
  cells : Cells
  /-- The data phase, if there is one. -/
  transfer : Option Transfer
  /-- The words each unit answers IDENTIFY with. -/
  identity : Bool → ℕ → UInt16

/-- READ SECTORS, READ SECTORS EXT and IDENTIFY. -/
def isRead (code : UInt8) : Bool := code = 0x20 ∨ code = 0x24 ∨ isIdentify code

/-- The word that the drives hand out next. -/
def Drives.word (d : Drives) (t : Transfer) : UInt16 :=
  if isIdentify t.command.code then d.identity t.command.slave t.word
  else d.cells t.command.slave (t.command.lba + t.word / 256) (t.word % 256)

/-- One word is stored. -/
def Cells.put (cells : Cells) (unit : Bool) (lba word : ℕ) (v : UInt16) : Cells :=
  fun u l w ↦ if u = unit ∧ l = lba ∧ w = word then v else cells u l w

/-- What the drives make of an exchange. -/
def Drives.step (base : UInt16) (d : Drives) : Exchange → Drives
  | .out (.outb p v) =>
    if p - base = 7 then { d with transfer := d.taskFile.opens v }
    else { d with taskFile := d.taskFile.write (p - base) v }
  | .out (.outw p v) =>
    match d.transfer with
    | some t =>
      if p = base ∧ isRead t.command.code = false then
        { d with
          cells := d.cells.put t.command.slave (t.command.lba + t.word / 256) (t.word % 256) v
          transfer := t.next }
      else d
    | none => d
  | .inp (.inw p) _ =>
    match d.transfer with
    | some t => if p = base ∧ isRead t.command.code then { d with transfer := t.next } else d
    | none => d
  | _ => d

/-- DRDY and, in a data phase, DRQ; never BSY or ERR. -/
def Drives.status (d : Drives) : UInt8 := if d.transfer.isSome then 0x58 else 0x50

/-- What the drives answer. -/
def Drives.reply (base : UInt16) (d : Drives) : (i : In) → Reply i
  | .inb p => if p - base = 7 then d.status else (0 : UInt8)
  | .inw p =>
    match d.transfer with
    | some t => if p = base ∧ isRead t.command.code then d.word t else (0 : UInt16)
    | none => (0 : UInt16)
  | i => steadyMachine 0 0 0 [] i

/-- The channel at `base` with its drives. -/
def drives (base : UInt16) : Peripheral machine Drives := ⟨Drives.reply base, Drives.step base⟩

variable {base : UInt16} {d₀ d : Drives}

/-- A write to a register. -/
theorem step_register (reg : UInt16) (v : UInt8) :
    (drives base).step d (.out (.outb (base + reg) v)) =
      if reg = 7 then { d with transfer := d.taskFile.opens v }
      else { d with taskFile := d.taskFile.write reg v } := by
  simp only [drives, Drives.step, register_of_port]

theorem runs_outb (reg : UInt16) (v : UInt8) :
    (drives base).Runs d₀ (outb (base + reg) v) d ()
      (if reg = 7 then { d with transfer := d.taskFile.opens v }
      else { d with taskFile := d.taskFile.write reg v }) :=
  (runs_emit _).of_eq rfl (step_register reg v)

/-- A status read. -/
theorem runs_status : (drives base).Runs d₀ (inb (base + 7)) d d.status d :=
  (runs_ask _).of_eq (if_pos (register_of_port base 7)) rfl

/-- What a drive is never changes. -/
theorem identity_step (base : UInt16) (d : Drives) (e : Exchange) :
    ((drives base).step d e).identity = d.identity := by
  simp only [drives, Drives.step]
  split
  · split <;> rfl
  · split
    · split <;> rfl
    · rfl
  · split
    · split <;> rfl
    · rfl
  · rfl

theorem identity_after (d : Drives) (h : Trace machine) :
    ((drives base).after d h).identity = d.identity :=
  view_after _ (fun d e _ ↦ identity_step base d e) (fun _ _ ↦ trivial) d

/-! ## Waiting -/

/-- In a data phase there is nothing to wait for. -/
theorem runs_ataWaitDrq {t : Transfer} (ht : d.transfer = some t) :
    (drives base).Runs d₀ (ataWaitDrq base 500) d 0 d := by
  have hstatus : d.status = 0x58 := by rw [Drives.status, ht]; rfl
  refine (runs_forLoop_error (n := 499999) ?_).bind (runs_pure _)
  refine runs_status.bind ?_
  rw [hstatus]
  exact runs_pure _

/-- A drive is always ready. -/
theorem runs_ataWaitReady : (drives base).Runs d₀ (ataWaitReady base 1000) d 0 d := by
  refine (runs_forLoop_error (n := 999999) ?_).bind (runs_pure _)
  refine runs_status.bind ?_
  rw [Drives.status]
  split <;> exact runs_pure _

/-! ## One sector -/

/-- The driver's command for a sector, as it opens a data phase. -/
def Drives.commanded (d : Drives) (lba : UInt64) (lba48 : Bool) (code : UInt8) : Drives :=
  { d with
    taskFile := d.taskFile.addressed lba lba48
    transfer := some ⟨⟨code, true, true, wireLba lba lba48, 1⟩, 0⟩ }

theorem runs_ataCommand (lba : UInt64) (lba48 : Bool) {ext short : UInt8}
    (hext : isExt ext = true ∧ isTransfer ext = true)
    (hshort : isExt short = false ∧ isTransfer short = true) :
    (drives base).Runs d₀ (ataCommand base lba lba48 ext short) d ()
      (d.commanded lba lba48 (if lba48 then ext else short)) := by
  have hcode := isTransfer_code lba48 hext hshort
  intro h hd
  refine ⟨rfl, ?_⟩
  rw [Drives.commanded, ← command_addressed d.taskFile lba lba48 hcode.1]
  cases lba48 <;>
    simp [ataCommand, ataSelectDrive, ataSelectUpper, outb, hd, step_register, hext.2, hshort.2,
      TaskFile.addressed, TaskFile.select, TaskFile.opens]

/-- The drives with `i` words of a command gone through. -/
def Drives.atWord (d : Drives) (c : Command) (i : ℕ) : Drives :=
  { d with transfer := if i < 256 * c.count then some ⟨c, i⟩ else none }

/-- No data phase. -/
def Drives.idle (d : Drives) : Drives := { d with transfer := none }

variable {c : Command} {i : ℕ}

theorem atWord_end (hc : c.count = 1) : d.atWord c 256 = d.idle := by
  rw [Drives.atWord, if_neg (by omega), Drives.idle]

/-- What comes in for a command to read is what is stored. -/
theorem word_of_not_identify (hc : isIdentify c.code = false) :
    d.word ⟨c, i⟩ = d.cells c.slave (c.lba + i / 256) (i % 256) :=
  if_neg (ne_true_of_eq_false hc)

/-- A word comes in. -/
theorem runs_inw (hread : isRead c.code = true) (hi : i < 256 * c.count) :
    (drives base).Runs d₀ (inw base) (d.atWord c i) (d.word ⟨c, i⟩) (d.atWord c (i + 1)) := by
  refine (runs_ask _).of_eq ?_ ?_
  · have ht : (d.atWord c i).transfer = some ⟨c, i⟩ := if_pos hi
    simp only [drives, Drives.reply, ht]
    exact if_pos ⟨trivial, hread⟩
  · simp [drives, Drives.step, Drives.atWord, hi, hread, Transfer.next]

/-- A word goes out. -/
theorem runs_outw (hread : isRead c.code = false) (hi : i < 256 * c.count) (v : UInt16) :
    (drives base).Runs d₀ (outw base v) (d.atWord c i) ()
      ({ d with cells := d.cells.put c.slave (c.lba + i / 256) (i % 256) v }.atWord c (i + 1)) := by
  refine (runs_emit _).of_eq rfl ?_
  simp [drives, Drives.step, Drives.atWord, hi, hread, Transfer.next]

/-! ## IDENTIFY -/

/-- The buffer of `ata_identify` with `n` words of an answer in it. -/
def identifyBuf (words : ℕ → UInt16) (n : ℕ) : ℕ → UInt16 := fun i ↦ if i < n then words i else 0

theorem update_identifyBuf (words : ℕ → UInt16) (n : ℕ) :
    Function.update (identifyBuf words n) n (words n) = identifyBuf words (n + 1) := by
  funext i
  rw [Function.update_apply, identifyBuf, identifyBuf]
  split
  · rename_i heq
    rw [heq, if_pos (Nat.lt_succ_self n)]
  · split
    · rw [if_pos (by omega)]
    · rw [if_neg (by omega)]

/-- The drives once a unit has been selected. -/
def Drives.selected (d : Drives) (isMaster : Bool) : Drives :=
  { d with taskFile := { d.taskFile with device := deviceBits isMaster } }

theorem runs_ataSelectDrive (isMaster : Bool) :
    (drives base).Runs d₀ (ataSelectDrive base isMaster 0 false) d () (d.selected isMaster) := by
  refine (runs_pure ()).bind ((runs_outb 6 _).of_eq rfl ?_)
  cases isMaster <;> rfl

/-- **A drive that is asked says what it is.** -/
theorem runs_ataIdentify (isMaster : Bool) :
    (drives base).Runs d₀ (ataIdentify base isMaster) d
      (some (identifyBuf (d.identity (!isMaster)) 256)) (d.selected isMaster).idle := by
  let e := d.selected isMaster
  let c : Command := { e.taskFile.command 0xEC with count := 1 }
  have hslave : decide (deviceBits isMaster &&& 0x10 ≠ 0) = !isMaster := by
    cases isMaster <;> decide
  have hstatus : (e.atWord c 0).status = 0x58 := rfl
  refine (runs_ataSelectDrive isMaster).bind ((runs_outb 7 0xEC).bind ?_)
  show (drives base).Runs d₀ (ataIdentifyReply base) (e.atWord c 0) _ _
  refine runs_status.bind ?_
  rw [hstatus, if_neg (by decide)]
  refine runs_ataWaitReady.bind ?_
  rw [if_neg (by decide)]
  refine runs_status.bind ?_
  rw [hstatus, if_neg (by decide)]
  have hloop : (drives base).Runs d₀
      (forEach (fun i (buf : ℕ → UInt16) ↦ do
        let w ← inw base
        pure (Function.update buf i w)) 256 0 fun _ ↦ 0)
      (e.atWord c 0) (identifyBuf (d.identity (!isMaster)) 256) (e.atWord c 256) :=
    runs_forEach (a := identifyBuf (d.identity (!isMaster))) (s := e.atWord c) fun i hi ↦ by
      refine (runs_inw rfl (by simpa [c] using hi)).bind ((runs_pure _).of_eq ?_ rfl)
      rw [← update_identifyBuf, ← hslave]
      rfl
  exact hloop.bind ((runs_pure _).of_eq rfl (atWord_end rfl))

/-! ## Reading -/

/-- A buffer into which `n` words of a sector have been read. -/
def readWords (buf : UInt32 → UInt16) (sector : UInt32) (words : ℕ → UInt16) :
    ℕ → UInt32 → UInt16
  | 0 => buf
  | n + 1 => Function.update (readWords buf sector words n) (sector * 256 + .ofNat n) (words n)

/-- A buffer into which `k` sectors have been read. -/
def readBuffer (cells : Cells) (lba : UInt64) (lba48 : Bool) (buf : UInt32 → UInt16) :
    ℕ → UInt32 → UInt16
  | 0 => buf
  | k + 1 => readWords (readBuffer cells lba lba48 buf k) (.ofNat k)
      (cells true (wireLba (lba + (UInt32.ofNat k).toUInt64) lba48)) 256

/-- **One sector is read.** -/
theorem runs_ataReadSector (lba : UInt64) (lba48 : Bool) (sector : UInt32)
    (buf : UInt32 → UInt16) :
    (drives base).Runs d₀ (ataReadSector base lba lba48 sector buf) d
      (.ok (readWords buf sector (d.cells true (wireLba (lba + sector.toUInt64) lba48)) 256))
      (d.commanded (lba + sector.toUInt64) lba48 (readCode lba48)).idle := by
  let c : Command := ⟨readCode lba48, true, true, wireLba (lba + sector.toUInt64) lba48, 1⟩
  let e := d.commanded (lba + sector.toUInt64) lba48 (readCode lba48)
  have hread : isRead c.code = true := by cases lba48 <;> rfl
  have hcell : isIdentify c.code = false := by cases lba48 <;> rfl
  refine (runs_ataCommand _ lba48 ⟨rfl, rfl⟩ ⟨rfl, rfl⟩).bind ?_
  refine (runs_ataWaitDrq (t := ⟨c, 0⟩) rfl).bind ?_
  have hloop : (drives base).Runs d₀
      (forEach (fun i (buf : UInt32 → UInt16) ↦ do
        let w ← inw base
        pure (Function.update buf (sector * 256 + UInt32.ofNat i) w)) 256 0 buf)
      (e.atWord c 0) (readWords buf sector (d.cells true c.lba) 256) (e.atWord c 256) :=
    runs_forEach (a := readWords buf sector (d.cells true c.lba)) (s := e.atWord c) fun i hi ↦ by
      refine (runs_inw hread (by simpa [c] using hi)).bind ((runs_pure _).of_eq ?_ rfl)
      rw [readWords, word_of_not_identify hcell, Nat.div_eq_of_lt hi, Nat.mod_eq_of_lt hi]
      rfl
  exact hloop.bind ((runs_pure _).of_eq rfl (atWord_end rfl))

/-- The drives after `k` sectors have been read. -/
def Drives.afterReads (d : Drives) (lba : UInt64) (lba48 : Bool) : ℕ → Drives
  | 0 => d
  | k + 1 => ((d.afterReads lba lba48 k).commanded (lba + (UInt32.ofNat k).toUInt64) lba48
      (readCode lba48)).idle

/-- Reading changes nothing that is stored. -/
theorem cells_afterReads (lba : UInt64) (lba48 : Bool) (k : ℕ) :
    (d.afterReads lba lba48 k).cells = d.cells := by
  induction k with
  | zero => rfl
  | succ k ih => exact ih

/-- **A request to read** returns `0`, and fills the buffer from the cells. -/
theorem runs_ataPioRead (lba : UInt64) (count : UInt32) (buf : UInt32 → UInt16) (lba48 : Bool) :
    (drives base).Runs d₀ (ataPioRead base lba count buf lba48) d
      (0, readBuffer d.cells lba lba48 buf count.toNat)
      (d.afterReads lba lba48 count.toNat) := by
  have hloop : (drives base).Runs d₀
      (forLoop (fun sector buf ↦ ataReadSector base lba lba48 (.ofNat sector) buf) count.toNat 0
        buf)
      d (.ok (readBuffer d.cells lba lba48 buf count.toNat)) (d.afterReads lba lba48 count.toNat) :=
    runs_forLoop (a := readBuffer d.cells lba lba48 buf) (s := d.afterReads lba lba48) fun k _ ↦ by
      refine (runs_ataReadSector lba lba48 (.ofNat k) _).of_eq ?_ rfl
      rw [cells_afterReads]
      rfl
  exact hloop.bind (runs_pure _)

/-! ## Writing -/

/-- The cells after `n` words have been written to a sector. -/
def writeWords (cells : Cells) (lba : ℕ) (words : ℕ → UInt16) : ℕ → Cells
  | 0 => cells
  | n + 1 => (writeWords cells lba words n).put true lba n (words n)

/-- The words of a buffer for one sector. -/
def bufferWords (buf : UInt32 → UInt16) (sector : UInt32) (n : ℕ) : UInt16 :=
  buf (sector * 256 + .ofNat n)

/-- The cells after `k` sectors have been written. -/
def written (cells : Cells) (lba : UInt64) (lba48 : Bool) (buf : UInt32 → UInt16) : ℕ → Cells
  | 0 => cells
  | k + 1 => writeWords (written cells lba lba48 buf k)
      (wireLba (lba + (UInt32.ofNat k).toUInt64) lba48) (bufferWords buf (.ofNat k)) 256

/-- **One sector is written.** -/
theorem runs_ataWriteSector (lba : UInt64) (lba48 : Bool) (buf : UInt32 → UInt16)
    (sector : UInt32) :
    (drives base).Runs d₀ (ataWriteSector base lba lba48 buf sector) d (.ok ())
      { (d.commanded (lba + sector.toUInt64) lba48 (writeCode lba48)).idle with
        cells := writeWords d.cells (wireLba (lba + sector.toUInt64) lba48)
          (bufferWords buf sector) 256 } := by
  let c : Command := ⟨writeCode lba48, true, true, wireLba (lba + sector.toUInt64) lba48, 1⟩
  let e := d.commanded (lba + sector.toUInt64) lba48 (writeCode lba48)
  have hread : isRead c.code = false := by cases lba48 <;> rfl
  refine (runs_ataCommand _ lba48 ⟨rfl, rfl⟩ ⟨rfl, rfl⟩).bind ?_
  refine (runs_ataWaitDrq (t := ⟨c, 0⟩) rfl).bind ?_
  have hloop : (drives base).Runs d₀
      (forEach (fun i (_ : Unit) ↦ outw base (buf (sector * 256 + UInt32.ofNat i))) 256 0 ())
      (e.atWord c 0) ()
      ({ e with cells := writeWords d.cells c.lba (bufferWords buf sector) 256 }.atWord c 256) :=
    runs_forEach (a := fun _ ↦ ())
      (s := fun i ↦
        { e with cells := writeWords d.cells c.lba (bufferWords buf sector) i }.atWord c i)
      fun i hi ↦ by
        refine (runs_outw hread (by simpa [c] using hi) _).of_eq rfl ?_
        rw [Nat.div_eq_of_lt hi, Nat.mod_eq_of_lt hi]
        rfl
  refine hloop.bind ((runs_outb 7 0xE7).bind (runs_ataWaitReady.bind ((runs_pure _).of_eq rfl ?_)))
  rfl

/-- The drives after `k` sectors have been written. -/
def Drives.afterWrites (d : Drives) (lba : UInt64) (lba48 : Bool) (buf : UInt32 → UInt16) :
    ℕ → Drives
  | 0 => d
  | k + 1 =>
    let e := d.afterWrites lba lba48 buf k
    { (e.commanded (lba + (UInt32.ofNat k).toUInt64) lba48 (writeCode lba48)).idle with
      cells := writeWords e.cells (wireLba (lba + (UInt32.ofNat k).toUInt64) lba48)
        (bufferWords buf (.ofNat k)) 256 }

theorem cells_afterWrites (lba : UInt64) (lba48 : Bool) (buf : UInt32 → UInt16) (k : ℕ) :
    (d.afterWrites lba lba48 buf k).cells = written d.cells lba lba48 buf k := by
  induction k with
  | zero => rfl
  | succ k ih => rw [written, ← ih]; rfl

/-- **A request to write** returns `0`, and fills the cells from the buffer. -/
theorem runs_ataPioWrite (lba : UInt64) (count : UInt32) (buf : UInt32 → UInt16) (lba48 : Bool) :
    (drives base).Runs d₀ (ataPioWrite base lba count buf lba48) d 0
      (d.afterWrites lba lba48 buf count.toNat) := by
  have hloop : (drives base).Runs d₀
      (forLoop (fun sector (_ : Unit) ↦ ataWriteSector base lba lba48 buf (.ofNat sector))
        count.toNat 0 ()) d (.ok ()) (d.afterWrites lba lba48 buf count.toNat) :=
    runs_forLoop (a := fun _ ↦ ()) (s := d.afterWrites lba lba48 buf) fun k _ ↦
      runs_ataWriteSector lba lba48 buf (.ofNat k)
  exact hloop.bind (runs_pure _)

end Aetherion.Ata
