import Aetherion.Ahci.Fis
import Aetherion.Storage.Registry

/-!
# The AHCI driver

`kernel/ahci.c`: SATA drives behind an AHCI host bus adapter.  The driver writes a command into
memory, a header in the port's command list and a table with the FIS and the data address, sets
the slot's bit in PxCI, and the adapter fetches the rest by itself.

A write to that memory is an exchange like a write to a register (`store`), so a trace says what
the adapter finds when it starts to fetch.
-/

set_option autoImplicit false

namespace Aetherion.Ahci

open Driver.Prog Storage Vga

/-! ## State -/

/-- `ahci_port_t`. -/
structure AhciPort where
  /-- `port_num`. -/
  portNum : UInt32
  /-- `cmd_slot`. -/
  cmdSlot : UInt32
  /-- `cmd_list_base`. -/
  cmdListBase : UInt64
  /-- `fis_base`. -/
  fisBase : UInt64
  /-- `cmd_table_base`. -/
  cmdTableBase : UInt64
  /-- `cmd_headers`, as an address. -/
  cmdHeaders : UInt64

/-- `ahci_hba_t`. -/
structure Hba where
  /-- `abar`. -/
  abar : UInt64
  /-- `ports_impl`. -/
  portsImpl : UInt32
  /-- `num_ports`. -/
  numPorts : UInt32
  /-- `cap_64bit`. -/
  cap64bit : Bool
  /-- `cap_ncq`. -/
  capNcq : Bool
  /-- `ports`. -/
  ports : Vector AhciPort 32

/-- `&g_hba.ports[i]`. -/
def Hba.port (hba : Hba) (i : Fin 32) : AhciPort := hba.ports[i]

/-- The static state of `ahci.c`. -/
structure AhciState where
  /-- `g_hba`. -/
  hba : Hba
  /-- `g_mem_alloc_ptr`. -/
  memAllocPtr : UInt64

/-- The state before `ahci_init`. -/
def AhciState.initial : AhciState :=
  ⟨⟨0, 0, 0, false, false, Vector.replicate 32 ⟨0, 0, 0, 0, 0, 0⟩⟩, 0x1000000⟩

/-- The block, and the allocation pointer afterwards. -/
def ahciAllocAligned (ptr size align : UInt64) : UInt64 × UInt64 :=
  let p := (ptr + align - 1) &&& ~~~(align - 1)
  (p, p + size)

/-! ## Registers -/

def hbaRead (hba : Hba) (offset : UInt32) : Kernel UInt32 := mmioRead (hba.abar + offset.toUInt64)

def hbaWrite (hba : Hba) (offset val : UInt32) : Kernel Unit :=
  mmioWrite (hba.abar + offset.toUInt64) val

/-- Where a register of a port is. -/
def portAddr (hba : Hba) (port : AhciPort) (offset : UInt32) : UInt64 :=
  hba.abar + 0x100 + (port.portNum * 0x80).toUInt64 + offset.toUInt64

def portRead (hba : Hba) (port : AhciPort) (offset : UInt32) : Kernel UInt32 :=
  mmioRead (portAddr hba port offset)

def portWrite (hba : Hba) (port : AhciPort) (offset val : UInt32) : Kernel Unit :=
  mmioWrite (portAddr hba port offset) val

/-- `ahci_wait_bit`. -/
def ahciWaitBit (reg : UInt64) (mask : UInt32) (expected : Bool) (timeoutUs : UInt32) :
    Kernel ℤ := do
  let r ← forLoop (fun _ (_ : Unit) ↦ do
    let v ← mmioRead reg
    if v &&& mask = (if expected then mask else 0) then pure (.error 0) else pure (.ok ()))
    timeoutUs.toNat 0 ()
  match r with
  | .error r => pure r
  | .ok _ => pure (-1)

/-- `AHCI_CMD_CR | AHCI_CMD_FR`. -/
def cmdRunning : UInt32 := 0x8000 ||| 0x4000

/-- The upper half of a base address, which is written with 64-bit addressing only. -/
def portWriteUpper (hba : Hba) (port : AhciPort) (offset : UInt32) (base : UInt64) : Kernel Unit :=
  if hba.cap64bit then portWrite hba port offset (base >>> 32).toUInt32 else pure ()

def ahciPortStart (hba : Hba) (port : AhciPort) : Kernel ℤ := do
  let cmd ← portRead hba port 0x18
  portWrite hba port 0x18 (cmd &&& ~~~1)
  let _ ← ahciWaitBit (portAddr hba port 0x18) cmdRunning false 1000000
  portWrite hba port 0x00 port.cmdListBase.toUInt32
  portWriteUpper hba port 0x04 port.cmdListBase
  portWrite hba port 0x08 port.fisBase.toUInt32
  portWriteUpper hba port 0x0C port.fisBase
  let cmd ← portRead hba port 0x18
  portWrite hba port 0x18 (cmd ||| (0x10 ||| 1))
  let r ← ahciWaitBit (portAddr hba port 0x18) cmdRunning true 1000000
  if r < 0 then do
    vgaWrite "[AHCI] Timeout demarrage port\n"
    pure (-1)
  else pure 0

/-! ## Commands -/

/-- `1 << port->cmd_slot`. -/
def slotBit (port : AhciPort) : UInt32 := 1 <<< port.cmdSlot

/-- The address of `port->cmd_headers[port->cmd_slot]`; a header has 32 bytes. -/
def cmdHeader (port : AhciPort) : UInt64 := port.cmdHeaders + port.cmdSlot.toUInt64 * 32

/-- The polls of PxCI.  The value is `timeout` after the loop: running out leaves it wrapped
around to the largest word, because the test of the loop counts down once more. -/
def pollCi (hba : Hba) (port : AhciPort) : ℕ → Kernel UInt32
  | 0 => pure 0xFFFFFFFF
  | timeout + 1 => do
    let ci ← portRead hba port 0x38
    if ci &&& slotBit port = 0 then pure (.ofNat timeout) else pollCi hba port timeout

/-- The header and the table of a command, in memory.  The byte count shares its word with
reserved bits, which keep what was there. -/
def buildCommand (hba : Hba) (port : AhciPort) (cmdFis : Fis) (buffer : UInt64) (count : UInt32)
    (isWrite : Bool) : Kernel Unit := do
  let hdr := cmdHeader port
  let tbl := port.cmdTableBase
  store hdr (List.replicate 32 0)
  store hdr [(5 : UInt8) ||| (if isWrite then (1 : UInt8) <<< 6 else 0)]
  store (hdr + 2) (Words.bytes16 1)
  store (tbl + 0x80) (Words.bytes32 buffer.toUInt32)
  store (tbl + 0x84) (Words.bytes32 (if hba.cap64bit then (buffer >>> 32).toUInt32 else 0))
  let old ← load32 (tbl + 0x8C)
  store (tbl + 0x8C) (Words.bytes32
    ((old &&& ~~~0x3FFFFF) ||| ((count - 1) &&& 0x3FFFFF) ||| 0x80000000))
  store tbl cmdFis.toList

/-- The end of `ahci_exec_cmd`: wait for the slot's bit to clear, and look for errors. -/
def awaitCmd (hba : Hba) (port : AhciPort) : Kernel ℤ := do
  let timeout ← pollCi hba port 5000000
  if timeout = 0 then pure (-1)
  else do
    let is ← portRead hba port 0x10
    if is &&& 0x40000000 ≠ 0 then do
      vgaWrite "[AHCI] Task File Error\n"
      pure (-1)
    else pure 0

def ahciExecCmd (hba : Hba) (port : AhciPort) (cmdFis : Fis) (buffer : UInt64) (count : UInt32)
    (isWrite : Bool) : Kernel ℤ := do
  buildCommand hba port cmdFis buffer count isWrite
  portWrite hba port 0x38 (slotBit port)
  awaitCmd hba port

/-- The result, and the buffer as the device has left it. -/
def ahciReadSectors (hba : Hba) (port : Fin 32) (lba : UInt64) (count : UInt32)
    (buffer : Buffer) : Kernel (ℤ × Buffer) := do
  let r ← ahciExecCmd hba (hba.port port) (readFis lba count) buffer.addr (count * 512) false
  let words ← dma buffer.addr
  pure (r, { buffer with words := fun i ↦ words i.toNat })

def ahciWriteSectors (hba : Hba) (port : Fin 32) (lba : UInt64) (count : UInt32)
    (buffer : Buffer) : Kernel ℤ :=
  ahciExecCmd hba (hba.port port) (writeFis lba count) buffer.addr (count * 512) true

/-- The FIS of IDENTIFY DEVICE. -/
def identifyFis : Fis :=
  ((((Vector.replicate 64 0).setIfInBounds 0 fisTypeRegH2D).setIfInBounds 1
    ((1 : UInt8) <<< 7)).setIfInBounds 2 0xEC).setIfInBounds 7 0x40

/-- The words of an IDENTIFY answer in the buffer at `identify`, or `none` where `ahci_identify`
returns `-1`. -/
def ahciIdentify (hba : Hba) (port : AhciPort) (identify : UInt64) :
    Kernel (Option (ℕ → UInt16)) := do
  let r ← ahciExecCmd hba port identifyFis identify 512 false
  if r < 0 then pure none
  else do
    let words ← dma identify
    pure (some words)

/-! ## Detection -/

/-- The port with memory of its own, and the allocation pointer afterwards. -/
def allocPort (port : AhciPort) (ptr : UInt64) : AhciPort × UInt64 :=
  let cmdList := ahciAllocAligned ptr 1024 1024
  let fis := ahciAllocAligned cmdList.2 256 256
  let cmdTable := ahciAllocAligned fis.2 4096 4096
  ({ port with
      cmdListBase := cmdList.1
      fisBase := fis.1
      cmdTableBase := cmdTable.1
      cmdHeaders := cmdList.1 }, cmdTable.2)

/-- `g_hba.ports[i]` replaced. -/
def AhciState.setPort (s : AhciState) (i : Fin 32) (port : AhciPort) : AhciState :=
  { s with hba := { s.hba with ports := s.hba.ports.set i port } }

theorem AhciState.setPort_port (s : AhciState) (i j : Fin 32) (port : AhciPort) :
    (s.setPort i port).hba.port j = if i = j then port else s.hba.port j := by
  simp only [AhciState.setPort, Hba.port, Fin.getElem_fin, Vector.getElem_set, Fin.ext_iff]

/-- The port with its number filled in. -/
def AhciState.numberedPort (s : AhciState) (i : Fin 32) : AhciPort :=
  { s.hba.port i with portNum := .ofNat i }

/-- The `disk_t` of the drive at a port. -/
def ahciDisk (i : Fin 32) (identify : ℕ → UInt16) : Disk where
  name := "ahci" ++ toString i.val
  type := .sataAhci
  sectors := totalSectors identify
  sectorSize := 512
  sizeBytes := totalSectors identify * 512
  ops := some (.ahci i)

/-- A drive's disk, once its port has been started, with the drive's IDENTIFY data in the buffer
at `identify`. -/
def ahciProbe (hba : Hba) (i : Fin 32) (identify : UInt64) : Kernel (Option Disk) := do
  let started ← ahciPortStart hba (hba.port i)
  if started < 0 then do
    vgaWrite "[AHCI] Echec demarrage port\n"
    pure none
  else do
    match ← ahciIdentify hba (hba.port i) identify with
    | none => do
      vgaWrite "[AHCI] Echec IDENTIFY\n"
      pure none
    | some words =>
      if totalSectors words = 0 then pure none
      else do
        match ← malloc sizeofDisk with
        | none => pure none
        | some _ => pure (some (ahciDisk i words))

/-- The loop of `ahci_detect_ports` for one port. -/
def ahciDetectPort (identify : UInt64) (i : Fin 32) (s : AhciState × Registry × ℤ) :
    Kernel (AhciState × Registry × ℤ) := do
  if s.1.hba.portsImpl &&& ((1 : UInt32) <<< .ofNat i) = 0 then pure s
  else do
    let port := s.1.numberedPort i
    let st := s.1.setPort i port
    let sig ← portRead st.hba port 0x24
    if sig ≠ 0x00000101 ∧ sig ≠ 0xEB140101 then do
      vgaWrite ("[AHCI] Port " ++ toString i.val ++ ": signature 0x" ++ hex sig.toNat ++
        " (non ATA)\n")
      pure (st, s.2)
    else do
      let alloc := allocPort port st.memAllocPtr
      let st := { st.setPort i alloc.1 with memAllocPtr := alloc.2 }
      match ← ahciProbe st.hba i identify with
      | none => pure (st, s.2)
      | some disk => do
        let r ← diskRegister s.2.1 (some disk)
        pure (st, r.2, s.2.2 + 1)

/-- The number of disks found, and the states afterwards. -/
def ahciDetectPorts (s : AhciState) (g : Registry) (identify : UInt64) :
    Kernel (ℤ × AhciState × Registry) := do
  let r ← forEach (fun i s ↦ ahciDetectPort identify (.ofNat 32 i) s) 32 0 (s, g, 0)
  pure (r.2.2, r.1, r.2.1)

/-! ## Finding the controller -/

def pciRead32 (bus dev func reg : UInt8) : Kernel UInt32 := do
  let addr : UInt32 := ((1 : UInt32) <<< 31) ||| (bus.toUInt32 <<< 16) ||| (dev.toUInt32 <<< 11) |||
    (func.toUInt32 <<< 8) ||| (reg &&& 0xFC).toUInt32
  outb 0xCF8 (addr >>> 24).toUInt8
  outb 0xCF9 (addr >>> 16).toUInt8
  outb 0xCFA (addr >>> 8).toUInt8
  outb 0xCFB addr.toUInt8
  inl 0xCFC

def pciWrite32 (bus dev func reg : UInt8) (val : UInt32) : Kernel Unit := do
  let addr : UInt32 := ((1 : UInt32) <<< 31) ||| (bus.toUInt32 <<< 16) ||| (dev.toUInt32 <<< 11) |||
    (func.toUInt32 <<< 8) ||| (reg &&& 0xFC).toUInt32
  outb 0xCF8 (addr >>> 24).toUInt8
  outb 0xCF9 (addr >>> 16).toUInt8
  outb 0xCFA (addr >>> 8).toUInt8
  outb 0xCFB addr.toUInt8
  outl 0xCFC val

/-- `"oui"` or `"non"`. -/
def yesNo (b : Bool) : String := if b then "oui" else "non"

/-- The upper half of a 64-bit base address register, and `0` for a 32-bit one. -/
def abarUpper (bus dev func : UInt8) (bar5 : UInt32) : Kernel UInt32 :=
  if bar5 &&& 0x4 ≠ 0 then pciRead32 bus dev func 0x28 else pure 0

/-- `AHCI_GHC_AE`, if it is not set already. -/
def ahciEnable (hba : Hba) (ghc : UInt32) : Kernel Unit :=
  if ghc &&& ((1 : UInt32) <<< 31) = 0 then hbaWrite hba 0x04 (ghc ||| ((1 : UInt32) <<< 31))
  else pure ()

/-- What `ahci_init` keeps of the capabilities. -/
def Hba.withCaps (hba : Hba) (cap portsImpl : UInt32) : Hba :=
  { hba with
    cap64bit := cap &&& ((1 : UInt32) <<< 31) ≠ 0
    capNcq := cap &&& ((1 : UInt32) <<< 30) ≠ 0
    portsImpl := portsImpl
    numPorts := .ofNat ((List.range 32).countP fun i ↦
      portsImpl &&& ((1 : UInt32) <<< .ofNat i) ≠ 0) }

/-- What `ahci_init` does with the controller it has found. -/
def ahciSetup (s : AhciState) (g : Registry) (identify : UInt64) (bus dev func : UInt8) :
    Kernel (ℤ × AhciState × Registry) := do
  vgaWrite ("[AHCI] Controleur trouve: bus=" ++ toString bus.toNat ++ " dev=" ++
    toString dev.toNat ++ " func=" ++ toString func.toNat ++ "\n")
  let bar5 ← pciRead32 bus dev func 0x24
  let upper ← abarUpper bus dev func bar5
  let hba := { s.hba with abar := (bar5 &&& ~~~0xF).toUInt64 ||| (upper.toUInt64 <<< 32) }
  vgaWrite ("[AHCI] ABAR = 0x" ++ hex hba.abar.toNat ++ "\n")
  let ghc ← hbaRead hba 0x04
  ahciEnable hba ghc
  let ghc ← hbaRead hba 0x04
  hbaWrite hba 0x04 (ghc ||| ((1 : UInt32) <<< 1))
  let cap ← hbaRead hba 0x00
  let portsImpl ← hbaRead hba 0x0C
  let hba := hba.withCaps cap portsImpl
  vgaWrite ("[AHCI] Ports: " ++ toString hba.numPorts.toNat ++ ", 64-bit: " ++
    yesNo hba.cap64bit ++ ", NCQ: " ++ yesNo hba.capNcq ++ "\n")
  ahciDetectPorts { s with hba := hba } g identify

/-- `identify` is where `ahci_detect_ports` keeps its buffer of that name. -/
def ahciInit (s : AhciState) (g : Registry) (identify : UInt64) :
    Kernel (ℤ × AhciState × Registry) := do
  vgaSetColor .lightCyan .black
  vgaWrite "[AHCI] Recherche controleur AHCI...\n"
  vgaSetColor .white .black
  let r ← forLoop (fun bus (_ : Unit) ↦ forLoop (fun dev (_ : Unit) ↦
    forLoop (fun func (_ : Unit) ↦ do
      let classCode ← pciRead32 (.ofNat bus) (.ofNat dev) (.ofNat func) 0x08
      let cls := ((classCode >>> 24) &&& 0xFF).toUInt8
      let subclass := ((classCode >>> 16) &&& 0xFF).toUInt8
      let progIf := ((classCode >>> 8) &&& 0xFF).toUInt8
      if cls = 0x01 ∧ subclass = 0x06 ∧ progIf = 0x01 then do
        let r ← ahciSetup s g identify (.ofNat bus) (.ofNat dev) (.ofNat func)
        pure (.error r)
      else pure (.ok ())) 8 0 ()) 32 0 ()) 256 0 ()
  match r with
  | .error r => pure r
  | .ok _ => do
    vgaSetColor .lightRed .black
    vgaWrite "[AHCI] Aucun controleur AHCI trouve\n"
    vgaSetColor .white .black
    pure (0, s, g)

end Aetherion.Ahci
