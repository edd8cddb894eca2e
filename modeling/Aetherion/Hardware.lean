import Aetherion.Base.Driver
import Aetherion.Vga.Terminal

/-!
# The machine the drivers run on

Everything a driver of this kernel does to the outside: port and memory-mapped input and output,
the memory it shares with a device that does its own transfers, the heap, and the messages it
prints.
-/

set_option autoImplicit false

namespace Aetherion

/-- A block of the heap. -/
structure Block where
  /-- Where it starts. -/
  addr : UInt64
  /-- How many bytes it has. -/
  size : ℕ
  /-- It does not start at `NULL`. -/
  addr_ne_zero : addr ≠ 0

/-- What a driver writes. -/
inductive Out where
  /-- `outb(port, val)`. -/
  | outb (port : UInt16) (val : UInt8)
  /-- `outw(port, val)`. -/
  | outw (port : UInt16) (val : UInt16)
  /-- `outl(port, val)`. -/
  | outl (port : UInt16) (val : UInt32)
  /-- A write to a memory-mapped register. -/
  | mmio (addr : UInt64) (val : UInt32)
  /-- A write to memory that a device will read. -/
  | store (addr : UInt64) (bytes : List UInt8)
  /-- `free`. -/
  | free (addr : UInt64)
  /-- `vga_write`. -/
  | print (text : String)
  /-- `vga_set_color`. -/
  | color (fg bg : Vga.VgaColor)

/-- What a driver reads. -/
inductive In where
  /-- `inb(port)`. -/
  | inb (port : UInt16)
  /-- `inw(port)`. -/
  | inw (port : UInt16)
  /-- `inl(port)`. -/
  | inl (port : UInt16)
  /-- A read of a memory-mapped register. -/
  | mmio (addr : UInt64)
  /-- A read of a word of memory that a device may have written. -/
  | load32 (addr : UInt64)
  /-- The words a device has left in a buffer. -/
  | dma (addr : UInt64)
  /-- `malloc(size)`. -/
  | malloc (size : UInt64)

/-- What a read is answered with.  `malloc` gives no block, which is `NULL`, or one of at least the
size asked for. -/
def Reply : In → Type
  | .inb _ => UInt8
  | .inw _ => UInt16
  | .inl _ => UInt32
  | .mmio _ => UInt32
  | .load32 _ => UInt32
  | .dma _ => ℕ → UInt16
  | .malloc size => Option {b : Block // size.toNat ≤ b.size}

/-- The interface between the kernel and the machine. -/
abbrev machine : Driver.Iface := ⟨Out, In, Reply⟩

/-- A driver. -/
abbrev Kernel (α : Type) := Driver.Prog machine α

/-- One exchange between the kernel and the machine. -/
abbrev Exchange := Driver.Event machine

section
open Driver.Prog

def outb (port : UInt16) (val : UInt8) : Kernel Unit := emit (F := machine) (.outb port val)

def outw (port : UInt16) (val : UInt16) : Kernel Unit := emit (F := machine) (.outw port val)

def outl (port : UInt16) (val : UInt32) : Kernel Unit := emit (F := machine) (.outl port val)

def inb (port : UInt16) : Kernel UInt8 := ask (F := machine) (.inb port)

def inw (port : UInt16) : Kernel UInt16 := ask (F := machine) (.inw port)

def inl (port : UInt16) : Kernel UInt32 := ask (F := machine) (.inl port)

/-- Write a memory-mapped register. -/
def mmioWrite (addr : UInt64) (val : UInt32) : Kernel Unit :=
  emit (F := machine) (.mmio addr val)

/-- Read a memory-mapped register. -/
def mmioRead (addr : UInt64) : Kernel UInt32 := ask (F := machine) (.mmio addr)

/-- Write to memory that a device will read. -/
def store (addr : UInt64) (bytes : List UInt8) : Kernel Unit :=
  emit (F := machine) (.store addr bytes)

/-- Read memory that a device may have written. -/
def load32 (addr : UInt64) : Kernel UInt32 := ask (F := machine) (.load32 addr)

/-- What a device has left in a buffer. -/
def dma (addr : UInt64) : Kernel (ℕ → UInt16) := ask (F := machine) (.dma addr)

def malloc (size : UInt64) : Kernel (Option {b : Block // size.toNat ≤ b.size}) :=
  ask (F := machine) (.malloc size)

def free (addr : UInt64) : Kernel Unit := emit (F := machine) (.free addr)

def vgaWrite (text : String) : Kernel Unit := emit (F := machine) (.print text)

def vgaSetColor (fg bg : Vga.VgaColor) : Kernel Unit := emit (F := machine) (.color fg bg)

end

/-- `%x`. -/
def hex (n : ℕ) : String := String.ofList (Nat.toDigits 16 n)

/-- `%02x` and the like. -/
def hexPad (width n : ℕ) : String := String.ofList ((Nat.toDigits 16 n).leftpad width '0')

/-- `snprintf` and `vsnprintf`: what stands in a buffer of `size` bytes. -/
def snprintf (size : ℕ) (text : String) : String := String.ofList (text.toList.take (size - 1))

/-- A buffer handed to a driver: where it is, and the words in it. -/
structure Buffer where
  /-- The address. -/
  addr : UInt64
  /-- The words, under the 32-bit index the driver uses. -/
  words : UInt32 → UInt16

/-- The block of that size at 32 MiB. -/
def heapBlock (size : UInt64) : Block := ⟨0x2000000, size.toNat, by decide⟩

theorem le_size_heapBlock (size : UInt64) : size.toNat ≤ (heapBlock size).size := Nat.le_refl _

/-- A machine that always gives the same answer to a port of each width, zero to everything else,
and every block of memory that is asked for. -/
def steadyMachine (status : UInt8) (word : UInt16) (dword : UInt32) : Driver.Device machine :=
  fun _ i ↦
    match i with
    | .inb _ => status
    | .inw _ => word
    | .inl _ => dword
    | .mmio _ => (0 : UInt32)
    | .load32 _ => (0 : UInt32)
    | .dma _ => fun _ ↦ (0 : UInt16)
    | .malloc size => some ⟨heapBlock size, le_size_heapBlock size⟩

end Aetherion
