import Aetherion.Vga.Page
import Aetherion.Vga.Attributes
import Aetherion.Keyboard.CapsLock
import Aetherion.Keyboard.Init
import Aetherion.Keyboard.Queue
import Aetherion.Keyboard.WakeUp
import Aetherion.Keyboard.Extended
import Aetherion.Keyboard.Physical
import Aetherion.Pci.Init
import Aetherion.Pci.AccessPaths
import Aetherion.Pci.BarSize
import Aetherion.Pci.BarAddress
import Aetherion.Pci.Bytes
import Aetherion.Pci.Capacity
import Aetherion.Pci.FlatBus
import Aetherion.Pci.Termination
import Aetherion.Ahci.Fis
import Aetherion.Ahci.Fetch
import Aetherion.Ahci.PortMemory
import Aetherion.Ahci.PortStop
import Aetherion.Ahci.Results
import Aetherion.Ahci.Sizes
import Aetherion.Ahci.Timeout
import Aetherion.Ata.Addressing
import Aetherion.Ata.DrqWait
import Aetherion.Ata.InPlace
import Aetherion.Ata.PartialRead
import Aetherion.Ata.Protocol
import Aetherion.Ata.ReadAfterWrite
import Aetherion.Ata.WriteErrors
import Aetherion.Storage.Bounds
import Aetherion.Storage.Counts
import Aetherion.Storage.Names
import Aetherion.Storage.Units
import Aetherion.Shell.LineEditor
import Aetherion.Shell.ReadCommand
import Aetherion.Shell.TypedRead
import Aetherion.Shell.Console
import Aetherion.Shell.LineBuffer
import Aetherion.Shell.StringOrder
import Aetherion.Boot.Lba2Chs
import Aetherion.Boot.DiskImage
import Aetherion.Boot.Fallback
import Aetherion.Boot.HandOff
import Aetherion.Boot.IdentityMap
import Aetherion.Boot.PageTables
import Aetherion.Boot.KernelRead
import Aetherion.Ai.Answers
import Aetherion.Vga.ScrollUp
import Aetherion.Storage.Volumes
import Aetherion.Shell.Entering
import Aetherion.Shell.ReadOnly
import Aetherion.Shell.ReadShows
import Aetherion.Ahci.Windows
import Aetherion.Base.Independent
import Aetherion.Base.Ledger
import Aetherion.Shell.Heap
import Aetherion.Shell.ComesUp
import Aetherion.Shell.Limits
import Aetherion.Shell.Working
import Aetherion.Storage.Independent
import Aetherion.Strings.Buffers
import Aetherion.Strings.Numbers
