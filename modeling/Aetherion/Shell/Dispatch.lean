import Aetherion.Shell.CString

/-!
# Which command a line asks for

The chain of `strcmp` and `strncmp` in `kernel_main`.  Most commands are a word of their own; `read`
and `echo` are followed by a space and their arguments.
-/

set_option autoImplicit false

namespace Aetherion.Shell

open CString

/-- A command of the shell. -/
inductive Command where
  | help | clear | disks | pci | read | echo | reboot
  /-- The line is none of the others. -/
  | unknown
  deriving DecidableEq, Repr

/-- `"read "`. -/
def readWord : List UInt8 := [114, 101, 97, 100, 32]

/-- `"echo "`. -/
def echoWord : List UInt8 := [101, 99, 104, 111, 32]

def dispatch (cmdBuf : List UInt8) : Command :=
  if strcmp cmdBuf [104, 101, 108, 112] = 0 then .help
  else if strcmp cmdBuf [99, 108, 101, 97, 114] = 0 then .clear
  else if strcmp cmdBuf [100, 105, 115, 107, 115] = 0 then .disks
  else if strcmp cmdBuf [112, 99, 105] = 0 then .pci
  else if strncmp cmdBuf readWord 5 = 0 then .read
  else if strncmp cmdBuf echoWord 5 = 0 then .echo
  else if strcmp cmdBuf [114, 101, 98, 111, 111, 116] = 0 then .reboot
  else .unknown

/-- **A line that begins with `"read "` goes to the `read` command**, whatever follows. -/
theorem dispatch_readWord (rest : List UInt8) : dispatch (readWord ++ rest) = .read := by
  simp [dispatch, readWord, strcmp, strncmp]

end Aetherion.Shell
