import HassOS.Framework.Files
import HassOS.Framework.Script
import HassOS.Slot
import HassOS.Tryboot.Cmdline

/-!
# The RAUC backend of the Raspberry Pi 5 (`rpi-tryboot.sh`)

The state the script works on is the boot partition, the volatile file
`/run/systemd/reboot-param` and what the firmware started the running system
with (`Sys`). Each operation of the script is a `Script`: its tests look at
the state, and each of its file writes, renames and unlinks is one atomic
operation. The script does not run under `errexit`, so an operation that
fails is passed over.
-/

namespace HassOS.Tryboot

open Framework

/-- The boot partition. -/
abbrev BootFs := Fs Line Text

/-- What the firmware started the running system with: the device-tree flag
`/proc/device-tree/chosen/bootloader/tryboot`, the directory it took the
kernel from and the kernel command line. -/
structure Chosen where
  tryboot : Bool
  osPrefix : Line
  bootargs : Line
  deriving DecidableEq

structure Sys where
  /-- `/mnt/boot` -/
  boot : BootFs
  /-- `/run/systemd/reboot-param`, lost at every boot. -/
  rebootParam : Option Line
  chosen : Chosen

/-- An exit status and what was printed. -/
structure Exit where
  status : Nat
  out : Text
  deriving DecidableEq

def rootSlotA : Line := "PARTUUID=8d3d53e3-6d49-4c38-8349-aff6859e82fd".toList
def rootSlotB : Line := "PARTUUID=a3ec664e-32ce-4665-95ea-7ae90ce9aa20".toList

def configTxt : List Line := ["config.txt".toList]
def cmdlineTxt : List Line := ["cmdline.txt".toList]
def cmdlineTrybootTxt : List Line := ["cmdline-tryboot.txt".toList]
def trybootTxt : List Line := ["tryboot.txt".toList]

/-- `slot-$slot_bootname` -/
def slotDir (slotBootname : Line) : List Line := ["slot-".toList ++ slotBootname]

/-- `slot-$slot_bootname/.good` -/
def goodFile (slotBootname : Line) : List Line := slotDir slotBootname ++ [".good".toList]

/-- `$(head -n1 "$file")` -/
def headLine (fs : BootFs) (p : List Line) : Line := ((fs.read p).getD []).headD []

/-- `$(get_primary)` -/
def getPrimary (fs : BootFs) : Line :=
  capture (getValue "rauc.slot".toList (headLine fs cmdlineTxt))

/-- `s/^\(os_prefix=\)slot-[A-Z]\/$/\1slot-$slot\//` -/
def sedOsPrefix (slot l : Line) : Line :=
  match (Pat.ofRegex "os_prefix=slot-".toList).rest l with
  | some [c, '/'] => if 'A' ≤ c ∧ c ≤ 'Z' then "os_prefix=slot-".toList ++ slot ++ ['/'] else l
  | _ => l

/-- `s/^\(cmdline=\).*$/\1$file/` -/
def sedCmdline (file l : Line) : Line :=
  match (Pat.ofRegex "cmdline=".toList).rest l with
  | some _ => "cmdline=".toList ++ file
  | none => l

/-- The second argument as the value of `root=`. -/
def rootSlot? (slotBootname : Line) : Option Line :=
  if slotBootname = "A".toList then some rootSlotA
  else if slotBootname = "B".toList then some rootSlotB
  else none

namespace Sys

/-- An operation on the boot partition. -/
def onBoot (f : BootFs → BootFs) (s : Sys) : Sys := { s with boot := f s.boot }

/-- `echo "$cmdline" > cmdline-tryboot.txt` -/
def writeCmdlineTryboot (cmdline : Line) : Sys → Sys :=
  onBoot fun fs => fs.write cmdlineTrybootTxt [cmdline]

/-- `sed … config.txt > tryboot.txt` -/
def writeTryboot (slot : Line) : Sys → Sys :=
  onBoot fun fs => fs.write trybootTxt (((fs.read configTxt).getD []).map fun l =>
    sedCmdline "/cmdline-tryboot.txt".toList (sedOsPrefix slot l))

/-- `echo "0 tryboot" > /run/systemd/reboot-param` -/
def armTryboot (s : Sys) : Sys := { s with rebootParam := some "0 tryboot".toList }

/-- `rm -f slot-$slot/.good` -/
def unmarkGood (slot : Line) : Sys → Sys := onBoot fun fs => fs.unlink (goodFile slot)

/-- `touch slot-$slot/.good` -/
def markGood (slot : Line) : Sys → Sys := onBoot fun fs => fs.touch (goodFile slot) []

/-- `sed … tryboot.txt > config.txt` -/
def commitConfig : Sys → Sys :=
  onBoot fun fs => fs.write configTxt
    (((fs.read trybootTxt).getD []).map (sedCmdline "/cmdline.txt".toList))

/-- `mv cmdline-tryboot.txt cmdline.txt` -/
def commitCmdline : Sys → Sys := onBoot fun fs => fs.rename cmdlineTrybootTxt cmdlineTxt

/-- `rm tryboot.txt` -/
def dropTryboot : Sys → Sys := onBoot fun fs => fs.unlink trybootTxt

/-- `rm /run/systemd/reboot-param` -/
def disarm (s : Sys) : Sys := { s with rebootParam := none }

end Sys

/-- `get-primary` -/
def getPrimaryCmd : Script Sys Exit :=
  .look fun s => .ret ⟨0, getValue "rauc.slot".toList (headLine s.boot cmdlineTxt)⟩

/-- `set-primary` -/
def setPrimary (slotBootname : Line) : Script Sys Exit :=
  .look fun s =>
    -- Do nothing if we're already booted in the requested slot
    if getPrimary s.boot = slotBootname then .ret ⟨0, []⟩
    else
      match rootSlot? slotBootname with
      | none => .ret ⟨1, []⟩
      | some root =>
        let cmdline := setValue "root".toList root (headLine s.boot cmdlineTxt)
        let cmdline := setValue "rauc.slot".toList slotBootname cmdline
        .act (Sys.writeCmdlineTryboot cmdline) <|
        .act (Sys.writeTryboot slotBootname) <|
        .act Sys.armTryboot <|
        .ret ⟨0, []⟩

/-- `get-state` -/
def getState (slotBootname : Line) : Script Sys Exit :=
  .look fun s =>
    if s.boot.isFile (goodFile slotBootname) then .ret ⟨0, ["good".toList]⟩
    else .ret ⟨0, ["bad".toList]⟩

/-- The tests of `set-state … good` before it commits, with the flag set:
`none` to commit, or the status to exit with. -/
def commitCheck (slotBootname : Line) (fs : BootFs) : Option Nat :=
  if !fs.isFile cmdlineTrybootTxt then
    -- Most probably already handled on this boot before
    if fs.isFile (goodFile slotBootname) then some 0 else some 1
  else if !fs.isFile trybootTxt then some 1
  else if capture (getValue "rauc.slot".toList (headLine fs cmdlineTrybootTxt)) ≠ slotBootname then
    some 1
  else none

/-- `set-state` -/
def setState (slotBootname newState : Line) : Script Sys Exit :=
  if newState ≠ "good".toList then .act (Sys.unmarkGood slotBootname) <| .ret ⟨0, []⟩
  else .look fun s =>
    if s.chosen.tryboot then
      match commitCheck slotBootname s.boot with
      | some status => .ret ⟨status, []⟩
      | none =>
        .act Sys.commitConfig <|
        .act Sys.commitCmdline <|
        .act Sys.dropTryboot <|
        .act Sys.disarm <|
        .act (Sys.markGood slotBootname) <|
        .ret ⟨0, []⟩
    else .act (Sys.markGood slotBootname) <| .ret ⟨0, []⟩

/-- The script, on its arguments `$1`, `$2` and `$3`. -/
def rpiTryboot (arg₁ arg₂ arg₃ : Line) : Script Sys Exit :=
  if arg₁ = "get-primary".toList then getPrimaryCmd
  else if arg₁ = "set-primary".toList then setPrimary arg₂
  else if arg₁ = "get-state".toList then getState arg₂
  else if arg₁ = "set-state".toList then setState arg₂ arg₃
  else if arg₁ = "get-current".toList then .ret ⟨1, []⟩
  else .ret ⟨1, ["Unknown operation: ".toList ++ arg₁]⟩

end HassOS.Tryboot
