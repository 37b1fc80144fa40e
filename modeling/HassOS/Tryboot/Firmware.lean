import HassOS.Framework.Run
import HassOS.Tryboot.Backend

/-!
# Boots of the Raspberry Pi 5

The system around `rpi-tryboot.sh`: RAUC calls the backend, the machine
reboots (into the tryboot configuration when `reboot-param` asks for it), and
power may fail between any two operations of a call (`Event`, `step`). The
firmware is assumed to read `config.txt` on a normal boot and `tryboot.txt`
on a tryboot, for one boot only, and to take the kernel from `os_prefix=` and
the kernel command line from the file that `cmdline=` names.

A machine leaves the factory with `config.txt` and `cmdline.txt` for slot A
(`factory`). `Chosen.Designates` and `Coherent` say when what the firmware
reads agrees on a slot.
-/

namespace HassOS.Tryboot

open Framework

/-! ## The firmware -/

/-- The value of a setting of `config.txt`: its last line counts, and a
trailing carriage return does not. -/
def configValue (key : Line) (config : Text) : Line :=
  ((config.filterMap (Pat.ofRegex (key ++ ['='])).rest).getLast?.getD []).rdropWhile (· = '\r')

/-- The path of a file named from the root of the boot partition. -/
def pathOf (file : Line) : List Line := (file.splitOnP (· = '/')).filter (· ≠ [])

/-- What the firmware starts the system with, from the configuration in
`file`. -/
def firmwareReads (fs : BootFs) (file : List Line) (tryboot : Bool) : Chosen :=
  match fs.read file with
  | some config =>
    ⟨tryboot, configValue "os_prefix".toList config,
      headLine fs (pathOf (configValue "cmdline".toList config))⟩
  | none => ⟨tryboot, [], []⟩

/-- The next boot: `tryboot.txt` for a tryboot, `config.txt` otherwise. -/
def nextBoot (fs : BootFs) (tryboot : Bool) : Chosen :=
  firmwareReads fs (if tryboot then trybootTxt else configTxt) tryboot

/-- `root=` of a slot. -/
def rootSlot : Slot → Line
  | .A => rootSlotA
  | .B => rootSlotB

/-- The kernel, `rauc.slot=` and `root=` are all those of slot `S`. -/
def Chosen.Designates (c : Chosen) (S : Slot) : Prop :=
  c.osPrefix = "slot-".toList ++ S.name ++ ['/'] ∧
    capture (getValue "rauc.slot".toList c.bootargs) = S.name ∧
    capture (getValue "root".toList c.bootargs) = rootSlot S

instance (c : Chosen) (S : Slot) : Decidable (c.Designates S) :=
  inferInstanceAs (Decidable (_ ∧ _))

/-- What a normal boot reads agrees on a slot. -/
def Coherent (fs : BootFs) : Prop := ∃ S : Slot, (nextBoot fs false).Designates S

/-! ## The system -/

/-- A call of the backend. -/
inductive Call where
  | getPrimary
  | setPrimary (S : Slot)
  | getState (S : Slot)
  | setState (S : Slot) (good : Bool)
  deriving DecidableEq

/-- The script a call runs. -/
def Call.script : Call → Script Sys Exit
  | .getPrimary => rpiTryboot "get-primary".toList [] []
  | .setPrimary S => rpiTryboot "set-primary".toList S.name []
  | .getState S => rpiTryboot "get-state".toList S.name []
  | .setState S good =>
    rpiTryboot "set-state".toList S.name (if good then "good".toList else "bad".toList)

inductive Event where
  /-- The backend runs undisturbed. -/
  | call (c : Call)
  /-- An orderly reboot. -/
  | reboot
  /-- Power is lost once `k` operations of a call were done (before the call
  for `k = 0`), and comes back. -/
  | lossDuring (c : Call) (k : Nat)
  deriving DecidableEq

namespace Sys

/-- The machine starts: `/run` is empty. -/
def start (s : Sys) (tryboot : Bool) : Sys := ⟨s.boot, none, nextBoot s.boot tryboot⟩

/-- An orderly reboot is a tryboot if `reboot-param` asks for one. -/
def trybootNext (s : Sys) : Bool := s.rebootParam = some "0 tryboot".toList

def step (s : Sys) : Event → Sys
  | .call c => (c.script.run s).1
  | .reboot => s.start s.trybootNext
  | .lossDuring c k => (c.script.cut k s).start false

end Sys

/-- No power loss. -/
def Event.orderly : Event → Bool
  | .lossDuring _ _ => false
  | _ => true

/-! ## What calls leave alone -/

/-- The paths of the boot partition that a call may write. -/
def Call.writes : Call → List (List Line)
  | .getPrimary | .getState _ => []
  | .setPrimary _ => [cmdlineTrybootTxt, trybootTxt]
  | .setState S false => [goodFile S.name]
  | .setState S true => [goodFile S.name, configTxt, cmdlineTxt, cmdlineTrybootTxt, trybootTxt]

/-- No operation of a call touches another path. -/
theorem script_frame {c : Call} {p : List Line} (hp : p ∉ c.writes) (s : Sys) :
    c.script.Keeps (fun s' => s'.boot p = s.boot p) s := by
  cases c with
  | getPrimary => trivial
  | getState S =>
    show (getState S.name).Keeps _ s
    simp only [getState, Script.keeps_look]
    split <;> trivial
  | setPrimary S =>
    simp only [Call.writes, List.mem_cons, List.not_mem_nil, or_false, not_or] at hp
    obtain ⟨hc, ht⟩ := hp
    show (setPrimary S.name).Keeps _ s
    simp only [setPrimary, Script.keeps_look]
    split
    · trivial
    · split
      · trivial
      · have h1 : ∀ l, (s.writeCmdlineTryboot l).boot p = s.boot p := fun l => Fs.write_ne hc
        have h2 : ∀ l, ((s.writeCmdlineTryboot l).writeTryboot S.name).boot p = s.boot p :=
          fun l => (Fs.write_ne ht).trans (h1 l)
        exact ⟨h1 _, h2 _, h2 _, trivial⟩
  | setState S good =>
    cases good with
    | false =>
      have hg : p ≠ goodFile S.name := fun e => hp (by rw [e]; exact List.mem_cons_self)
      exact ⟨Fs.unlink_ne hg, trivial⟩
    | true =>
      simp only [Call.writes, List.mem_cons, List.not_mem_nil, or_false, not_or] at hp
      obtain ⟨hg, hcf, hc, ht, htb⟩ := hp
      show (setState S.name "good".toList).Keeps _ s
      simp only [setState, ne_eq, not_true_eq_false, ↓reduceIte, Script.keeps_look]
      split
      · split
        · trivial
        · have h1 : s.commitConfig.boot p = s.boot p := Fs.write_ne hcf
          have h2 : s.commitConfig.commitCmdline.boot p = s.boot p :=
            (Fs.rename_ne ht hc).trans h1
          have h3 : s.commitConfig.commitCmdline.dropTryboot.boot p = s.boot p :=
            (Fs.unlink_ne htb).trans h2
          exact ⟨h1, h2, h3, h3, (Fs.touch_ne hg).trans h3, trivial⟩
      · exact ⟨Fs.touch_ne hg, trivial⟩

theorem step_frame {c : Call} {p : List Line} (hp : p ∉ c.writes) (s : Sys) :
    (s.step (.call c)).boot p = s.boot p :=
  (script_frame hp s).run rfl

/-! ## The factory files -/

/-- `config.txt` of the board. -/
def factoryConfig : Text :=
  ["# For more options and information see",
    "# http://rptl.io/configtxt",
    "# Some settings may impact device functionality. See link above for details",
    "",
    "# Uncomment some or all of these to enable the optional hardware interfaces",
    "#dtparam=i2c_arm=on",
    "#dtparam=i2s=on",
    "#dtparam=spi=on",
    "",
    "# Enable audio (loads snd_bcm2835)",
    "dtparam=audio=on",
    "",
    "# Automatically load overlays for detected cameras",
    "camera_auto_detect=1",
    "",
    "# Automatically load overlays for detected DSI displays",
    "display_auto_detect=1",
    "",
    "# Automatically load initramfs files, if found",
    "auto_initramfs=1",
    "",
    "# Enable DRM VC4 V3D driver",
    "dtoverlay=vc4-kms-v3d",
    "max_framebuffers=2",
    "",
    "# Don't have the firmware create an initial video= setting in cmdline.txt.",
    "# Use the kernel's default instead.",
    "disable_fw_kms_setup=1",
    "",
    "# Run in 64-bit mode",
    "arm_64bit=1",
    "",
    "# Disable compensation for displays with overscan",
    "disable_overscan=1",
    "",
    "# Run as fast as firmware / board allows",
    "arm_boost=1",
    "",
    "# Use OS prefix for A/B slot (RAUC)",
    "os_prefix=slot-A/",
    "cmdline=/cmdline.txt",
    "",
    "# Uncomment this to enable GPIO support for RPI-RF-MOD/HM-MOD-RPI-PCB",
    "#enable_uart=1",
    "#dtparam=i2c_arm=on",
    "#dtoverlay=rpi-rf-mod",
    "",
    "[cm4]",
    "# Enable host mode on the 2711 built-in XHCI USB controller.",
    "# This line should be removed if the legacy DWC2 controller is required",
    "# (e.g. for USB device mode) or if USB support is not required.",
    "otg_mode=1",
    "",
    "[all]",
    ""].map String.toList

/-- `cmdline.txt` of the board. -/
def factoryCmdline : Line :=
  ("zram.enabled=1 zram.num_devices=3 rootwait cgroup_enable=memory fsck.repair=yes console=tty0 " ++
    "root=PARTUUID=8d3d53e3-6d49-4c38-8349-aff6859e82fd ro rauc.slot=A").toList

/-- The characters of these, for the kernel to compute with. -/
def factoryConfigChars : { t : Text // factoryConfig = t } := ⟨_, by
  delta factoryConfig
  repeat apply lines_cons
  exact lines_nil⟩

def factoryCmdlineChars : { l : Line // factoryCmdline = l } := ⟨_, by
  delta factoryCmdline
  apply Eq.trans String.toList_append
  exact congrArg₂ _ String.toList_ofList String.toList_ofList⟩

/-- The boot partition of a new machine: the two configuration files and the
directory of slot A. -/
def factoryBoot : BootFs := fun p =>
  if p = configTxt then some (.file factoryConfig)
  else if p = cmdlineTxt then some (.file [factoryCmdline])
  else if p = slotDir Slot.A.name then some .dir
  else none

theorem factoryBoot_eq {t : Text} {l : Line} (ht : factoryConfig = t) (hl : factoryCmdline = l) :
    factoryBoot = fun p =>
      if p = configTxt then some (.file t)
      else if p = cmdlineTxt then some (.file [l])
      else if p = slotDir Slot.A.name then some .dir
      else none := by
  subst ht hl
  rfl

/-- A new machine, after its first boot. -/
def factory : Sys := Sys.start ⟨factoryBoot, none, ⟨false, [], []⟩⟩ false

/-- The state of a machine after `es`. -/
def Sys.after (es : List Event) : Sys := run Sys.step factory es

end HassOS.Tryboot
