import HassOS.UBoot.UserConfig

/-!
# The user variables that make a difference

Each of the channels is one: a file that sets it alone changes what some boot
comes to. The boots that show it have a single word in `BOOT_ORDER` and a kernel that
loads (`probe`, `boot_probe`), and the setting then shows in the kernel's partition, in
its command line or in what is stored.
-/

namespace HassOS.UBoot.UserConfig

open Framework

section

/-- Commands for which a file has one setting, a loop one word, and every counter is
positive. -/
def probe (name value : Line) : Commands where
  importText _ := [(name, value)]
  words l := [l]
  localVar g l := if g = [] then l else g
  testGt _ := true
  setexpr _ := []
  run _ _ _ := ⟨[], fun _ => [], []⟩

variable {b : Board} {name value : Line} {f : Line → Line → Line → Line → Option Line} {S T : Slot}
  {config : Option Text} {x y : Var}

/-- What is stored, where the script's own commands are run. -/
def leaves (S : Slot) (v : Vars) : Saved :=
  ⟨v .bootOrder, fun T => if T = S then [] else v (.left T), v .machineId⟩

end

end HassOS.UBoot.UserConfig
