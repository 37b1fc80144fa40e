import HassOS.Framework.Vars
import HassOS.Slot
import Mathlib.Logic.Function.Iterate

/-!
# User variables in the boot script (`haos-config.txt`)

The boards whose scripts import `haos-config.txt` take all its settings, after the
boot state was loaded and before the slots are tried. Commands of U-Boot enter as
parameters (`Commands`), as does what they find on the device (`Inputs`), so that the
settings can be any text. The address that the kernel is loaded to is left out, as the
outcomes of these loads are inputs, and so is what a file can do to U-Boot itself
(`reserved`).

`Board.channels` are the variables whose settings the script still looks at. The loops
of two boots whose files set these alike are in step (`SameLoop`), so the boots come to
the same (`boot_eq_of_alike`), and the loop sets no counter but by counting it down
(`boot_left`).
-/

namespace HassOS.UBoot.UserConfig

open Framework

/-- The variables of the script; `left` is `BOOT_A_LEFT` or `BOOT_B_LEFT`, `bootargsOf`
is `bootargs_a` or `bootargs_b`, and `bootstateEnv` is `dev_env` or `mmc_env`. -/
inductive Var
  | bootOrder
  | left (S : Slot)
  | machineId
  | bootCondition
  | bootSlot
  | bootargs
  | bootargsHassos
  | bootargsOf (S : Slot)
  | bootPartnum
  | bootstateEnv
  | cmdline
  | devtype
  | devnum
  | fdtfile
  | kernelPartnum
  | overlayError
  | overlayFile
  | overlays
  | ramdiskAddrR
  | socRev
  | storebootstate
  | other (name : Line)
deriving DecidableEq

/-- The names of the variables. -/
def Var.ofName (name : Line) : Var :=
  ([("BOOT_ORDER", .bootOrder), ("BOOT_A_LEFT", .left .A), ("BOOT_B_LEFT", .left .B),
    ("MACHINE_ID", .machineId), ("BOOT_CONDITION", .bootCondition), ("BOOT_SLOT", .bootSlot),
    ("bootargs", .bootargs), ("bootargs_hassos", .bootargsHassos), ("bootargs_a", .bootargsOf .A),
    ("bootargs_b", .bootargsOf .B), ("boot_partnum", .bootPartnum), ("dev_env", .bootstateEnv),
    ("mmc_env", .bootstateEnv), ("cmdline", .cmdline), ("devtype", .devtype), ("devnum", .devnum),
    ("fdtfile", .fdtfile), ("kernel_partnum", .kernelPartnum), ("overlay_error", .overlayError),
    ("overlay_file", .overlayFile), ("overlays", .overlays), ("ramdisk_addr_r", .ramdiskAddrR),
    ("soc_rev", .socRev), ("storebootstate", .storebootstate)].find? fun x =>
      x.1.toList = name).elim (.other name) (·.2)

/-- A variable that is not set is empty. -/
abbrev Vars := Var → Line

/-- The stored boot state. -/
structure Saved where
  order : Line
  left : Slot → Line
  machineId : Line

/-- A place that a kernel is loaded from. -/
structure Kernel where
  devtype : Line
  devnum : Line
  partition : Line
deriving DecidableEq

/-- Commands of U-Boot, and of its shell. -/
structure Commands where
  /-- The settings that `env import -t` finds in a file. -/
  importText : Text → List (Line × Line)
  /-- The words of a loop. -/
  words : Line → List Line
  /-- What a variable of the shell stands for, given its value in the environment and its own. -/
  localVar : Line → Line → Line
  /-- `test ${X} -gt 0` -/
  testGt : Line → Bool
  /-- What `setexpr X ${X} - 1` makes of `X`. -/
  setexpr : Line → Line
  /-- What `run` of other commands than the script's own stores. -/
  run : Line → Vars → Saved → Saved

/-- What the commands of a boot find. -/
structure Inputs where
  partStart : Line → Line → Line → Line
  partNumber : Line → Line → Line → Option Line
  pressed : ℕ → Bool
  /-- What `fileenv` sets to the first line of `cmdline.txt`, given the device, the
  partition and the address. -/
  cmdlineTxt : Line → Line → Line → Line → Option Line
  overlayFails : Line → Bool
  /-- The outcome of each kernel load. -/
  load : ℕ → Kernel → Bool

/-- A partition that the script knows by its number, or looks up by its label. -/
inductive Part
  | number (n : Line)
  | label (l : Line)

/-- What the scripts of the boards differ in. -/
structure Board where
  /-- The device type in commands, if it is not `${devtype}`. -/
  devtype : Option Line
  usb : Bool
  button : Bool
  bootstate : Line
  size : Line
  blocks : Line
  bootargsHassos : Line → Line → Line
  bootargs : Slot → Line
  boot : Part
  kernel : Slot → Part
  fdtfile : Commands → Vars → Line

def Board.devtypeIn (b : Board) (v : Vars) : Line := b.devtype.getD (v .devtype)

/-! ## The script -/

section

variable (u : Commands) (b : Board) (i : Inputs)

/-- `test -n "${X}" || setenv X l` -/
def setDefault (x : Var) (l : Line) (v : Vars) : Vars := if v x = [] then Function.update v x l else v

/-- The commands in `storebootstate`, with the variables of the time it is set. -/
def storeCommands (v : Vars) : Line :=
  "     echo 'storing env...';     env export -c -s ".toList ++ b.size ++ " ".toList ++ v .ramdiskAddrR ++
    " BOOT_ORDER BOOT_A_LEFT BOOT_B_LEFT MACHINE_ID;     ".toList ++ b.devtypeIn v ++ " write ".toList ++
    v .ramdiskAddrR ++ " ".toList ++ v .bootstateEnv ++ " ".toList ++ b.blocks ++ ";".toList

/-- A variable of the stored state, which is not set if it was not stored. -/
def importSaved (x : Var) (l : Line) (v : Vars) : Vars := if l ≠ [] then Function.update v x l else v

/-- `env import -c` in `loadbootstate` -/
def loadbootstate (s : Saved) (v : Vars) : Vars :=
  let v := importSaved .bootOrder s.order v
  let v := importSaved (.left .A) (s.left .A) v
  let v := importSaved (.left .B) (s.left .B) v
  importSaved .machineId s.machineId v

/-- `env export -c` in `storebootstate` -/
def exportState (v : Vars) : Saved := ⟨v .bootOrder, fun S => v (.left S), v .machineId⟩

/-- `part number ${devtype} ${devnum} label x` -/
def findPart (p : Part) (x : Var) (v : Vars) : Vars :=
  match p with
  | .number _ => v
  | .label l =>
    match i.partNumber (b.devtypeIn v) (v .devnum) l with
    | some n => Function.update v x n
    | none => v

def partnum (p : Part) (x : Var) (v : Vars) : Line :=
  match p with
  | .number n => n
  | .label _ => v x

/-- The bootargs of both slots. -/
def setBootargs (v : Vars) : Vars :=
  Function.update (Function.update v (.bootargsOf .A) (b.bootargs .A)) (.bootargsOf .B) (b.bootargs .B)

/-- The script, up to where it sets `storebootstate`. -/
def prepare (v : Vars) : Vars :=
  let v := if b.usb ∧ v .devtype = "usb_mass_storage".toList then
    Function.update v .devtype "usb".toList else v
  let v := Function.update v .bootstateEnv (i.partStart (b.devtypeIn v) (v .devnum) b.bootstate)
  Function.update v .storebootstate (storeCommands b v)

/-- The script from there, up to the import of `haos-config.txt`. -/
def loadState (s : Saved) (v : Vars) : Vars :=
  let v := loadbootstate s v
  let v := setDefault .bootOrder "A B".toList v
  let v := setDefault (.left .A) "3".toList v
  let v := setDefault (.left .B) "3".toList v
  let v := if v .machineId = [] then
    Function.update v .bootCondition "systemd.condition-first-boot=true".toList else v
  let v := Function.update v .bootargsHassos (b.bootargsHassos (v .machineId) (v .bootCondition))
  let v := if b.button ∧ i.pressed 0 ∧ i.pressed 1 then
    Function.update v .bootargsHassos (v .bootargsHassos ++ " haos.wipe=1".toList) else v
  findPart b i b.boot .bootPartnum (setBootargs b v)

/-- The settings of `haos-config.txt`, if there is one. -/
def settings (config : Option Text) : List (Var × Line) :=
  ((config.map u.importText).getD []).map fun e => (.ofName e.1, e.2)

/-- `fileenv ${devtype} ${devnum}:${boot_partnum} ${ramdisk_addr_r} cmdline.txt cmdline` -/
def readCmdline (v : Vars) : Vars :=
  match i.cmdlineTxt (b.devtypeIn v) (v .devnum) (partnum b.boot .bootPartnum v) (v .ramdiskAddrR) with
  | some l => Function.update v .cmdline l
  | none => v

/-- The device tree and its overlays. -/
def loadDeviceTree (v : Vars) : Vars :=
  let v := Function.update v .fdtfile (b.fdtfile u v)
  if (u.words (v .overlays)).any fun o => i.overlayFails (u.localVar (v .overlayFile) o) then
    Function.update v .overlayError "true".toList
  else v

/-- The script from the import to the slots. -/
def loadFiles (v : Vars) : Vars := Function.update (loadDeviceTree u b i (readCmdline b i v)) .bootargs []

/-- The loop: the variables, the number of loads so far, and the kernel loaded. -/
structure Loop where
  vars : Vars
  loads : ℕ
  kernel : Option Kernel

/-- The variables once an attempt is counted and its kernel is looked up. -/
def countAttempt (S : Slot) (v : Vars) : Vars :=
  findPart b i (b.kernel S) .kernelPartnum (Function.update v (.left S) (u.setexpr (v (.left S))))

def kernelOf (S : Slot) (v : Vars) : Kernel :=
  ⟨b.devtypeIn v, v .devnum, partnum (b.kernel S) .kernelPartnum v⟩

def slotBootargs (S : Slot) (v : Vars) : Line :=
  v .bootargsHassos ++ " ".toList ++ v (.bootargsOf S) ++ " rauc.slot=".toList ++ S.name ++
    " ".toList ++ v .cmdline

def attempt (S : Slot) (l : Loop) : Loop :=
  if u.testGt (l.vars (.left S)) then
    let v := countAttempt u b i S l.vars
    if i.load l.loads (kernelOf b S v) then
      ⟨Function.update v .bootargs (slotBootargs S v), l.loads + 1, some (kernelOf b S v)⟩
    else ⟨v, l.loads + 1, l.kernel⟩
  else l

def iteration (l : Loop) (word : Line) : Loop :=
  let slot := u.localVar (l.vars .bootSlot) word
  -- skip remaining slots
  if l.vars .bootargs ≠ [] then l
  else if slot = Slot.A.name then attempt u b i .A l
  else if slot = Slot.B.name then attempt u b i .B l
  else l

def slotLoop (v : Vars) : Loop := Framework.run (iteration u b i) ⟨v, 0, none⟩ (u.words (v .bootOrder))

/-- `run storebootstate`, where `own` are the commands that the script put there. -/
def runStore (own : Line) (v : Vars) (s : Saved) : Saved :=
  if v .storebootstate = own then exportState v else u.run (v .storebootstate) v s

/-- What a boot comes to; without a kernel it ends in a reset. -/
structure Outcome where
  kernel : Option Kernel
  bootargs : Line
  saved : Saved

/-- The variables before the import. -/
def beforeImport (s : Saved) (v : Vars) : Vars := loadState b i s (prepare b i v)

/-- The slots are tried. -/
def afterLoop (config : Option Text) (s : Saved) (v : Vars) : Loop :=
  slotLoop u b i (loadFiles u b i (assign (beforeImport b i s v) (settings u config)))

/-- The script, up to the start of the kernel or the reset, from the default
variables `v`. -/
def boot (config : Option Text) (v : Vars) (s : Saved) : Outcome :=
  let own := prepare b i v .storebootstate
  let l := afterLoop u b i config s v
  if l.vars .bootargs ≠ [] then ⟨l.kernel, l.vars .bootargs, runStore u own l.vars s⟩
  else
    -- No valid slot found, resetting tries to 3
    let w := Function.update (Function.update l.vars (.left .A) "3".toList) (.left .B) "3".toList
    ⟨none, [], runStore u own w s⟩

end

/-! ## What the script still looks at -/

/-- The variable that a partition is looked up in. -/
def Part.vars (x : Var) : Part → List Var
  | .number _ => []
  | .label _ => [x]

/-- The variables that matter after the import. -/
def Board.channels (b : Board) : List Var :=
  [.bootOrder, .left .A, .left .B, .machineId, .bootSlot, .bootargsHassos, .bootargsOf .A, .bootargsOf .B,
    .cmdline, .devnum, .ramdiskAddrR, .storebootstate] ++ (if b.devtype = none then [.devtype] else []) ++
    b.boot.vars .bootPartnum ++ (b.kernel .A).vars .kernelPartnum ++ (b.kernel .B).vars .kernelPartnum

/-- Variables that set up U-Boot's environment and its shell. -/
def reserved : List Var := [".flags", ".callbacks", "IFS"].map fun name => .other name.toList

/-- The file leaves alone the commands that store the state, and U-Boot itself. -/
def Plain (u : Commands) (c : Option Text) : Prop :=
  ∀ x ∈ .storebootstate :: reserved, lastSet (settings u c) x = none

/-- Two files set the channels alike. -/
structure Alike (u : Commands) (b : Board) (c c' : Option Text) : Prop where
  same : ∀ x ∈ b.channels, lastSet (settings u c) x = lastSet (settings u c') x
  left : Plain u c
  right : Plain u c'

section

variable {u : Commands} {b : Board} {i : Inputs} {v w : Vars} {xs : List Var} {S : Slot}

theorem mem_channels_devtype (h : b.devtype = none) : .devtype ∈ b.channels := by
  simp [Board.channels, h]

theorem mem_channels_boot {l : Line} (h : b.boot = .label l) : .bootPartnum ∈ b.channels := by
  simp [Board.channels, h, Part.vars]

theorem mem_channels_kernel {l : Line} (h : b.kernel S = .label l) : .kernelPartnum ∈ b.channels := by
  cases S with
  | A => simp [Board.channels, h, Part.vars]
  | B => simp [Board.channels, h, Part.vars]

theorem mem_channels (b : Board) : ∀ x ∈ [.bootOrder, .left .A, .left .B, .machineId, .bootSlot,
    .bootargsHassos, .bootargsOf .A, .bootargsOf .B, .cmdline, .devnum, .ramdiskAddrR, .storebootstate],
    x ∈ b.channels := fun x hx => by simp only [Board.channels, List.mem_append, hx, true_or]

theorem not_mem_channels {x : Var} (hx : x = .fdtfile ∨ x = .overlayError ∨ x = .bootargs) :
    x ∉ b.channels := by
  have hparts : ∀ (p : Part) y, y ≠ x → x ∉ p.vars y := by
    intro p y hy
    cases p with
    | number n => simp [Part.vars]
    | label l => simpa [Part.vars] using hy.symm
  have hnames : x ∉ [Var.bootOrder, .left .A, .left .B, .machineId, .bootSlot, .bootargsHassos,
      .bootargsOf .A, .bootargsOf .B, .cmdline, .devnum, .ramdiskAddrR, .storebootstate, .devtype,
      .bootPartnum, .kernelPartnum] := by
    rcases hx with rfl | rfl | rfl <;> decide
  simp only [List.mem_cons, List.not_mem_nil, or_false, not_or] at hnames
  obtain ⟨h1, h2, h3, h4, h5, h6, h7, h8, h9, h10, h11, h12, h13, h14, h15⟩ := hnames
  have hboot := hparts b.boot .bootPartnum (Ne.symm h14)
  have hkernel := fun S => hparts (b.kernel S) .kernelPartnum (Ne.symm h15)
  have hdev : x ∉ if b.devtype = none then [Var.devtype] else [] := by
    split
    · simpa using h13
    · simp
  simp [Board.channels, hboot, hkernel, hdev, h1, h2, h3, h4, h5, h6, h7, h8, h9, h10, h11, h12]

/-! ## Two runs -/

theorem read_eq (h : Agree xs v w) (hxs : b.channels ⊆ xs) {x : Var}
    (hx : x ∈ [.bootOrder, .left .A, .left .B, .machineId, .bootSlot, .bootargsHassos, .bootargsOf .A,
      .bootargsOf .B, .cmdline, .devnum, .ramdiskAddrR, .storebootstate]) : v x = w x :=
  h x (hxs (mem_channels b x hx))

theorem devtypeIn_eq (h : Agree xs v w) (hxs : b.channels ⊆ xs) : b.devtypeIn v = b.devtypeIn w := by
  unfold Board.devtypeIn
  cases hd : b.devtype with
  | none => exact h _ (hxs (mem_channels_devtype hd))
  | some d => rfl

theorem agree_findPart (h : Agree xs v w) (hxs : b.channels ⊆ xs) (p : Part) (x : Var) :
    Agree xs (findPart b i p x v) (findPart b i p x w) := by
  have hnum : v .devnum = w .devnum := read_eq h hxs (by simp)
  cases p with
  | number n => exact h
  | label l =>
    simp only [findPart, devtypeIn_eq h hxs, hnum]
    cases i.partNumber (b.devtypeIn w) (w .devnum) l with
    | none => exact h
    | some n => exact h.set x n

theorem partnum_boot_eq (h : Agree xs v w) (hxs : b.channels ⊆ xs) :
    partnum b.boot .bootPartnum v = partnum b.boot .bootPartnum w := by
  cases hp : b.boot with
  | number n => rfl
  | label l => exact h _ (hxs (mem_channels_boot hp))

theorem partnum_kernel_eq (h : Agree xs v w) (hxs : b.channels ⊆ xs) (S : Slot) :
    partnum (b.kernel S) .kernelPartnum v = partnum (b.kernel S) .kernelPartnum w := by
  cases hp : b.kernel S with
  | number n => rfl
  | label l => exact h _ (hxs (mem_channels_kernel hp))

theorem agree_loadFiles (h : Agree b.channels v w) :
    Agree (.bootargs :: b.channels) (loadFiles u b i v) (loadFiles u b i w) := by
  have hself : b.channels ⊆ b.channels := List.Subset.refl _
  have hdev := devtypeIn_eq h hself
  have hnum : v .devnum = w .devnum := read_eq h hself (by simp)
  have haddr : v .ramdiskAddrR = w .ramdiskAddrR := read_eq h hself (by simp)
  have hpart := partnum_boot_eq h hself
  have hcmdline : Agree b.channels (readCmdline b i v) (readCmdline b i w) := by
    simp only [readCmdline, hdev, hnum, haddr, hpart]
    split
    · exact h.set _ _
    · exact h
  -- The device tree changes no variable that matters.
  have htree : ∀ {v w : Vars}, Agree b.channels v w →
      Agree b.channels (loadDeviceTree u b i v) (loadDeviceTree u b i w) := by
    intro v w h
    have hfdt := h.set_other (not_mem_channels (.inl rfl)) (b.fdtfile u v) (b.fdtfile u w)
    have herr : ∀ {v w : Vars} (p q : Bool), Agree b.channels v w → Agree b.channels
        (if p then Function.update v .overlayError "true".toList else v)
        (if q then Function.update w .overlayError "true".toList else w) := by
      intro v w p q h x hx
      have hne : x ≠ .overlayError := fun e => not_mem_channels (b := b) (.inr (.inl rfl)) (e ▸ hx)
      cases p <;> cases q <;> simp [Function.update_of_ne hne, h x hx]
    exact herr _ _ hfdt
  intro x hx
  have hall := htree hcmdline
  rcases List.mem_cons.mp hx with rfl | hx
  · rfl
  · exact (hall.set .bootargs []) x hx

/-- The loops of the two runs. -/
structure SameLoop (b : Board) (l l' : Loop) : Prop where
  vars : Agree (.bootargs :: b.channels) l.vars l'.vars
  loads : l.loads = l'.loads
  kernel : l.kernel = l'.kernel

theorem agree_countAttempt (h : Agree xs v w) (hxs : b.channels ⊆ xs) (S : Slot) :
    Agree xs (countAttempt u b i S v) (countAttempt u b i S w) := by
  have hl : v (.left S) = w (.left S) := read_eq h hxs (by cases S <;> simp)
  unfold countAttempt
  rw [hl]
  exact agree_findPart (h.set _ _) hxs _ _

theorem kernelOf_eq (h : Agree xs v w) (hxs : b.channels ⊆ xs) (S : Slot) :
    kernelOf b S v = kernelOf b S w := by
  have hnum : v .devnum = w .devnum := read_eq h hxs (by simp)
  rw [kernelOf, devtypeIn_eq h hxs, hnum, partnum_kernel_eq h hxs, kernelOf]

theorem slotBootargs_eq (h : Agree xs v w) (hxs : b.channels ⊆ xs) (S : Slot) :
    slotBootargs S v = slotBootargs S w := by
  have hhassos : v .bootargsHassos = w .bootargsHassos := read_eq h hxs (by simp)
  have hslot : v (.bootargsOf S) = w (.bootargsOf S) := read_eq h hxs (by cases S <;> simp)
  have hcmdline : v .cmdline = w .cmdline := read_eq h hxs (by simp)
  rw [slotBootargs, hhassos, hslot, hcmdline, slotBootargs]

theorem slotBootargs_ne_nil (S : Slot) (v : Vars) : slotBootargs S v ≠ [] := by
  simp [slotBootargs]

theorem sameLoop_attempt {l l' : Loop} (h : SameLoop b l l') (S : Slot) :
    SameLoop b (attempt u b i S l) (attempt u b i S l') := by
  have hsub : b.channels ⊆ .bootargs :: b.channels := List.subset_cons_self _ _
  have hl : l.vars (.left S) = l'.vars (.left S) := read_eq h.vars hsub (by cases S <;> simp)
  have hv := agree_countAttempt (u := u) (i := i) h.vars hsub S
  simp only [attempt, hl, kernelOf_eq hv hsub, slotBootargs_eq hv hsub, h.loads]
  split
  · split
    · exact ⟨hv.set _ _, rfl, rfl⟩
    · exact ⟨hv, rfl, h.kernel⟩
  · exact h

theorem sameLoop_iteration (l l' : Loop) (word : Line) (h : SameLoop b l l') :
    SameLoop b (iteration u b i l word) (iteration u b i l' word) := by
  have hsub : b.channels ⊆ .bootargs :: b.channels := List.subset_cons_self _ _
  have hargs : l.vars .bootargs = l'.vars .bootargs := h.vars _ List.mem_cons_self
  have hslot : l.vars .bootSlot = l'.vars .bootSlot := read_eq h.vars hsub (by simp)
  simp only [iteration, hargs, hslot]
  split
  · exact h
  split
  · exact sameLoop_attempt h .A
  split
  · exact sameLoop_attempt h .B
  · exact h

theorem sameLoop_slotLoop (h : Agree (.bootargs :: b.channels) v w) :
    SameLoop b (slotLoop u b i v) (slotLoop u b i w) := by
  have hsub : b.channels ⊆ .bootargs :: b.channels := List.subset_cons_self _ _
  have horder : v .bootOrder = w .bootOrder := read_eq h hsub (by simp)
  unfold slotLoop
  rw [horder]
  have hstart : SameLoop b ⟨v, 0, none⟩ ⟨w, 0, none⟩ := ⟨h, rfl, rfl⟩
  exact run_sim sameLoop_iteration hstart _

/-! ## What stays -/

variable {x y : Var}

theorem findPart_of_ne (p : Part) (h : y ≠ x) : findPart b i p x v y = v y := by
  cases p with
  | number n => rfl
  | label l =>
    simp only [findPart]
    cases i.partNumber (b.devtypeIn v) (v .devnum) l with
    | none => rfl
    | some n => exact Function.update_of_ne h _ _

theorem ite_of_ne (p : Prop) [Decidable p] (h : y ≠ x) (l : Line) :
    (if p then Function.update v x l else v) y = v y := by
  split
  · exact Function.update_of_ne h _ _
  · rfl

theorem setDefault_of_ne (h : y ≠ x) (l : Line) : setDefault x l v y = v y := ite_of_ne _ h l

theorem importSaved_of_ne (h : y ≠ x) (l : Line) : importSaved x l v y = v y := ite_of_ne _ h l

/-- Before the import, the boot state is only loaded and given its defaults. -/
theorem beforeImport_state (s : Saved) (v : Vars) (h : y ∉ [.bootCondition, .bootargsHassos,
    .bootargsOf .A, .bootargsOf .B, .bootPartnum]) :
    beforeImport b i s v y = setDefault (.left .B) "3".toList (setDefault (.left .A) "3".toList
      (setDefault .bootOrder "A B".toList (loadbootstate s (prepare b i v)))) y := by
  simp only [List.mem_cons, List.not_mem_nil, or_false, not_or] at h
  obtain ⟨h1, h2, h3, h4, h5⟩ := h
  unfold beforeImport loadState setBootargs
  rw [findPart_of_ne _ h5, Function.update_of_ne h4, Function.update_of_ne h3, ite_of_ne _ h2,
    Function.update_of_ne h2, ite_of_ne _ h1]

/-- A variable that the script does not set before the import. -/
theorem beforeImport_of_ne (s : Saved) (h : y ∉ [.bootOrder, .left .A, .left .B, .machineId,
    .bootCondition, .bootargsHassos, .bootargsOf .A, .bootargsOf .B, .bootPartnum]) :
    beforeImport b i s v y = prepare b i v y := by
  have hrest : y ∉ [.bootCondition, .bootargsHassos, .bootargsOf .A, .bootargsOf .B, .bootPartnum] :=
    fun hy => h (List.mem_append_right [Var.bootOrder, .left .A, .left .B, .machineId] hy)
  simp only [List.mem_cons, not_or] at h
  obtain ⟨h1, h2, h3, h4, -⟩ := h
  rw [beforeImport_state s v hrest, setDefault_of_ne h3, setDefault_of_ne h2, setDefault_of_ne h1,
    loadbootstate, importSaved_of_ne h4, importSaved_of_ne h3, importSaved_of_ne h2, importSaved_of_ne h1]

/-- The attempts that a boot finds: the stored ones, or those of the defaults. -/
def Saved.attempts (s : Saved) (v : Vars) (S : Slot) : Line :=
  if s.left S ≠ [] then s.left S else if v (.left S) = [] then "3".toList else v (.left S)

theorem setDefault_importSaved (x : Var) (l d : Line) (v : Vars) :
    setDefault x d (importSaved x l v) x = if l ≠ [] then l else if v x = [] then d else v x := by
  by_cases h : l = []
  · by_cases hv : v x = []
    · simp [setDefault, importSaved, h, hv]
    · simp [setDefault, importSaved, h, hv]
  · simp [setDefault, importSaved, h]

theorem setDefault_congr {v w : Vars} (h : v x = w x) (d : Line) :
    setDefault x d v x = setDefault x d w x := by
  by_cases hw : w x = []
  · simp [setDefault, h, hw]
  · simp [setDefault, h, hw]

theorem prepare_of_ne (v : Vars) (h : y ∉ [.devtype, .bootstateEnv, .storebootstate]) :
    prepare b i v y = v y := by
  simp only [List.mem_cons, List.not_mem_nil, or_false, not_or] at h
  obtain ⟨h1, h2, h3⟩ := h
  unfold prepare
  rw [Function.update_of_ne h3, Function.update_of_ne h2, ite_of_ne _ h1]

theorem beforeImport_order (s : Saved) (v : Vars) : beforeImport b i s v .bootOrder =
    if s.order ≠ [] then s.order else if v .bootOrder = [] then "A B".toList else v .bootOrder := by
  rw [beforeImport_state s v (by simp), setDefault_of_ne (by simp), setDefault_of_ne (by simp),
    ← prepare_of_ne (b := b) (i := i) (y := .bootOrder) v (by simp), ← setDefault_importSaved]
  refine setDefault_congr ?_ _
  rw [loadbootstate, importSaved_of_ne (by simp), importSaved_of_ne (by simp), importSaved_of_ne (by simp)]

theorem beforeImport_machineId (s : Saved) (v : Vars) : beforeImport b i s v .machineId =
    if s.machineId ≠ [] then s.machineId else v .machineId := by
  rw [beforeImport_state s v (by simp), setDefault_of_ne (by simp), setDefault_of_ne (by simp),
    setDefault_of_ne (by simp), loadbootstate, importSaved]
  split
  · exact Function.update_self _ _ _
  · rw [importSaved_of_ne (by simp), importSaved_of_ne (by simp), importSaved_of_ne (by simp),
      prepare_of_ne _ (by simp)]

theorem beforeImport_left (s : Saved) (v : Vars) (S : Slot) :
    beforeImport b i s v (.left S) = s.attempts v S := by
  rw [beforeImport_state s v (by simp), Saved.attempts,
    ← prepare_of_ne (b := b) (i := i) (y := .left S) v (by simp), ← setDefault_importSaved]
  cases S with
  | A =>
    rw [setDefault_of_ne (by simp)]
    refine setDefault_congr ?_ _
    rw [setDefault_of_ne (by simp), loadbootstate, importSaved_of_ne (by simp), importSaved_of_ne (by simp)]
    unfold importSaved
    split
    · rw [Function.update_self, Function.update_self]
    · exact ite_of_ne _ (by simp) _
  | B =>
    refine setDefault_congr ?_ _
    rw [setDefault_of_ne (by simp), setDefault_of_ne (by simp), loadbootstate,
      importSaved_of_ne (by simp)]
    unfold importSaved
    split
    · rw [Function.update_self, Function.update_self]
    · rw [ite_of_ne _ (by simp), ite_of_ne _ (by simp)]

/-- A variable that the script does not set from the import to the slots. -/
theorem loadFiles_of_ne (h : y ∉ [.cmdline, .fdtfile, .overlayError, .bootargs]) :
    loadFiles u b i v y = v y := by
  simp only [List.mem_cons, List.not_mem_nil, or_false, not_or] at h
  obtain ⟨h1, h2, h3, h4⟩ := h
  have hcmdline : readCmdline b i v y = v y := by
    unfold readCmdline
    cases i.cmdlineTxt (b.devtypeIn v) (v .devnum) (partnum b.boot .bootPartnum v) (v .ramdiskAddrR) with
    | none => rfl
    | some l => exact Function.update_of_ne h1 _ _
  rw [loadFiles, Function.update_of_ne h4, loadDeviceTree, ite_of_ne _ h3, Function.update_of_ne h2,
    hcmdline]

/-- An attempt at a slot counts it down, and sets no other counter. -/
theorem attempt_of_ne (S : Slot) (l : Loop) (h1 : y ≠ .kernelPartnum) (h2 : y ≠ .bootargs) :
    (attempt u b i S l).vars y = l.vars y ∨
      y = .left S ∧ (attempt u b i S l).vars y = u.setexpr (l.vars y) := by
  have hcount : countAttempt u b i S l.vars y = l.vars y ∨
      y = .left S ∧ countAttempt u b i S l.vars y = u.setexpr (l.vars y) := by
    rw [countAttempt, findPart_of_ne _ h1]
    by_cases hy : y = .left S
    · exact .inr ⟨hy, by rw [hy, Function.update_self]⟩
    · exact .inl (Function.update_of_ne hy _ _)
  unfold attempt
  split
  · simp only
    split
    · simpa only [Function.update_of_ne h2] using hcount
    · exact hcount
  · exact .inl rfl

theorem iteration_of_ne (l : Loop) (word : Line) (h1 : y ≠ .kernelPartnum) (h2 : y ≠ .bootargs) :
    (iteration u b i l word).vars y = l.vars y ∨
      (∃ S, y = .left S) ∧ (iteration u b i l word).vars y = u.setexpr (l.vars y) := by
  have hslot : ∀ S, (attempt u b i S l).vars y = l.vars y ∨
      (∃ S, y = .left S) ∧ (attempt u b i S l).vars y = u.setexpr (l.vars y) :=
    fun S => (attempt_of_ne S l h1 h2).imp id fun h => ⟨⟨S, h.1⟩, h.2⟩
  simp only [iteration]
  split
  · exact .inl rfl
  split
  · exact hslot .A
  split
  · exact hslot .B
  · exact .inl rfl

/-- The loop only ever counts down. -/
theorem slotLoop_left (v : Vars) (S : Slot) :
    ∃ k : ℕ, (slotLoop u b i v).vars (.left S) = u.setexpr^[k] (v (.left S)) := by
  have hstep : ∀ (l : Loop) (word : Line),
      (∃ k : ℕ, l.vars (.left S) = u.setexpr^[k] (v (.left S))) →
      ∃ k : ℕ, (iteration u b i l word).vars (.left S) = u.setexpr^[k] (v (.left S)) := by
    intro l word h
    obtain ⟨k, hk⟩ := h
    rcases iteration_of_ne l word (y := .left S) (by simp) (by simp) with h | ⟨-, h⟩
    · exact ⟨k, by rw [h, hk]⟩
    · exact ⟨k + 1, by rw [h, hk, Function.iterate_succ_apply']⟩
  exact run_keeps (I := fun l : Loop => ∃ k : ℕ, l.vars (.left S) = u.setexpr^[k] (v (.left S))) hstep
    ⟨0, rfl⟩ _

theorem slotLoop_of_ne (v : Vars) (h : ∀ S, y ≠ .left S) (h1 : y ≠ .kernelPartnum)
    (h2 : y ≠ .bootargs) : (slotLoop u b i v).vars y = v y := by
  refine run_keeps (I := fun l : Loop => l.vars y = v y) ?_ rfl _
  intro l word hl
  rcases iteration_of_ne l word h1 h2 with h' | ⟨⟨S, hS⟩, -⟩
  · rw [h', hl]
  · exact absurd hS (h S)

/-! ## Boots -/

variable {c c' : Option Text}

theorem Plain.stores (h : Plain u c) : lastSet (settings u c) .storebootstate = none :=
  h _ List.mem_cons_self

theorem sameLoop_afterLoop (h : Alike u b c c') (i : Inputs) (s : Saved) (v : Vars) :
    SameLoop b (afterLoop u b i c s v) (afterLoop u b i c' s v) := by
  have hstart : Agree b.channels (beforeImport b i s v) (beforeImport b i s v) := fun _ _ => rfl
  exact sameLoop_slotLoop (agree_loadFiles (hstart.assign h.same))

/-- The script's own commands are run to store the state. -/
theorem afterLoop_storebootstate (h : lastSet (settings u c) .storebootstate = none) (i : Inputs)
    (s : Saved) (v : Vars) :
    (afterLoop u b i c s v).vars .storebootstate = prepare b i v .storebootstate := by
  rw [afterLoop, slotLoop_of_ne _ (by simp) (by simp) (by simp), loadFiles_of_ne (by simp), assign_apply,
    h, Option.getD_none, beforeImport_of_ne s (by simp)]

theorem runStore_own {own : Line} (h : v .storebootstate = own) (s : Saved) :
    runStore u own v s = exportState v := if_pos h

theorem exportState_eq (h : Agree xs v w) (hxs : b.channels ⊆ xs) : exportState v = exportState w := by
  have horder : v .bootOrder = w .bootOrder := read_eq h hxs (by simp)
  have hleft : (fun S => v (.left S)) = fun S => w (.left S) :=
    funext fun S => read_eq h hxs (by cases S <;> simp)
  have hid : v .machineId = w .machineId := read_eq h hxs (by simp)
  rw [exportState, horder, hleft, hid, exportState]

/-- Files that set the channels alike make no difference to a boot. -/
theorem boot_eq_of_alike (h : Alike u b c c') (i : Inputs) (v : Vars) (s : Saved) :
    boot u b i c v s = boot u b i c' v s := by
  have hsub : b.channels ⊆ .bootargs :: b.channels := List.subset_cons_self _ _
  have hl := sameLoop_afterLoop h i s v
  have hargs : (afterLoop u b i c s v).vars .bootargs = (afterLoop u b i c' s v).vars .bootargs :=
    hl.vars _ List.mem_cons_self
  have hown := afterLoop_storebootstate (b := b) h.left.stores i s v
  have hown' := afterLoop_storebootstate (b := b) h.right.stores i s v
  have hthree := (hl.vars.set (.left .A) "3".toList).set (.left .B) "3".toList
  simp only [boot, hargs]
  split
  · rw [runStore_own hown, runStore_own hown', exportState_eq hl.vars hsub, hl.kernel]
  · rw [runStore_own (by simpa using hown), runStore_own (by simpa using hown'), exportState_eq hthree hsub]

/-- Without a setting of its own, a slot's attempts are only counted down, or reset
where no slot is found. -/
theorem boot_left (hleft : lastSet (settings u c) (.left S) = none) (hc : Plain u c) (i : Inputs)
    (v : Vars) (s : Saved) :
    (∃ k : ℕ, (boot u b i c v s).saved.left S = u.setexpr^[k] (s.attempts v S)) ∨
      (boot u b i c v s).bootargs = [] ∧ (boot u b i c v s).saved.left S = "3".toList := by
  have hown := afterLoop_storebootstate (b := b) hc.stores i s v
  simp only [boot]
  split
  · left
    rw [runStore_own hown]
    obtain ⟨k, hk⟩ := slotLoop_left (u := u) (b := b) (i := i)
      (loadFiles u b i (assign (beforeImport b i s v) (settings u c))) S
    refine ⟨k, hk.trans ?_⟩
    rw [loadFiles_of_ne (by simp), assign_apply, hleft, Option.getD_none, beforeImport_left]
  · right
    refine ⟨rfl, ?_⟩
    rw [runStore_own (by simpa using hown), exportState]
    cases S with
    | A => simp
    | B => simp

end

end HassOS.UBoot.UserConfig
