import HassOS.Tryboot.Firmware

/-!
# The tryboot scheme in terms of slots

What the backend is for, without the texts: each configuration file names a
slot, `set-primary` prepares a tryboot of a slot, and `set-state good`
commits the tried one (`Ab`, `Ab.step`). From the factory files the backend
only ever writes texts that name a slot (`configFor`, `cmdlineFor`,
`trybootFor` and what the script's edits make of them), so the machine
refines this model, operation by operation (`Rep`, `script_sim`), and
therefore at every power loss (`step_rep`) and over every run (`after_rep`).
-/

namespace HassOS.Tryboot

open Framework

/-! ## The texts that name a slot -/

/-- `config.txt` for slot `S`. -/
def configFor (S : Slot) : Text := factoryConfig.map (sedOsPrefix S.name)

/-- `tryboot.txt` for slot `S`. -/
def trybootFor (S : Slot) : Text :=
  (configFor S).map (sedCmdline "/cmdline-tryboot.txt".toList)

/-- The command line for slot `S`. -/
def cmdlineFor (S : Slot) : Line :=
  setValue "rauc.slot".toList S.name (setValue "root".toList (rootSlot S) factoryCmdline)

/-- `os_prefix=` of slot `S`. -/
def prefixFor (S : Slot) : Line := "slot-".toList ++ S.name ++ ['/']

/-- What the edits make of `config.txt` and `tryboot.txt` of a slot, and what
the firmware reads there. -/
theorem config_texts : configFor .A = factoryConfig ∧ (∀ S T : Slot,
      ((configFor T).map fun l =>
        sedCmdline "/cmdline-tryboot.txt".toList (sedOsPrefix S.name l)) = trybootFor S) ∧
    ∀ S : Slot, (trybootFor S).map (sedCmdline "/cmdline.txt".toList) = configFor S ∧
      (configValue "os_prefix".toList (configFor S) = prefixFor S ∧
        pathOf (configValue "cmdline".toList (configFor S)) = cmdlineTxt) ∧
      configValue "os_prefix".toList (trybootFor S) = prefixFor S ∧
        pathOf (configValue "cmdline".toList (trybootFor S)) = cmdlineTrybootTxt := by
  simp only [trybootFor, configFor]
  rw [factoryConfigChars.2]
  decide +kernel

/-- What `set_value` and `get_value` make of the command line of a slot. -/
theorem cmdline_texts : cmdlineFor .A = factoryCmdline ∧ ∀ S : Slot,
    (∀ T : Slot, setValue "rauc.slot".toList S.name
      (setValue "root".toList (rootSlot S) (cmdlineFor T)) = cmdlineFor S) ∧
      getValue "rauc.slot".toList (cmdlineFor S) = [S.name] ∧
        getValue "root".toList (cmdlineFor S) = [rootSlot S] := by
  simp only [cmdlineFor]
  rw [factoryCmdlineChars.2]
  decide +kernel

theorem configFor_A : configFor .A = factoryConfig := config_texts.1

theorem cmdlineFor_A : cmdlineFor .A = factoryCmdline := cmdline_texts.1

theorem rootSlot?_name (S : Slot) : rootSlot? S.name = some (rootSlot S) := by
  cases S <;> rfl

/-- `set-primary` makes the command line of `S` of that of any slot. -/
theorem setValue_cmdlineFor (S T : Slot) :
    setValue "rauc.slot".toList S.name (setValue "root".toList (rootSlot S) (cmdlineFor T)) =
      cmdlineFor S := (cmdline_texts.2 S).1 T

/-- `set-primary` makes the tryboot configuration of `S` of that of any slot. -/
theorem sed_configFor (S T : Slot) :
    ((configFor T).map fun l =>
      sedCmdline "/cmdline-tryboot.txt".toList (sedOsPrefix S.name l)) = trybootFor S :=
  config_texts.2.1 S T

/-- The commit makes the configuration of `S` of its tryboot configuration. -/
theorem sed_trybootFor (S : Slot) :
    (trybootFor S).map (sedCmdline "/cmdline.txt".toList) = configFor S := (config_texts.2.2 S).1

theorem slot_cmdlineFor (S : Slot) :
    getValue "rauc.slot".toList (cmdlineFor S) = [S.name] := (cmdline_texts.2 S).2.1

theorem root_cmdlineFor (S : Slot) :
    getValue "root".toList (cmdlineFor S) = [rootSlot S] := (cmdline_texts.2 S).2.2

theorem configValue_configFor (S : Slot) :
    configValue "os_prefix".toList (configFor S) = prefixFor S ∧
      pathOf (configValue "cmdline".toList (configFor S)) = cmdlineTxt := (config_texts.2.2 S).2.1

theorem configValue_trybootFor (S : Slot) :
    configValue "os_prefix".toList (trybootFor S) = prefixFor S ∧
      pathOf (configValue "cmdline".toList (trybootFor S)) = cmdlineTrybootTxt :=
  (config_texts.2.2 S).2.2

theorem capture_slot (S : Slot) :
    capture (getValue "rauc.slot".toList (cmdlineFor S)) = S.name := by
  rw [slot_cmdlineFor]; revert S; decide

theorem capture_root (S : Slot) :
    capture (getValue "root".toList (cmdlineFor S)) = rootSlot S := by
  rw [root_cmdlineFor]; revert S; decide

/-! ## The model -/

/-- The slots that the machine's files and its running system name. -/
structure Ab where
  /-- `os_prefix=` in `config.txt`. -/
  config : Slot
  /-- `rauc.slot=` and `root=` in `cmdline.txt`. -/
  cmdline : Slot
  /-- The same in `cmdline-tryboot.txt`. -/
  trybootCmdline : Option Slot
  /-- `os_prefix=` in `tryboot.txt`. -/
  trybootConfig : Option Slot
  /-- `reboot-param` asks for a tryboot. -/
  armed : Bool
  /-- The running system was started through tryboot. -/
  flag : Bool
  /-- The slots of the running kernel and of its command line. -/
  kernel : Option Slot
  bootargs : Option Slot
  /-- The slot's directory exists, and is marked good. -/
  dir : Slot → Bool
  good : Slot → Bool

namespace Ab

def factory : Ab :=
  ⟨.A, .A, none, none, false, false, some .A, some .A, fun S => S = .A, fun _ => false⟩

def markGood (S : Slot) (a : Ab) : Ab :=
  { a with good := Function.update a.good S (a.good S || a.dir S) }

/-- What a call does, one update for each operation of the script. -/
def script : Call → Script Ab Exit
  | .getPrimary => .look fun a => .ret ⟨0, [a.cmdline.name]⟩
  | .setPrimary S => .look fun a =>
    if a.cmdline = S then .ret ⟨0, []⟩
    else
      .act (fun a => { a with trybootCmdline := some S }) <|
      .act (fun a => { a with trybootConfig := some S }) <|
      .act (fun a => { a with armed := true }) <|
      .ret ⟨0, []⟩
  | .getState S => .look fun a =>
    .ret ⟨0, [if a.good S then "good".toList else "bad".toList]⟩
  | .setState S false =>
    .act (fun a => { a with good := Function.update a.good S false }) <| .ret ⟨0, []⟩
  | .setState S true => .look fun a =>
    if a.flag then
      match a.trybootCmdline, a.trybootConfig with
      | none, _ => .ret ⟨if a.good S then 0 else 1, []⟩
      | some _, none => .ret ⟨1, []⟩
      | some C, some K =>
        if C ≠ S then .ret ⟨1, []⟩
        else
          .act (fun a => { a with config := K }) <|
          .act (fun a => { a with cmdline := C, trybootCmdline := none }) <|
          .act (fun a => { a with trybootConfig := none }) <|
          .act (fun a => { a with armed := false }) <|
          .act (markGood S) <|
          .ret ⟨0, []⟩
    else .act (markGood S) <| .ret ⟨0, []⟩

def start (a : Ab) (flag : Bool) : Ab :=
  if flag then
    { a with armed := false, flag := true, kernel := a.trybootConfig,
             bootargs := a.trybootConfig.bind fun _ => a.trybootCmdline }
  else
    { a with armed := false, flag := false, kernel := some a.config,
             bootargs := some a.cmdline }

def step (a : Ab) : Event → Ab
  | .call c => ((script c).run a).1
  | .reboot => a.start a.armed
  | .lossDuring c k => ((script c).cut k a).start false

/-- The state after `es` from the factory. -/
def after (es : List Event) : Ab := run step factory es

end Ab

/-! ## Refinement -/

/-- The paths of the boot partition that the backend uses. -/
inductive Loc where
  | config
  | cmdline
  | trybootCmdline
  | trybootConfig
  | dir (S : Slot)
  | good (S : Slot)
  deriving DecidableEq

def Loc.path : Loc → List Line
  | .config => configTxt
  | .cmdline => cmdlineTxt
  | .trybootCmdline => cmdlineTrybootTxt
  | .trybootConfig => trybootTxt
  | .dir S => slotDir S.name
  | .good S => goodFile S.name

theorem Loc.forall_iff {p : Loc → Prop} : (∀ l, p l) ↔
    (p .config ∧ p .cmdline ∧ p .trybootCmdline ∧ p .trybootConfig) ∧
      (∀ S, p (.dir S)) ∧ ∀ S, p (.good S) := by
  constructor
  · exact fun h => ⟨⟨h _, h _, h _, h _⟩, fun _ => h _, fun _ => h _⟩
  · rintro ⟨⟨h1, h2, h3, h4⟩, h5, h6⟩ l
    cases l with
    | config => exact h1
    | cmdline => exact h2
    | trybootCmdline => exact h3
    | trybootConfig => exact h4
    | dir S => exact h5 S
    | good S => exact h6 S

instance {p : Loc → Prop} [DecidablePred p] : Decidable (∀ l, p l) :=
  decidable_of_iff _ Loc.forall_iff.symm

theorem Loc.path_inj {l l' : Loc} : l.path = l'.path ↔ l = l' := by
  revert l l'; decide

/-- What the model says a path holds. -/
def Ab.node (a : Ab) : Loc → Option (Node Text)
  | .config => some (.file (configFor a.config))
  | .cmdline => some (.file [cmdlineFor a.cmdline])
  | .trybootCmdline => a.trybootCmdline.map fun S => .file [cmdlineFor S]
  | .trybootConfig => a.trybootConfig.map fun S => .file (trybootFor S)
  | .dir S => if a.dir S then some .dir else none
  | .good S => if a.good S then some (.file []) else none

/-- What the running system was started with. -/
def Ab.chosen (a : Ab) : Chosen :=
  ⟨a.flag, (a.kernel.map prefixFor).getD [], (a.bootargs.map cmdlineFor).getD []⟩

theorem Ab.chosen_start_false (a : Ab) :
    (a.start false).chosen = ⟨false, prefixFor a.config, cmdlineFor a.cmdline⟩ := by
  rw [start, if_neg Bool.false_ne_true, chosen, Option.map_some, Option.map_some,
    Option.getD_some, Option.getD_some]

theorem Ab.chosen_start_true (a : Ab) :
    (a.start true).chosen = ⟨true, (a.trybootConfig.map prefixFor).getD [],
      ((a.trybootConfig.bind fun _ => a.trybootCmdline).map cmdlineFor).getD []⟩ := by
  rw [start, if_pos rfl, chosen]

/-- The machine is in the state the model says. -/
structure Rep (s : Sys) (a : Ab) : Prop where
  boot : ∀ l : Loc, s.boot l.path = a.node l
  param : s.rebootParam = if a.armed then some "0 tryboot".toList else none
  chosen : s.chosen = a.chosen
  /-- Only an existing directory is marked good. -/
  good_dir : ∀ S, a.good S = true → a.dir S = true

/-- The paths of the model, updated at one. -/
theorem boot_update {fs fs' : BootFs} {n : Loc → Option (Node Text)} {l : Loc}
    {v : Option (Node Text)} (h : ∀ l : Loc, fs l.path = n l) (hl : fs' l.path = v)
    (hne : ∀ q, q ≠ l.path → fs' q = fs q) (l' : Loc) :
    fs' l'.path = Function.update n l v l' := by
  by_cases e : l' = l
  · subst e
    rw [Function.update_self, hl]
  · rw [Function.update_of_ne e, hne _ fun hp => e (Loc.path_inj.mp hp), h]

namespace Rep

variable {s : Sys} {a : Ab}

theorem read_config (h : Rep s a) : s.boot.read configTxt = some (configFor a.config) :=
  Fs.read_eq_some.mpr (h.boot .config)

theorem headLine_cmdline (h : Rep s a) : headLine s.boot cmdlineTxt = cmdlineFor a.cmdline := by
  have hr : s.boot.read cmdlineTxt = some [cmdlineFor a.cmdline] :=
    Fs.read_eq_some.mpr (h.boot .cmdline)
  rw [headLine, hr, Option.getD_some, List.headD_cons]

theorem headLine_tryboot (h : Rep s a) :
    headLine s.boot cmdlineTrybootTxt = (a.trybootCmdline.map cmdlineFor).getD [] := by
  have hb := h.boot .trybootCmdline
  simp only [Loc.path, Ab.node] at hb
  unfold headLine Fs.read
  rw [hb]
  cases a.trybootCmdline <;> rfl

theorem getPrimary_eq (h : Rep s a) : getPrimary s.boot = a.cmdline.name := by
  rw [getPrimary, h.headLine_cmdline, capture_slot]

theorem isFile_good (h : Rep s a) (S : Slot) : s.boot.isFile (goodFile S.name) = a.good S := by
  have hb := h.boot (.good S)
  simp only [Loc.path, Ab.node] at hb
  unfold Fs.isFile
  rw [hb]
  cases a.good S <;> rfl

theorem isDir_dir (h : Rep s a) (S : Slot) : s.boot.isDir (slotDir S.name) = a.dir S := by
  have hb := h.boot (.dir S)
  simp only [Loc.path, Ab.node] at hb
  unfold Fs.isDir
  rw [hb]
  cases a.dir S <;> rfl

/-- No file of the backend is a directory. -/
theorem isDir_file (h : Rep s a) {l : Loc} (hl : ∀ S, l ≠ .dir S) :
    s.boot.isDir l.path = false := by
  have hb := h.boot l
  unfold Fs.isDir
  rw [hb]
  cases l with
  | dir S => exact absurd rfl (hl S)
  | config => rfl
  | cmdline => rfl
  | trybootCmdline => simp only [Ab.node]; cases a.trybootCmdline <;> rfl
  | trybootConfig => simp only [Ab.node]; cases a.trybootConfig <;> rfl
  | good S =>
    simp only [Ab.node]
    split
    · rename_i h'; split at h' <;> cases h'
    · rfl

/-! ### Operations -/

/-- An operation on one path of the boot partition. -/
theorem update (h : Rep s a) {a' : Ab} {f : BootFs → BootFs} {l : Loc} {v : Option (Node Text)}
    (hl : f s.boot l.path = v) (hne : ∀ q, q ≠ l.path → f s.boot q = s.boot q)
    (hn : ∀ l', a'.node l' = Function.update a.node l v l') (hp : a'.armed = a.armed)
    (hc : a'.chosen = a.chosen) (hg : ∀ S, a'.good S = true → a'.dir S = true) :
    Rep (s.onBoot f) a' :=
  ⟨fun l' => by rw [hn, ← boot_update h.boot hl hne]; rfl, by rw [hp]; exact h.param,
    by rw [hc]; exact h.chosen, hg⟩

theorem writeCmdlineTryboot (h : Rep s a) (S : Slot) :
    Rep (s.writeCmdlineTryboot (cmdlineFor S)) { a with trybootCmdline := some S } := by
  refine h.update (l := .trybootCmdline) (Fs.write_self Fs.isDir_nil ?_) (fun q hq => Fs.write_ne hq) ?_ rfl
    rfl h.good_dir
  · exact h.isDir_file (l := .trybootCmdline) (by simp)
  · intro l'
    cases l' <;> rfl

theorem writeTryboot (h : Rep s a) (S : Slot) :
    Rep (s.writeTryboot S.name) { a with trybootConfig := some S } := by
  refine h.update (l := .trybootConfig) (v := some (.file (trybootFor S))) ?_
    (fun q hq => Fs.write_ne hq) ?_ rfl rfl h.good_dir
  · rw [h.read_config, Option.getD_some, sed_configFor]
    exact Fs.write_self Fs.isDir_nil (h.isDir_file (l := .trybootConfig) (by simp))
  · intro l'
    cases l' <;> rfl

theorem armTryboot (h : Rep s a) : Rep s.armTryboot { a with armed := true } :=
  ⟨h.boot, rfl, h.chosen, h.good_dir⟩

theorem disarm (h : Rep s a) : Rep s.disarm { a with armed := false } :=
  ⟨h.boot, rfl, h.chosen, h.good_dir⟩

theorem unmarkGood (h : Rep s a) (S : Slot) :
    Rep (s.unmarkGood S.name) { a with good := Function.update a.good S false } := by
  refine h.update (l := .good S) (v := none) ?_ (fun q hq => Fs.unlink_ne hq) ?_ rfl rfl ?_
  · have hb := h.boot (.good S)
    simp only [Loc.path, Ab.node] at hb ⊢
    cases hg : a.good S with
    | true => exact Fs.unlink_self (b := []) (by rw [hb, hg]; rfl)
    | false =>
      rw [hg] at hb
      simp [Fs.unlink, Fs.isFile, hb]
  · intro l'
    cases l' with
    | good T => by_cases e : T = S <;> simp [Ab.node, Function.update, e]
    | _ => rfl
  · intro T hT
    by_cases e : T = S
    · simp [Function.update, e] at hT
    · exact h.good_dir T (by simpa [Function.update, e] using hT)

theorem markGood (h : Rep s a) (S : Slot) : Rep (s.markGood S.name) (a.markGood S) := by
  have hb := h.boot (.good S)
  have hd := h.isDir_dir S
  simp only [Loc.path, Ab.node] at hb
  refine h.update (l := .good S) (v := if a.good S || a.dir S then some (.file []) else none) ?_
    (fun q hq => Fs.touch_ne hq) ?_ rfl rfl ?_
  · simp only [Loc.path, Fs.touch, h.isFile_good]
    cases hg : a.good S with
    | true => simpa [hg] using hb
    | false =>
      rw [hg] at hb
      cases hS : a.dir S with
      | true =>
        refine Fs.write_self ?_ (h.isDir_file (l := .good S) (by simp))
        rwa [hS] at hd
      | false =>
        have hdrop : (goodFile S.name).dropLast = slotDir S.name := List.dropLast_concat
        simpa [Fs.write, hdrop, hd, hS] using hb
  · intro l'
    cases l' with
    | good T => by_cases e : T = S <;> simp [Ab.node, Ab.markGood, Function.update, e]
    | _ => rfl
  · intro T hT
    by_cases e : T = S
    · subst e
      simp only [Ab.markGood, Function.update_self, Bool.or_eq_true] at hT
      exact hT.elim (h.good_dir T) id
    · exact h.good_dir T (by simpa [Ab.markGood, Function.update, e] using hT)

theorem commitConfig (h : Rep s a) {K : Slot} (hK : a.trybootConfig = some K) :
    Rep s.commitConfig { a with config := K } := by
  refine h.update (l := .config) (v := some (.file (configFor K))) ?_
    (fun q hq => Fs.write_ne hq) ?_ rfl rfl h.good_dir
  · have hb : s.boot trybootTxt = some (.file (trybootFor K)) := by
      have := h.boot .trybootConfig
      rwa [Ab.node, hK] at this
    rw [Fs.read_eq_some.mpr hb, Option.getD_some, sed_trybootFor]
    exact Fs.write_self Fs.isDir_nil (h.isDir_file (l := .config) (by simp))
  · intro l'
    cases l' <;> rfl

theorem commitCmdline (h : Rep s a) {C : Slot} (hC : a.trybootCmdline = some C) :
    Rep s.commitCmdline { a with cmdline := C, trybootCmdline := none } := by
  have hb : s.boot cmdlineTrybootTxt = some (.file [cmdlineFor C]) := by
    have := h.boot .trybootCmdline
    rwa [Ab.node, hC] at this
  have hr : s.boot.rename cmdlineTrybootTxt cmdlineTxt = _ :=
    Fs.rename_apply hb Fs.isDir_nil (h.isDir_file (l := .cmdline) (by simp))
  refine ⟨fun l => ?_, h.param, h.chosen, h.good_dir⟩
  show s.boot.rename cmdlineTrybootTxt cmdlineTxt l.path = _
  rw [hr]
  have h1 : ∀ l : Loc, Function.update s.boot cmdlineTrybootTxt none l.path = _ :=
    boot_update (l := .trybootCmdline) h.boot (Function.update_self ..)
      fun q hq => Function.update_of_ne hq _ _
  have h2 : ∀ l : Loc, Function.update (Function.update s.boot cmdlineTrybootTxt none) cmdlineTxt
      (some (.file [cmdlineFor C])) l.path = _ :=
    boot_update (l := .cmdline) h1 (Function.update_self ..)
      fun q hq => Function.update_of_ne hq _ _
  rw [h2]
  cases l <;> rfl

theorem dropTryboot (h : Rep s a) (hK : a.trybootConfig.isSome = true) :
    Rep s.dropTryboot { a with trybootConfig := none } := by
  obtain ⟨K, hK⟩ := Option.isSome_iff_exists.mp hK
  refine h.update (l := .trybootConfig) (v := none) ?_ (fun q hq => Fs.unlink_ne hq) ?_ rfl rfl
    h.good_dir
  · have := h.boot .trybootConfig
    rw [Ab.node, hK] at this
    exact Fs.unlink_self this
  · intro l'
    cases l' <;> rfl

/-- A boot. -/
theorem start (h : Rep s a) (flag : Bool) : Rep (s.start flag) (a.start flag) := by
  cases flag with
  | false =>
    refine ⟨fun l => (h.boot l).trans (by cases l <;> rfl), rfl, ?_, h.good_dir⟩
    obtain ⟨hp, hl⟩ := configValue_configFor a.config
    show nextBoot s.boot false = _
    rw [nextBoot, if_neg Bool.false_ne_true, firmwareReads, h.read_config, Ab.chosen_start_false]
    show Chosen.mk _ _ _ = _
    rw [hp, hl, h.headLine_cmdline]
  | true =>
    refine ⟨fun l => (h.boot l).trans (by cases l <;> rfl), rfl, ?_, h.good_dir⟩
    show nextBoot s.boot true = _
    have hb := h.boot .trybootConfig
    simp only [Loc.path, Ab.node] at hb
    rw [nextBoot, if_pos rfl, firmwareReads, Ab.chosen_start_true]
    cases hK : a.trybootConfig with
    | none =>
      rw [hK] at hb
      rw [Fs.read, hb]
      rfl
    | some K =>
      rw [hK] at hb
      obtain ⟨hp, hl⟩ := configValue_trybootFor K
      rw [Fs.read_eq_some.mpr hb]
      show Chosen.mk _ _ _ = _
      rw [hp, hl, h.headLine_tryboot, Option.map_some, Option.getD_some, Option.bind_some]

end Rep

/-! ### Scripts and runs -/

theorem isFile_trybootCmdline {s : Sys} {a : Ab} (h : Rep s a) :
    s.boot.isFile cmdlineTrybootTxt = a.trybootCmdline.isSome := by
  have hb := h.boot .trybootCmdline
  simp only [Loc.path, Ab.node] at hb
  unfold Fs.isFile
  rw [hb]
  cases a.trybootCmdline <;> rfl

theorem isFile_trybootConfig {s : Sys} {a : Ab} (h : Rep s a) :
    s.boot.isFile trybootTxt = a.trybootConfig.isSome := by
  have hb := h.boot .trybootConfig
  simp only [Loc.path, Ab.node] at hb
  unfold Fs.isFile
  rw [hb]
  cases a.trybootConfig <;> rfl

/-- The tests before a commit, in terms of slots. -/
theorem commitCheck_eq {s : Sys} {a : Ab} (h : Rep s a) (S : Slot) :
    commitCheck S.name s.boot =
      match a.trybootCmdline, a.trybootConfig with
      | none, _ => some (if a.good S then 0 else 1)
      | some _, none => some 1
      | some C, some _ => if C ≠ S then some 1 else none := by
  unfold commitCheck
  rw [isFile_trybootCmdline h, isFile_trybootConfig h, h.isFile_good, h.headLine_tryboot]
  cases a.trybootCmdline with
  | none => cases a.good S <;> rfl
  | some C =>
    cases a.trybootConfig with
    | none => rfl
    | some K =>
      rw [Option.map_some, Option.getD_some, capture_slot]
      simp only [Option.isSome_some, Bool.not_true, Bool.false_eq_true, ↓reduceIte, ne_eq,
        Slot.name_inj]

/-- Each call of the backend takes the operations of the model, in lockstep. -/
theorem script_sim {s : Sys} {a : Ab} (h : Rep s a) (c : Call) :
    Script.Sim Rep c.script (Ab.script c) s a := by
  cases c with
  | getPrimary =>
    refine .lookL (.lookR ?_)
    rw [h.headLine_cmdline, slot_cmdlineFor]
    exact .ret _ h
  | setPrimary S =>
    refine .lookL (.lookR ?_)
    simp only [h.getPrimary_eq, Slot.name_inj, rootSlot?_name, h.headLine_cmdline,
      setValue_cmdlineFor]
    split
    · exact .ret _ h
    · have h1 := h.writeCmdlineTryboot S
      have h2 := h1.writeTryboot S
      exact .act h (.act h1 (.act h2 (.ret _ h2.armTryboot)))
  | getState S =>
    refine .lookL (.lookR ?_)
    rw [h.isFile_good]
    cases a.good S <;> exact .ret _ h
  | setState S good =>
    cases good with
    | false => exact .act h (.ret _ (h.unmarkGood S))
    | true =>
      refine .lookL (.lookR ?_)
      have hf : s.chosen.tryboot = a.flag := by rw [h.chosen]; rfl
      rw [hf]
      cases a.flag with
      | false => exact .act h (.ret _ (h.markGood S))
      | true =>
        simp only [↓reduceIte, commitCheck_eq h]
        cases hC : a.trybootCmdline with
        | none => exact .ret _ h
        | some C =>
          cases hK : a.trybootConfig with
          | none => exact .ret _ h
          | some K =>
            simp only [ne_eq, ite_not]
            by_cases e : C = S
            · rw [if_pos e, if_pos e]
              have h1 := h.commitConfig hK
              have h2 := h1.commitCmdline hC
              have h3 := h2.dropTryboot (by rw [hK]; rfl)
              have h4 := h3.disarm
              exact .act h (.act h1 (.act h2 (.act h3 (.act h4 (.ret _ (h4.markGood S))))))
            · rw [if_neg e, if_neg e]
              exact .ret _ h

/-- The machine follows the model at every event, power losses included. -/
theorem step_rep {s : Sys} {a : Ab} (h : Rep s a) (e : Event) : Rep (s.step e) (a.step e) := by
  cases e with
  | call c => exact (script_sim h c).run.1
  | reboot =>
    have hb : s.trybootNext = a.armed := by
      rw [Sys.trybootNext, h.param]
      cases a.armed <;> rfl
    show Rep (s.start s.trybootNext) (a.start a.armed)
    rw [hb]
    exact h.start _
  | lossDuring c k => exact ((script_sim h c).cut k).start false

theorem factory_rep : Rep factory Ab.factory := by
  have h : Rep ⟨factoryBoot, none, ⟨false, [], []⟩⟩
      { Ab.factory with kernel := none, bootargs := none } := by
    refine ⟨Loc.forall_iff.mpr ⟨⟨?_, ?_, rfl, rfl⟩, ?_, ?_⟩, rfl, rfl, by decide⟩
    · show some (Node.file factoryConfig) = some (.file (configFor .A))
      rw [configFor_A]
    · show some (Node.file [factoryCmdline]) = some (.file [cmdlineFor .A])
      rw [cmdlineFor_A]
    · exact Slot.forall_iff.mpr ⟨rfl, rfl⟩
    · exact Slot.forall_iff.mpr ⟨rfl, rfl⟩
  exact h.start false

/-- Every run of the machine from the factory is one of the model. -/
theorem after_rep (es : List Event) : Rep (Sys.after es) (Ab.after es) :=
  run_sim (R := Rep) (fun _ _ e h => step_rep h e) factory_rep es

end HassOS.Tryboot
