import HassOS.Tryboot.Invariant

/-!
# `config.txt` across a slot switch

`set-primary` makes `tryboot.txt` of `config.txt` line by line, and the commit
makes `config.txt` of `tryboot.txt` line by line (`trybootLine`,
`committedLine`), so what becomes of a user's `config.txt` is settled for each
line on its own (`lineSwitched_iff`). `config_switch_iff` is the result for a
whole switch: the file survives it unless its `os_prefix=` line ends in a
carriage return, or another line is one that the two edits rewrite.
-/

namespace HassOS.Tryboot

open Framework

/-- A line without the carriage return of a CRLF. -/
def dropCR (l : Line) : Line := if l.getLast? = some '\r' then l.dropLast else l

/-- `os_prefix=slot-S/` -/
def osPrefixLine (S : Slot) : Line := "os_prefix=".toList ++ prefixFor S

/-- `cmdline=$file` -/
def cmdlineLine (file : Line) : Line := "cmdline=".toList ++ file

/-- What `set-primary` makes of a line of `config.txt`. -/
def trybootLine (S : Slot) (l : Line) : Line :=
  sedCmdline "/cmdline-tryboot.txt".toList (sedOsPrefix S.name l)

/-- What has become of it after the commit. -/
def committedLine (S : Slot) (l : Line) : Line :=
  sedCmdline "/cmdline.txt".toList (trybootLine S l)

/-- The line `l` of `config.txt` is `t` in `tryboot.txt` and `c` after the
commit: the lines `os_prefix=slot-X/` and `cmdline=/cmdline.txt` are switched,
and every other line is what it was. -/
def LineSwitched (S : Slot) (l t c : Line) : Prop :=
  if dropCR l = osPrefixLine S.other then
    dropCR t = osPrefixLine S ∧ dropCR c = osPrefixLine S
  else if dropCR l = cmdlineLine "/cmdline.txt".toList then
    dropCR t = cmdlineLine "/cmdline-tryboot.txt".toList ∧
      dropCR c = cmdlineLine "/cmdline.txt".toList
  else c = l

/-- The same for every line, at its position. -/
structure Switched (S : Slot) (config tryboot config' : Text) : Prop where
  length_tryboot : tryboot.length = config.length
  length_config : config'.length = config.length
  line : ∀ (k : Nat) (l t c : Line), config[k]? = some l → tryboot[k]? = some t →
    config'[k]? = some c → LineSwitched S l t c

/-- `os_prefix=slot-[A-Z]/` -/
def IsOsPrefix (l : Line) : Prop :=
  ∃ c, ('A' ≤ c ∧ c ≤ 'Z') ∧ l = "os_prefix=slot-".toList ++ [c, '/']

/-- The line is not an `os_prefix=` line that ends in a carriage return, and if
the edits rewrite it, it is one of the two lines they are for. -/
def Survives (S : Slot) (l : Line) : Prop :=
  l ≠ osPrefixLine S.other ++ ['\r'] ∧
    ("cmdline=".toList <+: l → dropCR l = cmdlineLine "/cmdline.txt".toList) ∧
    (IsOsPrefix l → l = osPrefixLine S ∨ l = osPrefixLine S.other)

instance (l : Line) : Decidable (IsOsPrefix l) :=
  decidable_of_iff (∃ c ∈ l, ('A' ≤ c ∧ c ≤ 'Z') ∧ l = "os_prefix=slot-".toList ++ [c, '/'])
    ⟨fun ⟨c, _, h⟩ => ⟨c, h⟩, fun ⟨c, hc, h⟩ => ⟨c, by rw [h]; simp, hc, h⟩⟩

instance (S : Slot) (l : Line) : Decidable (Survives S l) :=
  inferInstanceAs (Decidable (_ ∧ (_ → _) ∧ (_ → _)))

/-! ## Lines -/

section

variable {S : Slot} {l x slot file : Line}

theorem dropCR_append (x : Line) : dropCR (x ++ ['\r']) = x := by
  rw [dropCR, List.getLast?_concat, if_pos rfl, List.dropLast_concat]

theorem eq_of_dropCR (h : dropCR l = x) : l = x ∨ l = x ++ ['\r'] := by
  unfold dropCR at h
  split at h
  · rename_i hl
    rcases List.eq_nil_or_concat l with rfl | ⟨m, c, rfl⟩
    · cases hl
    · rw [List.concat_eq_append, List.getLast?_concat, Option.some.injEq] at hl
      rw [List.concat_eq_append, List.dropLast_concat] at h
      exact .inr (by rw [List.concat_eq_append, h, hl])
  · exact .inl h

theorem dropCR_osPrefixLine (S : Slot) : dropCR (osPrefixLine S) = osPrefixLine S := by
  revert S; decide

theorem osPrefixLine_inj {S T : Slot} : osPrefixLine S = osPrefixLine T ↔ S = T := by
  revert S T; decide

/-- The edit of an `os_prefix=` line. -/
theorem sedOsPrefix_of_isOsPrefix (h : IsOsPrefix l) (slot : Line) :
    sedOsPrefix slot l = "os_prefix=slot-".toList ++ slot ++ ['/'] := by
  obtain ⟨c, hc, rfl⟩ := h
  rw [sedOsPrefix, (Pat.rest_ofRegex (by decide)).mpr rfl]
  exact if_pos hc

theorem sedOsPrefix_of_not (h : ¬ IsOsPrefix l) (slot : Line) : sedOsPrefix slot l = l := by
  unfold sedOsPrefix
  split
  · rename_i c hr
    have hl := (Pat.rest_ofRegex (by decide)).mp hr
    exact if_neg fun hc => h ⟨c, hc, hl⟩
  · rfl

/-- The edit of a `cmdline=` line. -/
theorem sedCmdline_of_prefix (h : "cmdline=".toList <+: l) (file : Line) :
    sedCmdline file l = cmdlineLine file := by
  obtain ⟨r, rfl⟩ := h
  rw [sedCmdline, (Pat.rest_ofRegex (by decide)).mpr rfl]
  rfl

theorem sedCmdline_of_not (h : ¬ "cmdline=".toList <+: l) (file : Line) : sedCmdline file l = l := by
  unfold sedCmdline
  split
  · rename_i r hr
    exact absurd ⟨r, ((Pat.rest_ofRegex (by decide)).mp hr).symm⟩ h
  · rfl

theorem prefix_cmdlineLine (file : Line) : "cmdline=".toList <+: cmdlineLine file :=
  List.prefix_append _ _

theorem not_prefix_osPrefixLine (S : Slot) : ¬ "cmdline=".toList <+: osPrefixLine S := by
  revert S; decide

theorem isOsPrefix_osPrefixLine (S : Slot) : IsOsPrefix (osPrefixLine S) := by
  cases S
  · exact ⟨'A', by decide, by decide⟩
  · exact ⟨'B', by decide, by decide⟩

/-- The two edits are for different lines. -/
theorem not_prefix_of_isOsPrefix (h : IsOsPrefix l) : ¬ "cmdline=".toList <+: l := by
  obtain ⟨c, -, rfl⟩ := h
  rintro ⟨r, hr⟩
  exact absurd (List.head_eq_of_cons_eq hr) (by decide)

theorem isOsPrefix_dropCR (h : IsOsPrefix l) : dropCR l = l := by
  obtain ⟨c, -, rfl⟩ := h
  rfl

/-- The line of slot `T`, where slot `S` is switched to. -/
theorem lineSwitched_osPrefix (h : IsOsPrefix l) :
    LineSwitched S l (trybootLine S l) (committedLine S l) ↔ Survives S l := by
  have ht : trybootLine S l = osPrefixLine S := by
    rw [trybootLine, sedOsPrefix_of_isOsPrefix h]
    exact sedCmdline_of_not (not_prefix_osPrefixLine S) _
  have hc : committedLine S l = osPrefixLine S := by
    rw [committedLine, ht]
    exact sedCmdline_of_not (not_prefix_osPrefixLine S) _
  have hcmd : dropCR l ≠ cmdlineLine "/cmdline.txt".toList := fun e =>
    not_prefix_of_isOsPrefix h (by rw [← isOsPrefix_dropCR h, e]; exact prefix_cmdlineLine _)
  have hcr : l ≠ osPrefixLine S.other ++ ['\r'] := fun e => by
    have hd := isOsPrefix_dropCR h
    rw [e, dropCR_append] at hd
    exact absurd (congrArg List.length hd) (by simp)
  have hs : Survives S l ↔ l = osPrefixLine S ∨ l = osPrefixLine S.other :=
    ⟨fun hs => hs.2.2 h, fun hT => ⟨hcr, fun hp => absurd hp (not_prefix_of_isOsPrefix h), fun _ => hT⟩⟩
  rw [hs, LineSwitched, ht, hc, if_neg hcmd, isOsPrefix_dropCR h, dropCR_osPrefixLine]
  split
  · rename_i ho
    exact iff_of_true ⟨rfl, rfl⟩ (.inr ho)
  · rename_i ho
    rw [or_iff_left ho]
    exact eq_comm

/-- A line that sets `cmdline`. -/
theorem lineSwitched_cmdline (h : "cmdline=".toList <+: l) :
    LineSwitched S l (trybootLine S l) (committedLine S l) ↔ Survives S l := by
  have hl : ¬ IsOsPrefix l := fun ho => not_prefix_of_isOsPrefix ho h
  have ht : trybootLine S l = cmdlineLine "/cmdline-tryboot.txt".toList := by
    rw [trybootLine, sedOsPrefix_of_not hl, sedCmdline_of_prefix h]
  have hc : committedLine S l = cmdlineLine "/cmdline.txt".toList := by
    rw [committedLine, ht, sedCmdline_of_prefix (prefix_cmdlineLine _)]
  have hnot : ∀ x, "cmdline=".toList <+: l → l = osPrefixLine S.other ++ x → False := by
    rintro x ⟨r, hr⟩ e
    rw [e] at hr
    exact absurd (List.head_eq_of_cons_eq hr) (by decide)
  have hos : dropCR l ≠ osPrefixLine S.other := fun e =>
    (eq_of_dropCR e).elim (fun e => hnot [] h (by rw [e, List.append_nil])) (hnot _ h)
  have hs : Survives S l ↔ dropCR l = cmdlineLine "/cmdline.txt".toList :=
    ⟨fun hs => hs.2.1 h, fun hd => ⟨hnot _ h, fun _ => hd, fun ho => absurd ho hl⟩⟩
  rw [hs, LineSwitched, ht, hc, if_neg hos]
  split
  · rename_i hd
    exact iff_of_true ⟨by decide, by decide⟩ hd
  · rename_i hd
    refine iff_of_false (fun e => hd ?_) hd
    rw [← e]
    decide

/-- A line that neither edit is for. -/
theorem lineSwitched_other (ho : ¬ IsOsPrefix l) (h : ¬ "cmdline=".toList <+: l) :
    LineSwitched S l (trybootLine S l) (committedLine S l) ↔ Survives S l := by
  have ht : trybootLine S l = l := by
    rw [trybootLine, sedOsPrefix_of_not ho, sedCmdline_of_not h]
  have hc : committedLine S l = l := by
    rw [committedLine, ht, sedCmdline_of_not h]
  have hcmd : dropCR l ≠ cmdlineLine "/cmdline.txt".toList := by
    intro e
    rcases eq_of_dropCR e with rfl | rfl
    · exact h (prefix_cmdlineLine _)
    · exact h ((prefix_cmdlineLine _).trans (List.prefix_append _ _))
  have hs : Survives S l ↔ l ≠ osPrefixLine S.other ++ ['\r'] :=
    ⟨fun hs => hs.1, fun hne => ⟨hne, fun hp => absurd hp h, fun hp => absurd hp ho⟩⟩
  rw [hs, LineSwitched, ht, hc, if_neg hcmd]
  split
  · -- Only a carriage return hides the line from the edit.
    rename_i hd
    refine iff_of_false (fun e => S.other_ne (osPrefixLine_inj.mp (hd.symm.trans e.1))) ?_
    rintro hne
    rcases eq_of_dropCR hd with rfl | e
    · exact ho (isOsPrefix_osPrefixLine _)
    · exact hne e
  · rename_i hd
    refine iff_of_true rfl fun e => hd ?_
    rw [e, dropCR_append]

/-- What becomes of a line. -/
theorem lineSwitched_iff (S : Slot) (l : Line) :
    LineSwitched S l (trybootLine S l) (committedLine S l) ↔ Survives S l := by
  by_cases ho : IsOsPrefix l
  · exact lineSwitched_osPrefix ho
  · by_cases h : "cmdline=".toList <+: l
    · exact lineSwitched_cmdline h
    · exact lineSwitched_other ho h

end

/-- What becomes of a file. -/
theorem switched_iff (S : Slot) (config : Text) :
    Switched S config (config.map (trybootLine S)) (config.map (committedLine S)) ↔
      ∀ l ∈ config, Survives S l := by
  constructor
  · intro h l hl
    obtain ⟨k, hk⟩ := List.mem_iff_getElem?.mp hl
    refine (lineSwitched_iff S l).mp (h.line k l _ _ hk ?_ ?_) <;> rw [List.getElem?_map, hk] <;> rfl
  · intro h
    refine ⟨List.length_map _, List.length_map _, fun k l t c hl ht hc => ?_⟩
    rw [List.getElem?_map, hl, Option.map_some, Option.some.injEq] at ht hc
    rw [← ht, ← hc]
    exact (lineSwitched_iff S l).mpr (h l (List.mem_of_getElem? hl))

/-! ## A switch -/

section

variable {s : Sys} {S : Slot} {text : Text}

/-- Past its early exit, `set-primary` writes `tryboot.txt`. -/
theorem setPrimary_trybootTxt (hp : getPrimary s.boot ≠ S.name)
    (hc : s.boot.read configTxt = some text) (hd : s.boot.isDir trybootTxt = false) :
    (s.step (.call (.setPrimary S))).boot.read trybootTxt = some (text.map (trybootLine S)) := by
  show (((setPrimary S.name).run s).1).boot.read trybootTxt = _
  simp only [setPrimary, rootSlot?_name, Script.run_look]
  rw [if_neg hp]
  show ((Sys.writeCmdlineTryboot _ s).writeTryboot S.name).boot.read trybootTxt = _
  have hne : ∀ l, ∀ p ∈ [configTxt, trybootTxt], (s.writeCmdlineTryboot l).boot p = s.boot p := by
    intro l p hp
    refine Fs.write_ne ?_
    revert p
    decide
  have hr : ∀ l, (s.writeCmdlineTryboot l).boot.read configTxt = some text := fun l => by
    rw [Fs.read, hne l _ (by simp)]
    exact hc
  have hd' : ∀ l, (s.writeCmdlineTryboot l).boot.isDir trybootTxt = false := fun l => by
    rw [Fs.isDir, hne l _ (by simp)]
    exact hd
  rw [Fs.read_eq_some, Sys.writeTryboot, Sys.onBoot, hr, Option.getD_some]
  exact Fs.write_self Fs.isDir_nil (hd' _)

/-- A commit writes `config.txt`. -/
theorem commit_configTxt (hc : s.commits S) (ht : s.boot.read trybootTxt = some text)
    (hd : s.boot.isDir configTxt = false) :
    (s.step (.call (.setState S true))).boot.read configTxt =
      some (text.map (sedCmdline "/cmdline.txt".toList)) := by
  have hg : configTxt ≠ goodFile S.name := by
    clear hc
    revert S
    decide
  show (((setState S.name "good".toList).run s).1).boot.read configTxt = _
  simp only [setState, ne_eq, not_true_eq_false, ↓reduceIte, Script.run_look]
  rw [if_pos hc.1, hc.2]
  show (((s.commitConfig.commitCmdline.dropTryboot).disarm).markGood S.name).boot.read configTxt = _
  have hw : s.commitConfig.boot configTxt =
      some (.file (text.map (sedCmdline "/cmdline.txt".toList))) := by
    rw [Sys.commitConfig, Sys.onBoot, ht, Option.getD_some]
    exact Fs.write_self Fs.isDir_nil hd
  rw [Fs.read_eq_some, ← hw]
  exact (Fs.touch_ne hg).trans ((Fs.unlink_ne (by decide)).trans
    (Fs.rename_ne (by decide) (by decide)))

/-- So what the commit that follows writes is the switched `config.txt`. -/
theorem commit_switched {t : Sys} (hp : getPrimary s.boot ≠ S.name)
    (hc : s.boot.read configTxt = some text) (hd : s.boot.isDir trybootTxt = false)
    (ht : t.boot trybootTxt = (s.step (.call (.setPrimary S))).boot trybootTxt)
    (hcommit : t.commits S) (hdt : t.boot.isDir configTxt = false) :
    (t.step (.call (.setState S true))).boot.read configTxt = some (text.map (committedLine S)) := by
  have hr : t.boot.read trybootTxt = some (text.map (trybootLine S)) := by
    rw [Fs.read, ht]
    exact setPrimary_trybootTxt hp hc hd
  rw [commit_configTxt hcommit hr hdt, List.map_map]
  rfl

end

/-- `set-primary` of the slot that `cmdline.txt` does not name, and the commit
that follows while `tryboot.txt` is the same, switch the two lines of
`config.txt` and leave every other line where and as it was exactly if every
line survives the edits. -/
theorem config_switch_iff {s t : Sys} {S : Slot} {config : Text}
    (hp : getPrimary s.boot ≠ S.name) (hc : s.boot.read configTxt = some config)
    (hd : s.boot.isDir trybootTxt = false)
    (ht : t.boot trybootTxt = (s.step (.call (.setPrimary S))).boot trybootTxt)
    (hcommit : t.commits S) (hdt : t.boot.isDir configTxt = false) :
    ∃ tryboot config', (s.step (.call (.setPrimary S))).boot.read trybootTxt = some tryboot ∧
      (t.step (.call (.setState S true))).boot.read configTxt = some config' ∧
        (Switched S config tryboot config' ↔ ∀ l ∈ config, Survives S l) :=
  ⟨_, _, setPrimary_trybootTxt hp hc hd, commit_switched hp hc hd ht hcommit hdt,
    switched_iff S config⟩

theorem reboot_boot (s : Sys) : (s.step .reboot).boot = s.boot := rfl

/-- A machine that starts from slot A with this `config.txt`. -/
def withConfig (config : Text) : Sys :=
  Sys.start ⟨factoryBoot.write configTxt config, none, ⟨false, [], []⟩⟩ false

theorem withConfig_factory : withConfig factoryConfig = factory := by
  have hb : factoryBoot.write configTxt factoryConfig = factoryBoot := Function.update_eq_self _ _
  rw [withConfig, hb, factory]

/-- The board's own `config.txt` survives. -/
theorem config_switch_factory :
    let s := withConfig factoryConfig
    let t := (s.step (.call (.setPrimary .B))).step .reboot
    ∃ tryboot config', (s.step (.call (.setPrimary .B))).boot.read trybootTxt = some tryboot ∧
      (t.step (.call (.setState .B true))).boot.read configTxt = some config' ∧
        Switched .B factoryConfig tryboot config' := by
  intro s t
  have hs : Rep s Ab.factory := by
    rw [show s = factory from withConfig_factory]
    exact factory_rep
  have ht : Rep t ((Ab.factory.step (.call (.setPrimary .B))).step .reboot) :=
    step_rep (step_rep hs _) _
  have hp : getPrimary s.boot ≠ Slot.B.name := by
    rw [hs.getPrimary_eq]
    decide
  have hc : s.boot.read configTxt = some factoryConfig := by
    rw [hs.read_config, ← configFor_A]
    rfl
  have hcommit : t.commits .B := by
    refine ⟨?_, ?_⟩
    · rw [ht.chosen]
      rfl
    · rw [commitCheck_eq ht]
      rfl
  have hsurvives : ∀ l ∈ factoryConfig, Survives .B l := by
    rw [factoryConfigChars.2]
    decide +kernel
  obtain ⟨tryboot, config', h1, h2, h3⟩ := config_switch_iff hp hc
    (hs.isDir_file (l := .trybootConfig) (by simp)) (congrFun (reboot_boot _) _) hcommit
    (ht.isDir_file (l := .config) (by simp))
  exact ⟨tryboot, config', h1, h2, h3.mpr hsurvives⟩

/-- `set-primary B`, the reboot and the commit do not switch this `config.txt`. -/
def FailsToSwitch (config : Text) : Prop :=
  let s := withConfig config
  let t := (s.step (.call (.setPrimary .B))).step .reboot
  t.commits .B ∧ ∃ tryboot config',
    (s.step (.call (.setPrimary .B))).boot.read trybootTxt = some tryboot ∧
      (t.step (.call (.setState .B true))).boot.read configTxt = some config' ∧
        ¬ Switched .B config tryboot config'

/-- With Windows line ends, the kernel stays that of slot A while the kernel
command line is switched; and a setting of `cmdline` for one model is lost. -/
theorem config_not_switched :
    FailsToSwitch (["os_prefix=slot-A/\r", "cmdline=/cmdline.txt\r"].map String.toList) ∧
    FailsToSwitch (["os_prefix=slot-A/", "cmdline=/cmdline.txt", "[cm4]", "cmdline=/cm4.txt"].map
      String.toList) := by
  suffices h : ∀ config ∈ [["os_prefix=slot-A/\r", "cmdline=/cmdline.txt\r"].map String.toList,
      ["os_prefix=slot-A/", "cmdline=/cmdline.txt", "[cm4]", "cmdline=/cm4.txt"].map String.toList],
      FailsToSwitch config from ⟨h _ (by simp), h _ (by simp)⟩
  intro config hconfig
  unfold FailsToSwitch
  intro s t
  have key : getPrimary s.boot ≠ Slot.B.name ∧ s.boot.read configTxt = some config ∧
      s.boot.isDir trybootTxt = false ∧
      (t.chosen.tryboot = true ∧ commitCheck Slot.B.name t.boot = none) ∧
      t.boot.isDir configTxt = false := by
    simp only [s, t, withConfig, factoryBoot_eq factoryConfigChars.2 factoryCmdlineChars.2]
    clear s t
    revert config
    decide +kernel
  have hlost : ¬ ∀ l ∈ config, Survives .B l := by
    clear key s t
    revert config
    decide +kernel
  obtain ⟨hp, hc, hd, hcommit, hdt⟩ := key
  refine ⟨hcommit, _, _, setPrimary_trybootTxt hp hc hd,
    commit_switched hp hc hd (congrFun (reboot_boot _) _) hcommit hdt, ?_⟩
  rw [switched_iff]
  exact hlost

end HassOS.Tryboot
