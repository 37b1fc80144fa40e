import HassOS.Hook.InstallBoot
import Mathlib.Data.List.Nodup

/-!
# The import of settings (`hassos-config`)

The settings come from a USB stick labelled `CONFIG`, or else from the
directory `CONFIG` of the boot partition. The script runs without `errexit` and
looks at no exit status of a copy: whatever fails, it goes on. What a failing
`cp` or `cat` leaves is arbitrary where it writes; the other commands do not
fail. `chmod`, `nmcli` and `systemctl` are left out, and so is the firmware
update, which changes no setting.

From the boot partition the settings are removed at the end
(`rm -rf /mnt/boot/CONFIG`), whether or not they were imported. That loses
every file whose copy fails, and, with no failure at all, every file that the
copies pass over: those whose names start with a dot, and those in directories
(`import_lossless_iff`).
-/

namespace HassOS.Config

open Framework
open Hook (visible copyFile copyFile_ne OnlyAt)

variable {β : Type}

/-- Where the settings come from. -/
inductive Source where
  | usb
  | boot
  deriving DecidableEq

structure Machine (β : Type) where
  /-- The file system labelled `CONFIG`, mounted at `USB_CONFIG`. -/
  usb : Fs Line β
  /-- `/mnt/boot` -/
  boot : Fs Line β
  root : Fs Line β

def configName : Line := "CONFIG".toList

/-- The tree at `CONFIG_DIR`. -/
def Machine.config (m : Machine β) : Source → Fs Line β
  | .usb => m.usb
  | .boot => fun p => m.boot (configName :: p)

/-- The directories of settings. -/
inductive Category where
  | network
  | modules
  | modprobe
  | udev
  deriving DecidableEq

namespace Category

def all : List Category := [.network, .modules, .modprobe, .udev]

/-- Its directory below `CONFIG_DIR`. -/
def dir : Category → Line
  | .network => "network".toList
  | .modules => "modules".toList
  | .modprobe => "modprobe".toList
  | .udev => "udev".toList

/-- Where its files go. -/
def target : Category → List Line
  | .network => ["etc".toList, "NetworkManager".toList, "system-connections".toList]
  | .modules => ["etc".toList, "modules-load.d".toList]
  | .modprobe => ["etc".toList, "modprobe.d".toList]
  | .udev => ["etc".toList, "udev".toList, "rules.d".toList]

end Category

def keysName : Line := "authorized_keys".toList
def timesyncdName : Line := "timesyncd.conf".toList
def keysTarget : List Line := ["root".toList, ".ssh".toList, keysName]
def timesyncdTarget : List Line := ["etc".toList, "systemd".toList, timesyncdName]

/-- The commands that change files. -/
inductive Cmd where
  /-- `rm -rf target/*` -/
  | rmTarget (c : Category)
  /-- `cp -f dir/* target/` -/
  | cpDir (c : Category)
  | cpKeys
  | rmKeys
  | catTimesyncd
  /-- `rm -rf ${BOOT_CONFIG}` -/
  | rmConfig
  deriving DecidableEq

/-- Its tests of the machine. -/
structure Env where
  /-- `findfs LABEL="CONFIG"` -/
  found : Bool
  /-- `mnt-config.mount` becomes active. -/
  mounts : Bool

/-- `CONFIG_DIR`, unless the script exits before the import. -/
def configDir (e : Env) (m : Machine β) : Option Source :=
  if e.found then if e.mounts then some .usb else none
  else if m.boot.isDir [configName] then some .boot else none

/-- The sections of the import. -/
inductive Part where
  | dir (c : Category)
  | keys
  | timesyncd
  deriving DecidableEq

def Part.all : List Part := Category.all.map .dir ++ [.keys, .timesyncd]

def Part.commands (config : Fs Line β) : Part → List Cmd
  | .dir c => if config.isDir [c.dir] then [.rmTarget c, .cpDir c] else []
  | .keys => if config.isFile [keysName] then [.cpKeys] else [.rmKeys]
  | .timesyncd => if config.isFile [timesyncdName] then [.catTimesyncd] else []

/-- The import, and the cleanup after it. -/
def importFrom (S : Source) (config : Fs Line β) : List Cmd :=
  Part.all.flatMap (Part.commands config) ++ if S = .boot then [.rmConfig] else []

/-- The script. -/
def hassosConfig (e : Env) (m : Machine β) : List Cmd :=
  match configDir e m with
  | some S => importFrom S (m.config S)
  | none => []

/-- `rm -rf target/*` -/
def removeGlob (fs : Fs Line β) (target : List Line) : Fs Line β := fun p =>
  match p.drop target.length with
  | name :: _ => if target.isPrefixOf p && visible name then none else fs p
  | [] => fs p

/-- `cp -f src/dir/* target/`: regular files only, and not over a directory. -/
def copyGlob (src : Fs Line β) (dir : Line) (dst : Fs Line β) (target : List Line) : Fs Line β :=
  fun p =>
    match p.drop target.length with
    | [name] =>
      match src.read [dir, name] with
      | some b =>
        if target.isPrefixOf p && visible name && dst.isDir target && !dst.isDir p then some (.file b)
        else dst p
      | none => dst p
    | _ => dst p

/-- What a command does; the settings come from `S`. -/
def Cmd.exec (S : Source) : Cmd → Machine β → Machine β
  | .rmTarget c, m => { m with root := removeGlob m.root c.target }
  | .cpDir c, m => { m with root := copyGlob (m.config S) c.dir m.root c.target }
  | .cpKeys, m =>
    let dst := if m.root.isDir keysTarget then keysTarget ++ [keysName] else keysTarget
    { m with root := copyFile (m.config S) [keysName] m.root dst }
  | .rmKeys, m => { m with root := m.root.unlink keysTarget }
  | .catTimesyncd, m => { m with root := copyFile (m.config S) [timesyncdName] m.root timesyncdTarget }
  | .rmConfig, m => { m with boot := m.boot.removeTree [configName] }

/-- Where a copy writes. -/
def Cmd.writes (S : Source) (m : Machine β) : Cmd → List Line → Prop
  | .cpDir c, p => ∃ name, p = c.target ++ [name] ∧ visible name = true ∧
      (m.config S).isFile [c.dir, name] = true ∧ m.root.isDir c.target = true
  | .cpKeys, p => p = keysTarget ∨ p = keysTarget ++ [keysName]
  | .catTimesyncd, p => p = timesyncdTarget
  | _, _ => False

/-- The commands, none of which stops the script. -/
def Cmd.shell (S : Source) : Shell Cmd (Machine β) where
  exec c m := c.exec S m
  Succeeds _ _ := True
  Fails c m m' :=
    (c = .cpKeys ∨ c = .catTimesyncd ∨ ∃ d, c = .cpDir d) ∧
      OnlyAt (c.writes S m) m.root m'.root ∧ m'.usb = m.usb ∧ m'.boot = m.boot
  tolerated _ := true

/-- A file of the settings. -/
inductive Item where
  /-- `dir/name`, or below that. -/
  | file (c : Category) (name : Line) (rest : List Line)
  | authorizedKeys
  | timesyncd

namespace Item

/-- Its path below `CONFIG_DIR`. -/
def src : Item → List Line
  | .file c name rest => c.dir :: name :: rest
  | .authorizedKeys => [keysName]
  | .timesyncd => [timesyncdName]

def target : Item → List Line
  | .file c name rest => c.target ++ name :: rest
  | .authorizedKeys => keysTarget
  | .timesyncd => timesyncdTarget

/-- The settings have the file, and its directory. -/
def At (config : Fs Line β) (i : Item) (b : β) : Prop :=
  config i.src = some (.file b) ∧ ∀ c name rest, i = .file c name rest → config.isDir [c.dir] = true

/-- The command that is to copy it. -/
def copy : Item → Cmd
  | .file c _ _ => .cpDir c
  | .authorizedKeys => .cpKeys
  | .timesyncd => .catTimesyncd

/-- That command reaches it: it is no file that `*` does not match, and in no
directory. -/
def reached : Item → Bool
  | .file _ name rest => visible name && rest.isEmpty
  | _ => true

/-- What is at its target when the copy starts. -/
def old (root : Fs Line β) : Item → Option (Node β)
  | .file c name rest => if visible name then none else root (c.target ++ name :: rest)
  | .authorizedKeys => root keysTarget
  | .timesyncd => root timesyncdTarget

/-- The copy reaches the file and, if it fails, leaves it complete, and if it
does not, finds the directory for it and no directory in its place; or the file
was there before. -/
def Imported (m : Machine β) (fail : Cmd → Option (Machine β)) (i : Item) (b : β) : Prop :=
  match i.reached, fail i.copy with
  | true, some t => t.root i.target = some (.file b)
  | true, none =>
    m.root.isDir i.target.dropLast = true ∧ i.old m.root ≠ some .dir ∨ i.old m.root = some (.file b)
  | false, _ => i.old m.root = some (.file b)

end Item

/-- No setting is lost: each file is in its target or still in its source, and
`CONFIG` is removed from the boot partition only if all of it was imported. -/
structure Lossless (S : Source) (m m' : Machine β) : Prop where
  kept : ∀ i b, Item.At (m.config S) i b →
    m'.root i.target = some (.file b) ∨ m'.config S i.src = some (.file b)
  removed : m.boot [configName] ≠ none → m'.boot [configName] = none →
    ∀ i b, Item.At (m.config .boot) i b → m'.root i.target = some (.file b)

/-! ## What the commands leave alone -/

/-- The section that the command is in; the cleanup is in none. -/
def Cmd.part : Cmd → Option Part
  | .rmTarget c | .cpDir c => some (.dir c)
  | .cpKeys | .rmKeys => some .keys
  | .catTimesyncd => some .timesyncd
  | .rmConfig => none

/-- The first two names of the paths that a section touches. -/
def Part.region : Part → List Line
  | .dir c => c.target.take 2
  | .keys => keysTarget.take 2
  | .timesyncd => timesyncdTarget.take 2

/-- The section of an item. -/
def Item.part : Item → Part
  | .file c _ _ => .dir c
  | .authorizedKeys => .keys
  | .timesyncd => .timesyncd

section

variable {S : Source} {fail : Cmd → Option (Machine β)} {m s : Machine β} {c : Cmd} {d : Category}
  {fs src : Fs Line β} {dir : Line} {p q target : List Line}

theorem removeGlob_outside (h : ¬ target <+: p) : removeGlob fs target p = fs p := by
  unfold removeGlob
  split
  · simp [List.isPrefixOf_iff_prefix, h]
  · rfl

theorem copyGlob_outside (h : ¬ target <+: p) : copyGlob src dir fs target p = fs p := by
  unfold copyGlob
  split
  · split
    · simp [List.isPrefixOf_iff_prefix, h]
    · rfl
  · rfl

theorem take_two_eq (h : target <+: p) (hl : 2 ≤ target.length) : p.take 2 = target.take 2 := by
  obtain ⟨r, rfl⟩ := h
  rw [List.take_append_of_le_length hl]

theorem Category.mem_all (d : Category) : d ∈ Category.all := by
  cases d <;> decide

theorem Category.two_le (d : Category) : 2 ≤ d.target.length := by
  cases d <;> decide

/-- A command leaves what is outside the region of its section. -/
theorem after_root (h : CanEnd (Cmd.shell S) fail s c) (hq : ∀ P ∈ c.part, P.region ≠ q.take 2) :
    (after (Cmd.shell S) fail c s).root q = s.root q := by
  have hdir (d : Category) (hc : c.part = some (.dir d)) : ¬ d.target <+: q :=
    fun hp => hq _ hc (take_two_eq hp d.two_le).symm
  have hne (p : List Line) (P : Part) (hc : c.part = some P) (hp : P.region = p.take 2) : q ≠ p :=
    fun e => hq P hc (e ▸ hp)
  rcases h with ⟨hc, -⟩ | ⟨t, hc, -, ht, -⟩
  · rw [after, hc]
    cases c with
    | rmTarget d => exact removeGlob_outside (hdir d rfl)
    | cpDir d => exact copyGlob_outside (hdir d rfl)
    | cpKeys =>
      refine copyFile_ne ?_ _ _ _
      split
      · exact hne _ .keys rfl rfl
      · exact hne _ .keys rfl rfl
    | rmKeys => exact Fs.unlink_ne (hne _ .keys rfl rfl)
    | catTimesyncd => exact copyFile_ne (hne _ .timesyncd rfl rfl) _ _ _
    | rmConfig => rfl
  · rw [after, hc]
    refine ht q fun hw => ?_
    cases c with
    | rmTarget | rmKeys | rmConfig => exact hw
    | cpDir d =>
      obtain ⟨name, rfl, -⟩ := hw
      exact hdir d rfl (List.prefix_append _ _)
    | cpKeys => exact hw.elim (hne _ .keys rfl rfl) (hne _ .keys rfl rfl)
    | catTimesyncd => exact hne _ .timesyncd rfl rfl hw

/-- No command changes the USB stick, and only the cleanup the boot partition. -/
theorem after_config (h : CanEnd (Cmd.shell S) fail s c) :
    (after (Cmd.shell S) fail c s).usb = s.usb ∧
      (c.part ≠ none → (after (Cmd.shell S) fail c s).boot = s.boot) := by
  rcases h with ⟨hc, -⟩ | ⟨t, hc, -, -, husb, hboot⟩
  · rw [after, hc]
    cases c with
    | rmConfig => exact ⟨rfl, fun h => absurd rfl h⟩
    | _ => exact ⟨rfl, fun _ => rfl⟩
  · rw [after, hc]
    exact ⟨husb, fun _ => hboot⟩

/-! ## One item -/

variable {i : Item} {b : β} {config : Fs Line β}

theorem Item.region_part (i : Item) : i.part.region = i.target.take 2 := by
  cases i with
  | file c name rest =>
    rw [target, List.take_append_of_le_length c.two_le]
    rfl
  | _ => rfl

theorem Part.mem_all (P : Part) : P ∈ Part.all := by
  rcases P with (_ | _ | _ | _) | _ | _ <;> decide

theorem Part.region_injective : Function.Injective Part.region := fun P Q h =>
  List.inj_on_of_nodup_map (by decide : (Part.all.map Part.region).Nodup) P.mem_all Q.mem_all h

theorem Part.part_of_mem {P : Part} (h : c ∈ P.commands config) : c.part = some P := by
  cases P with
  | dir d =>
    simp only [commands, List.mem_ite_nil_right, List.mem_cons, List.not_mem_nil, or_false] at h
    rcases h with ⟨-, rfl | rfl⟩ <;> rfl
  | keys =>
    simp only [commands] at h
    split at h
    · rw [List.mem_singleton.mp h]
      rfl
    · rw [List.mem_singleton.mp h]
      rfl
  | timesyncd =>
    simp only [commands, List.mem_ite_nil_right, List.mem_singleton] at h
    rw [h.2]
    rfl

/-- The commands of a section, and those before and after them. -/
theorem importFrom_split (config : Fs Line β) (P : Part) (S : Source) :
    ∃ pre post, importFrom S config = pre ++ (P.commands config ++ post) ∧
      (∀ c ∈ pre, ∃ P' ∈ c.part, P' ≠ P) ∧ ∀ c ∈ post, c.part ≠ some P := by
  obtain ⟨l₁, l₂, hl⟩ := List.append_of_mem P.mem_all
  have hn : Part.all.Nodup := by decide
  rw [hl, List.nodup_middle, List.nodup_cons, List.mem_append] at hn
  rw [importFrom, hl, List.flatMap_append, List.flatMap_cons, List.append_assoc, List.append_assoc]
  refine ⟨_, _, rfl, fun c hc => ?_, fun c hc hP => ?_⟩
  · obtain ⟨P', hP', hc⟩ := List.mem_flatMap.mp hc
    exact ⟨P', Part.part_of_mem hc, fun e => hn.1 (.inl (e ▸ hP'))⟩
  · rcases List.mem_append.mp hc with hc | hc
    · obtain ⟨P', hP', hc⟩ := List.mem_flatMap.mp hc
      rw [Part.part_of_mem hc, Option.some.injEq] at hP
      exact hn.1 (.inr (hP ▸ hP'))
    · rw [List.mem_ite_nil_right, List.mem_singleton] at hc
      rw [hc.2] at hP
      cases hP

theorem removeGlob_append (target : List Line) (name : Line) (rest : List Line) :
    removeGlob fs target (target ++ name :: rest) =
      if visible name then none else fs (target ++ name :: rest) := by
  simp [removeGlob, List.isPrefixOf_iff_prefix]

theorem removeGlob_isDir : (removeGlob fs target).isDir target = fs.isDir target := by
  simp [Fs.isDir, removeGlob]

theorem copyGlob_append (target : List Line) (name : Line) (rest : List Line) :
    copyGlob src dir fs target (target ++ name :: rest) =
      match rest, src.read [dir, name] with
      | [], some b =>
        if visible name && fs.isDir target && !fs.isDir (target ++ [name]) then some (.file b)
        else fs (target ++ [name])
      | _, _ => fs (target ++ name :: rest) := by
  unfold copyGlob
  cases rest with
  | nil => cases h : src.read [dir, name] <;> simp [h, List.isPrefixOf_iff_prefix]
  | cons => simp

/-- A file in a directory of settings. -/
theorem block_file {name : Line} {rest : List Line} (hi : s.config S (d.dir :: name :: rest) = some (.file b))
    (h : CanEnd (Cmd.shell S) fail { s with root := removeGlob s.root d.target } (.cpDir d)) :
    (after (Cmd.shell S) fail (.cpDir d) { s with root := removeGlob s.root d.target }).root
        (d.target ++ name :: rest) = some (.file b) ↔
      Item.Imported s fail (.file d name rest) b := by
  have hc : ({ s with root := removeGlob s.root d.target } : Machine β).config S = s.config S := by
    cases S <;> rfl
  have hold : removeGlob s.root d.target (d.target ++ name :: rest) =
      (Item.file d name rest).old s.root := removeGlob_append _ _ _
  unfold Item.Imported
  rcases h with ⟨hf, -⟩ | ⟨t, hf, -, ht, -⟩
  · simp only [after, hf, Option.getD_none, Item.copy]
    show copyGlob _ _ _ _ _ = _ ↔ _
    rw [copyGlob_append, removeGlob_isDir]
    cases hr : (Item.file d name rest).reached with
    | true =>
      obtain ⟨hv, hrest⟩ := Bool.and_eq_true_iff.mp hr
      obtain rfl := List.isEmpty_iff.mp hrest
      have hread : (s.config S).read [d.dir, name] = some b := Fs.read_eq_some.mpr hi
      have hno : (removeGlob s.root d.target).isDir (d.target ++ [name]) = false := by
        rw [Fs.isDir_eq_false (by simp), hold]
        simp [Item.old, hv]
      rw [hc, hread]
      simp [hv, hno, hold, Item.old, Item.target]
    | false =>
      cases rest with
      | nil =>
        have hv : visible name = false := by simpa [Item.reached] using hr
        simp only [hv, Bool.false_and, Bool.false_eq_true, ↓reduceIte, hold]
        split <;> rfl
      | cons => exact iff_of_eq (congrArg (· = _) hold)
  · simp only [after, hf, Option.getD_some, Item.copy]
    cases hr : (Item.file d name rest).reached with
    | true => rfl
    | false =>
      rw [ht (d.target ++ name :: rest)]
      · exact iff_of_eq (congrArg (· = _) hold)
      rintro ⟨name', he, hv, -⟩
      rw [List.append_cancel_left_eq, List.cons.injEq] at he
      obtain ⟨rfl, rfl⟩ := he
      simp [Item.reached, hv] at hr

/-- What the commands of its section leave at the target of an item. -/
theorem commands_root (hi : i.At (s.config S) b)
    (h : Along (fun s c => after (Cmd.shell S) fail c s) (CanEnd (Cmd.shell S) fail) s
      (i.part.commands (s.config S))) :
    (run (fun s c => after (Cmd.shell S) fail c s) s (i.part.commands (s.config S))).root i.target =
        some (.file b) ↔ i.Imported s fail b := by
  cases i with
  | file d name rest =>
    have hp : Part.commands (s.config S) (.dir d) = [.rmTarget d, .cpDir d] := if_pos (hi.2 d name rest rfl)
    simp only [Item.part, hp, along_cons, run_cons, run_nil] at h ⊢
    obtain ⟨hrm, hcp, -⟩ := h
    have hs : after (Cmd.shell S) fail (.rmTarget d) s = { s with root := removeGlob s.root d.target } := by
      rcases hrm with ⟨hf, -⟩ | ⟨t, -, hf, -⟩
      · rw [after, hf]
        rfl
      · simp at hf
    rw [hs] at hcp ⊢
    exact block_file hi.1 hcp
  | authorizedKeys =>
    have hr : (s.config S).read [keysName] = some b := Fs.read_eq_some.mpr hi.1
    have hp : Part.commands (s.config S) .keys = [.cpKeys] := if_pos (Fs.isFile_iff.mpr ⟨b, hi.1⟩)
    simp only [Item.part, hp, along_cons, run_cons, run_nil, after] at h ⊢
    unfold Item.Imported
    simp only [Item.reached, Item.copy]
    rcases h.1 with ⟨hc, -⟩ | ⟨t, hc, -⟩
    · rw [hc]
      show (copyFile _ _ _ (ite _ _ _)) keysTarget = _ ↔ _
      rw [copyFile, hr]
      cases hd : s.root.isDir keysTarget with
      | true =>
        have hk : s.root keysTarget = some .dir := by
          by_contra hne
          simp [(Fs.isDir_eq_false (by decide)).mpr hne] at hd
        simp [Fs.write_ne, Item.old, Item.target, hk]
      | false => exact Fs.write_eq_file (by decide)
    · rw [hc]
      rfl
  | timesyncd =>
    have hr : (s.config S).read [timesyncdName] = some b := Fs.read_eq_some.mpr hi.1
    have hp : Part.commands (s.config S) .timesyncd = [.catTimesyncd] :=
      if_pos (Fs.isFile_iff.mpr ⟨b, hi.1⟩)
    simp only [Item.part, hp, along_cons, run_cons, run_nil, after] at h ⊢
    unfold Item.Imported
    simp only [Item.reached, Item.copy]
    rcases h.1 with ⟨hc, -⟩ | ⟨t, hc, -⟩
    · rw [hc]
      show (copyFile _ _ _ _) timesyncdTarget = _ ↔ _
      rw [copyFile, hr]
      exact Fs.write_eq_file (by decide)
    · rw [hc]
      rfl

/-- Whether an item is imported is told by its own region. -/
theorem imported_congr (h : ∀ p : List Line, p.take 2 = i.part.region → s.root p = m.root p) :
    i.Imported s fail b ↔ i.Imported m fail b := by
  have hold : i.old s.root = i.old m.root := by
    cases i with
    | file d name rest =>
      show ite _ _ (s.root (Item.file d name rest).target) = ite _ _ (m.root (Item.file d name rest).target)
      rw [h _ (Item.region_part _).symm]
    | _ => exact h _ rfl
  have hdir : s.root.isDir i.target.dropLast = m.root.isDir i.target.dropLast := by
    unfold Fs.isDir
    rw [h]
    rw [Item.region_part]
    cases i with
    | file d name rest =>
      rw [Item.target, List.dropLast_append_of_ne_nil (List.cons_ne_nil _ _),
        List.take_append_of_le_length d.two_le, List.take_append_of_le_length d.two_le]
    | _ => rfl
  unfold Item.Imported
  rw [hold, hdir]

theorem imported_iff (hi : i.At (m.config S) b)
    (h : CanFail (Cmd.shell S) fail (importFrom S (m.config S)) m) :
    (runFailing (Cmd.shell S) fail (importFrom S (m.config S)) m).2.root i.target = some (.file b) ↔
      i.Imported m fail b := by
  obtain ⟨pre, post, he, hpre, hpost⟩ := importFrom_split (m.config S) i.part S
  have ha := h.along fun _ _ => rfl
  rw [he] at ha
  obtain ⟨ha₁, ha₂⟩ := along_append.mp ha
  obtain ⟨ha₂, ha₃⟩ := along_append.mp ha₂
  rw [runFailing_all fun _ _ => rfl, he, run_append, run_append]
  -- The commands before: of other sections, and not the cleanup.
  have hs := run_keeps_along (I := fun s : Machine β =>
      (∀ p : List Line, p.take 2 = i.part.region → s.root p = m.root p) ∧ s.config S = m.config S)
    (fun s c hs hok => ⟨fun p hp => ?_, ?_⟩) ⟨fun _ _ => rfl, rfl⟩
    (along_and.mpr ⟨ha₁, along_forall.mpr hpre⟩)
  rotate_left
  · obtain ⟨P, hP, hne⟩ := hok.2
    rw [after_root hok.1, hs.1 p hp]
    intro P' hP' he
    rw [Option.mem_unique hP' hP, hp] at he
    exact hne (Part.region_injective he)
  · obtain ⟨P, hP, -⟩ := hok.2
    obtain ⟨husb, hboot⟩ := after_config hok.1
    rw [← hs.2]
    cases S with
    | usb => exact husb
    | boot => exact funext fun p => congrFun (hboot (by rw [hP]; nofun)) _
  generalize run (fun s c => after (Cmd.shell S) fail c s) m pre = s at hs ha₂ ha₃ ⊢
  rw [← hs.2] at hi ha₂ ha₃ ⊢
  rw [← imported_congr hs.1, ← commands_root hi ha₂]
  -- The commands after are of other sections.
  generalize run (fun s c => after (Cmd.shell S) fail c s) s _ = u at ha₃ ⊢
  have hu := run_keeps_along (I := fun t : Machine β => t.root i.target = u.root i.target)
    (fun t c ht hok => ?_) rfl (along_and.mpr ⟨ha₃, along_forall.mpr hpost⟩)
  · rw [hu]
  · rw [after_root hok.1, ht]
    intro P hP he
    rw [← Item.region_part] at he
    exact hok.2 (Part.region_injective he ▸ hP)

/-! ## All items -/

/-- From the stick, no source is changed. -/
theorem usb_config (h : CanFail (Cmd.shell .usb) fail (importFrom .usb config) m) :
    (runFailing (Cmd.shell .usb) fail (importFrom .usb config) m).2.usb = m.usb ∧
      (runFailing (Cmd.shell .usb) fail (importFrom .usb config) m).2.boot = m.boot := by
  have hpart : ∀ c ∈ importFrom .usb config, c.part ≠ none := by
    intro c hc hn
    rw [importFrom, if_neg (by decide), List.append_nil] at hc
    obtain ⟨P, -, hc⟩ := List.mem_flatMap.mp hc
    rw [Part.part_of_mem hc] at hn
    cases hn
  rw [runFailing_all fun _ _ => rfl]
  refine run_keeps_along (I := fun s : Machine β => s.usb = m.usb ∧ s.boot = m.boot)
    (fun s c hs hok => ?_) ⟨rfl, rfl⟩ (along_and.mpr ⟨h.along fun _ _ => rfl, along_forall.mpr hpart⟩)
  obtain ⟨husb, hboot⟩ := after_config hok.1
  exact ⟨husb.trans hs.1, (hboot hok.2).trans hs.2⟩

/-- From the boot partition, the source is removed. -/
theorem boot_config (h : CanFail (Cmd.shell .boot) fail (importFrom .boot config) m) :
    (runFailing (Cmd.shell .boot) fail (importFrom .boot config) m).2.boot (configName :: p) = none := by
  have ha := h.along fun _ _ => rfl
  rw [importFrom, if_pos rfl, along_append] at ha
  rw [runFailing_all fun _ _ => rfl, importFrom, if_pos rfl, run_append, run_cons, run_nil]
  generalize run _ m _ = s at ha ⊢
  rcases ha.2.1 with ⟨hc, -⟩ | ⟨t, -, hc, -⟩
  · rw [after, hc]
    show s.boot.removeTree [configName] ([configName] ++ p) = none
    exact Fs.removeTree_append _ _
  · simp at hc

theorem hassosConfig_eq {e : Env} (hS : configDir e m = some S) :
    hassosConfig e m = importFrom S (m.config S) := by
  rw [hassosConfig, hS]

/-- No setting is lost iff they come from the stick, or all are imported. -/
theorem import_lossless_iff {e : Env} (hS : configDir e m = some S)
    (h : CanFail (Cmd.shell S) fail (hassosConfig e m) m) :
    Lossless S m (runFailing (Cmd.shell S) fail (hassosConfig e m) m).2 ↔
      (S = .boot → ∀ i b, Item.At (m.config .boot) i b → i.Imported m fail b) := by
  rw [hassosConfig_eq hS] at h ⊢
  cases S with
  | usb =>
    obtain ⟨husb, hboot⟩ := usb_config h
    refine iff_of_true ⟨fun i b hi => .inr ?_, fun hne hno => absurd hno ?_⟩ nofun
    · exact (congrFun husb _).trans hi.1
    · rw [hboot]
      exact hne
  | boot =>
    have hall : (∀ i b, Item.At (m.config .boot) i b →
        (runFailing (Cmd.shell .boot) fail (importFrom .boot (m.config .boot)) m).2.root i.target =
          some (.file b)) ↔ ∀ i b, Item.At (m.config .boot) i b → i.Imported m fail b :=
      forall_congr' fun i => forall_congr' fun b => forall_congr' fun hi => imported_iff hi h
    rw [eq_self_iff_true, true_imp_iff, ← hall]
    refine ⟨fun hl i b hi => (hl.kept i b hi).resolve_right fun hsrc => ?_, fun hl => ?_⟩
    · have hno := boot_config h (p := i.src)
      exact absurd (hsrc.symm.trans hno) nofun
    · exact ⟨fun i b hi => .inl (hl i b hi), fun _ _ => hl⟩

end

/-- A boot partition with the settings of one connection. -/
def oneConnection : Machine Line where
  usb := fun _ => none
  boot := fun p =>
    if p = [configName] ∨ p = [configName, Category.network.dir] then some .dir
    else if p = [configName, Category.network.dir, "wifi".toList] then some (.file "[wifi]".toList)
    else none
  root := fun p => if p = Category.network.target then some .dir else none

/-- No stick. -/
def noStick : Env := ⟨false, false⟩

/-- The copy of the connection fails before it writes anything. -/
def copyFails : Cmd → Option (Machine Line)
  | .cpDir .network => some { oneConnection with root := removeGlob oneConnection.root Category.network.target }
  | _ => none

theorem oneConnection_script : hassosConfig noStick oneConnection =
    [.rmTarget .network, .cpDir .network, .rmKeys, .rmConfig] := by decide +kernel

theorem oneConnection_item {i : Item} {b : Line} (hi : i.At (oneConnection.config .boot) b) :
    i = .file .network "wifi".toList [] ∧ b = "[wifi]".toList := by
  have h := hi.1
  simp only [Machine.config, oneConnection] at h
  split at h
  · cases h
  · split at h
    · rename_i hp
      refine ⟨?_, by simpa using h.symm⟩
      cases i with
      | file c name rest =>
        simp only [Item.src, List.cons.injEq, true_and] at hp
        obtain ⟨hc, rfl, rfl⟩ := hp
        cases c with
        | network => rfl
        | _ => exact absurd hc (by decide)
      | _ => simp [Item.src] at hp
    · cases h

/-- The copy fails when the connection is written. -/
def failsLate : Cmd → Option (Machine Line)
  | .cpDir .network =>
    some { oneConnection with
      root := Function.update (removeGlob oneConnection.root Category.network.target)
        (Category.network.target ++ ["wifi".toList]) (some (.file "[wifi]".toList)) }
  | _ => none

/-- Where its copy fails too late to matter, the connection is imported. -/
theorem oneConnection_lossless : Lossless .boot oneConnection
    (runFailing (Cmd.shell .boot) failsLate (hassosConfig noStick oneConnection) oneConnection).2 := by
  refine (import_lossless_iff (by decide +kernel) ?_).mpr fun _ i b hi => ?_
  · rw [oneConnection_script]
    refine ⟨trivial, ⟨.inr (.inr ⟨_, rfl⟩), fun p hp => ?_, rfl, rfl⟩, fun _ => ⟨trivial, trivial, trivial⟩⟩
    refine Function.update_of_ne ?_ _ _
    rintro rfl
    exact hp ⟨"wifi".toList, rfl, by decide, by decide +kernel, by decide +kernel⟩
  · obtain ⟨rfl, rfl⟩ := oneConnection_item hi
    have hr : (Item.file .network "wifi".toList []).reached = true := by decide +kernel
    rw [Item.Imported, hr]
    show Function.update (removeGlob oneConnection.root Category.network.target)
      (Category.network.target ++ ["wifi".toList]) (some (.file "[wifi]".toList))
      (Category.network.target ++ ["wifi".toList]) = some (.file "[wifi]".toList)
    exact Function.update_self ..

/-- If its copy fails, it is lost. -/
theorem connection_lost : configDir noStick oneConnection = some .boot ∧
    CanFail (Cmd.shell .boot) copyFails (hassosConfig noStick oneConnection) oneConnection ∧
      ¬ Lossless .boot oneConnection
        (runFailing (Cmd.shell .boot) copyFails (hassosConfig noStick oneConnection) oneConnection).2 := by
  rw [oneConnection_script]
  refine ⟨by decide +kernel, ⟨trivial, ⟨.inr (.inr ⟨_, rfl⟩), fun _ _ => rfl, rfl, rfl⟩,
    fun _ => ⟨trivial, trivial, trivial⟩⟩, ?_⟩
  intro hl
  have hi : Item.At (oneConnection.config .boot) (.file .network "wifi".toList []) "[wifi]".toList := by
    refine ⟨by decide +kernel, fun c name rest h => ?_⟩
    cases h
    decide +kernel
  have hend := hl.kept _ _ hi
  revert hend
  decide +kernel

end HassOS.Config
