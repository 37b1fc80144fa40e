import HassOS.Framework.Errexit
import HassOS.Framework.Files
import HassOS.Slot

/-!
# The hook of the bundle (`rauc-hook`)

The commands of `install_boot` and `post_install_kernel`, over the boot
partition and the two directories under `/tmp` (`Machine`), for files of any
content. `exec` is what a command does if nothing goes wrong, `Succeeds` is
what stands in the way of that, and `Fails` is what a failing command may
leave. Of the `EXIT` trap nothing is modelled: it removes the two directories
under `/tmp` and leaves the boot partition alone.
-/

namespace HassOS.Hook

open Framework

variable {β : Type}

/-- The trees that the hook works on. -/
structure Machine (β : Type) where
  /-- `BOOT_MNT=/mnt/boot` -/
  mnt : Fs Line β
  /-- `BOOT_TMP=/tmp/boot-tmp` -/
  tmp : Fs Line β
  /-- `BOOT_NEW=/tmp/boot-new` -/
  new : Fs Line β

/-! ## Copies -/

/-- What the shell's `*` matches. -/
def visible (name : Line) : Bool := name.head? != some '.'

/-- What the shell's `*.txt` matches. -/
def isTxt (name : Line) : Bool := visible name && ".txt".toList.isSuffixOf name

/-- `cp -f src/*.txt dst/`: regular files only, and not over a directory. -/
def copyTxt (src dst : Fs Line β) : Fs Line β
  | [name] =>
    match src.read [name] with
    | some b => if isTxt name && !dst.isDir [name] then some (.file b) else dst [name]
    | none => dst [name]
  | p => dst p

theorem copyTxt_other {name : Line} (h : isTxt name = false) (src dst : Fs Line β) :
    copyTxt src dst [name] = dst [name] := by
  simp only [copyTxt, h, Bool.false_and, Bool.false_eq_true, ↓reduceIte]
  split <;> rfl

/-- `cp -f src/p dst/q` -/
def copyFile (src : Fs Line β) (p : List Line) (dst : Fs Line β) (q : List Line) : Fs Line β :=
  match src.read p with
  | some b => dst.write q b
  | none => dst

theorem copyFile_ne {p q : List Line} (h : p ≠ q) (src dst : Fs Line β) (r : List Line) :
    copyFile src r dst q p = dst p := by
  rw [copyFile]
  cases src.read r with
  | none => rfl
  | some b => exact Fs.write_ne h

/-- A file or directory copied over another: neither replaces the other kind. -/
def copyNode : Option (Node β) → Option (Node β) → Option (Node β)
  | none, d => d
  | some .dir, some (.file b) => some (.file b)
  | some .dir, _ => some .dir
  | some (.file _), some .dir => some .dir
  | some (.file b), _ => some (.file b)

theorem copyNode_dir (n : Option (Node β)) : copyNode n (some .dir) = some .dir := by
  rcases n with _ | (_ | _) <;> rfl

/-- `cp -rf src/* dst/` -/
def copyAll (src dst : Fs Line β) : Fs Line β
  | [] => dst []
  | name :: p => if visible name then copyNode (src (name :: p)) (dst (name :: p)) else dst (name :: p)

/-- A file of one tree is a directory of the other. -/
def Conflict (src dst : Fs Line β) : Prop :=
  ∃ name p, visible name = true ∧
    ((src (name :: p) = some .dir ∧ ∃ b, dst (name :: p) = some (.file b)) ∨
      ((∃ b, src (name :: p) = some (.file b)) ∧ dst (name :: p) = some .dir))

/-- `rm -f dir/*` -/
def removeFiles (dir : Line) (fs : Fs Line β) : Fs Line β
  | [d, name] =>
    if d = dir ∧ visible name then
      match fs [d, name] with
      | some (.file _) => none
      | n => n
    else fs [d, name]
  | p => fs p

/-- `cp -r src/p dst/q` of a directory: into `q` if it is one, or else to it. -/
def copyTree (src : Fs Line β) (p : Line) (fs : Fs Line β) (q : Line) : Fs Line β :=
  if fs.isDir [q] then Fs.graft src [p] fs [q, p] else Fs.graft src [p] fs [q]

/-- `mv p q` of a directory: into `q` if it is one, or else to it. -/
def moveDir (fs : Fs Line β) (p q : Line) : Fs Line β :=
  if fs.isDir [q] then fs.moveTree [p] [q, p] else fs.moveTree [p] [q]

/-! ## The commands -/

inductive Cmd where
  | mkdirTmp
  | mkdirNew
  /-- `systemctl start mnt-boot.mount`, unless it is active. -/
  | startMount
  | mountImage
  | rmOverlays
  | rmSlotDefault
  | copySlotA
  | sedCmdline
  | backupTxt
  | backupGrubenv
  | copyImage
  | restoreTxt
  | restoreGrubenv
  | rmSlot (S : Slot)
  | mvSlotDefault (S : Slot)
  deriving DecidableEq

/-- `install_boot` -/
def installBoot (rpi5 : Bool) : List Cmd :=
  [.mkdirTmp, .mkdirNew, .startMount, .mountImage, .rmOverlays] ++
    if rpi5 then [.rmSlotDefault, .copySlotA, .sedCmdline]
    else [.backupTxt, .backupGrubenv, .copyImage, .restoreTxt, .restoreGrubenv]

/-- `post_install_kernel` -/
def postInstallKernel (rpi5 : Bool) (slotBootname : Slot) : List Cmd :=
  .startMount :: if rpi5 then [.rmSlot slotBootname, .mvSlotDefault slotBootname] else []

def slotName (S : Slot) : Line := "slot-".toList ++ S.name
def slotDefault : Line := "slot-default".toList
def overlays : Line := "overlays".toList
def cmdlineTxt : List Line := ["cmdline.txt".toList]
def grubenv : List Line := ["EFI".toList, "BOOT".toList, "grubenv".toList]
def tmpGrubenv : List Line := ["grubenv".toList]

/-- `|| true` -/
def Cmd.tolerated : Cmd → Bool
  | .rmOverlays | .backupTxt | .backupGrubenv | .restoreTxt | .restoreGrubenv => true
  | _ => false

/-- What a command does: `image` is what `RAUC_IMAGE_NAME` holds, and `sed` is
the edit of `cmdline.txt`. -/
def Cmd.exec (image : Fs Line β) (sed : β → β) : Cmd → Machine β → Machine β
  | .mkdirTmp, m | .mkdirNew, m | .startMount, m => m
  | .mountImage, m => { m with new := image }
  | .rmOverlays, m => { m with mnt := removeFiles overlays m.mnt }
  | .rmSlotDefault, m => { m with mnt := m.mnt.removeTree [slotDefault] }
  | .copySlotA, m => { m with mnt := copyTree m.new (slotName .A) m.mnt slotDefault }
  | .sedCmdline, m =>
    match m.mnt.read cmdlineTxt with
    | some b => { m with mnt := m.mnt.write cmdlineTxt (sed b) }
    | none => m
  | .backupTxt, m => { m with tmp := copyTxt m.mnt m.tmp }
  | .backupGrubenv, m => { m with tmp := copyFile m.mnt grubenv m.tmp tmpGrubenv }
  | .copyImage, m => { m with mnt := copyAll m.new m.mnt }
  | .restoreTxt, m => { m with mnt := copyTxt m.tmp m.mnt }
  | .restoreGrubenv, m => { m with mnt := copyFile m.tmp tmpGrubenv m.mnt grubenv }
  | .rmSlot S, m => { m with mnt := m.mnt.removeTree [slotName S] }
  | .mvSlotDefault S, m => { m with mnt := moveDir m.mnt slotDefault (slotName S) }

/-- It can do that. The commands that the script tolerates do what they can. -/
def Cmd.Succeeds : Cmd → Machine β → Prop
  | .copySlotA, m =>
    m.new [slotName .A] ≠ none ∧
      ¬ (m.new [slotName .A] = some .dir ∧ m.mnt.isFile [slotDefault] = true)
  | .sedCmdline, m => m.mnt.isFile cmdlineTxt = true
  | .copyImage, m => (∃ name, visible name = true ∧ m.new [name] ≠ none) ∧ ¬ Conflict m.new m.mnt
  | .mvSlotDefault S, m =>
    m.mnt [slotDefault] ≠ none ∧
      ¬ (m.mnt [slotDefault] = some .dir ∧ m.mnt.isFile [slotName S] = true)
  | _, _ => True

/-- Some of what is at `name` and below is removed. -/
def Removes (name : Line) (fs fs' : Fs Line β) : Prop :=
  ∀ p, fs' p = fs p ∨ ([name] <+: p ∧ fs' p = none)

/-- At most the paths in `q` differ. -/
def OnlyAt (q : List Line → Prop) (fs fs' : Fs Line β) : Prop := ∀ p, ¬ q p → fs' p = fs p

/-- What a failing command may leave: a copy leaves anything where it writes, a
removal removes part, and `sed -i` leaves its temporary file. -/
def Cmd.Fails : Cmd → Machine β → Machine β → Prop
  | .mkdirTmp, m, m' | .mkdirNew, m, m' | .startMount, m, m' | .mvSlotDefault _, m, m' => m' = m
  | .mountImage, m, m' => m'.mnt = m.mnt ∧ m'.tmp = m.tmp
  | .rmOverlays, m, m' => Removes overlays m.mnt m'.mnt ∧ m'.tmp = m.tmp ∧ m'.new = m.new
  | .rmSlotDefault, m, m' => Removes slotDefault m.mnt m'.mnt ∧ m'.tmp = m.tmp ∧ m'.new = m.new
  | .rmSlot S, m, m' => Removes (slotName S) m.mnt m'.mnt ∧ m'.tmp = m.tmp ∧ m'.new = m.new
  | .copySlotA, m, m' =>
    OnlyAt ([slotDefault] <+: ·) m.mnt m'.mnt ∧ m'.tmp = m.tmp ∧
      m'.new = m.new
  | .sedCmdline, m, m' =>
    OnlyAt (fun p => ∃ n, p = ["sed".toList ++ n]) m.mnt m'.mnt ∧ m'.tmp = m.tmp ∧ m'.new = m.new
  | .backupTxt, m, m' =>
    OnlyAt (fun p => ∃ n, p = [n] ∧ isTxt n = true ∧ m.mnt.isFile p = true) m.tmp m'.tmp ∧
      m'.mnt = m.mnt ∧ m'.new = m.new
  | .backupGrubenv, m, m' => OnlyAt (· = tmpGrubenv) m.tmp m'.tmp ∧ m'.mnt = m.mnt ∧ m'.new = m.new
  | .copyImage, m, m' =>
    OnlyAt (fun p => ∃ n q, p = n :: q ∧ visible n = true ∧ m.new p ≠ none) m.mnt m'.mnt ∧
      m'.tmp = m.tmp ∧ m'.new = m.new
  | .restoreTxt, m, m' =>
    OnlyAt (fun p => ∃ n, p = [n] ∧ isTxt n = true ∧ m.tmp.isFile p = true) m.mnt m'.mnt ∧
      m'.tmp = m.tmp ∧ m'.new = m.new
  | .restoreGrubenv, m, m' => OnlyAt (· = grubenv) m.mnt m'.mnt ∧ m'.tmp = m.tmp ∧ m'.new = m.new

/-! ## What the commands leave alone -/

/-- The command works in this entry of the root of the boot partition. -/
def Cmd.touches : Cmd → Line → Bool
  | .rmOverlays, n => n = overlays
  | .rmSlotDefault, n | .copySlotA, n => n = slotDefault
  | .sedCmdline, n => n = "cmdline.txt".toList || "sed".toList.isPrefixOf n
  | .rmSlot S, n => n = slotName S
  | .mvSlotDefault S, n => n = slotDefault || n = slotName S
  | .copyImage, _ | .restoreTxt, _ | .restoreGrubenv, _ => true
  | _, _ => false

section

variable {c : Cmd} {n name : Line} {fs fs' : Fs Line β}

theorem removeFiles_frame (h : n ≠ name) (r : List Line) :
    removeFiles name fs (n :: r) = fs (n :: r) := by
  unfold removeFiles
  split
  · rename_i d e heq
    obtain ⟨rfl, -⟩ := List.cons.inj heq
    rw [if_neg fun hd => h hd.1, heq]
  · rfl

theorem removes_frame (hf : Removes name fs fs') (h : n ≠ name) (r : List Line) :
    fs' (n :: r) = fs (n :: r) := by
  rcases hf (n :: r) with hp | ⟨hp, -⟩
  · exact hp
  · exact absurd (List.cons_prefix_cons.mp hp).1.symm h

/-- A command that succeeds leaves the other entries as they are. -/
theorem Cmd.exec_frame (h : c.touches n = false) (image : Fs Line β) (sed : β → β) (m : Machine β)
    (r : List Line) : (c.exec image sed m).mnt (n :: r) = m.mnt (n :: r) := by
  cases c with
  | mkdirTmp | mkdirNew | startMount | mountImage | backupTxt | backupGrubenv => rfl
  | copyImage | restoreTxt | restoreGrubenv => cases h
  | rmOverlays => exact removeFiles_frame (decide_eq_false_iff_not.mp h) r
  | rmSlotDefault =>
    exact Fs.removeTree_outside (Fs.not_below (decide_eq_false_iff_not.mp h) _ _)
  | rmSlot S => exact Fs.removeTree_outside (Fs.not_below (decide_eq_false_iff_not.mp h) _ _)
  | copySlotA =>
    have hn : n ≠ slotDefault := decide_eq_false_iff_not.mp h
    show copyTree m.new (slotName .A) m.mnt slotDefault (n :: r) = m.mnt (n :: r)
    unfold copyTree
    split <;> exact Fs.graft_outside (Fs.not_below hn _ _)
  | sedCmdline =>
    obtain ⟨hn, -⟩ := Bool.or_eq_false_iff.mp h
    simp only [exec]
    split
    · exact Fs.write_ne fun e => decide_eq_false_iff_not.mp hn (List.cons.inj e).1
    · rfl
  | mvSlotDefault S =>
    obtain ⟨hd, hS⟩ := Bool.or_eq_false_iff.mp h
    have hd : n ≠ slotDefault := decide_eq_false_iff_not.mp hd
    have hn : n ≠ slotName S := decide_eq_false_iff_not.mp hS
    show moveDir m.mnt slotDefault (slotName S) (n :: r) = m.mnt (n :: r)
    unfold moveDir
    split <;> exact Fs.moveTree_outside (Fs.not_below hd _ _) (Fs.not_below hn _ _)

/-- So does one that fails. -/
theorem Cmd.fails_frame (h : c.touches n = false) {m m' : Machine β} (hf : c.Fails m m')
    (r : List Line) : m'.mnt (n :: r) = m.mnt (n :: r) := by
  cases c with
  | mkdirTmp | mkdirNew | startMount => rw [show m' = m from hf]
  | mvSlotDefault S => rw [show m' = m from hf]
  | mountImage => rw [hf.1]
  | backupTxt | backupGrubenv => rw [hf.2.1]
  | copyImage | restoreTxt | restoreGrubenv => cases h
  | rmOverlays | rmSlotDefault => exact removes_frame hf.1 (decide_eq_false_iff_not.mp h) r
  | rmSlot S => exact removes_frame hf.1 (decide_eq_false_iff_not.mp h) r
  | copySlotA =>
    exact hf.1 _ fun hp => decide_eq_false_iff_not.mp h (List.cons_prefix_cons.mp hp).1.symm
  | sedCmdline =>
    obtain ⟨-, hsed⟩ := Bool.or_eq_false_iff.mp h
    refine hf.1 _ ?_
    rintro ⟨e, he⟩
    rw [(List.cons.inj he).1, List.isPrefixOf_iff_prefix.mpr (List.prefix_append _ _)] at hsed
    cases hsed

end

end HassOS.Hook
