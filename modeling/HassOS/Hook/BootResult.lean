import Mathlib.Data.List.Infix
import HassOS.Hook.InstallBoot

/-!
# What `install_boot` leaves if every command succeeds

On boards other than the Raspberry Pi 5: the user's files keep what they had
(`isUserPath`), the files of the image replace the others, and stale overlays
go (`law`). The backup is made in a directory that is not emptied before, so a
file that an earlier run left there is restored, too: `install_result_iff` is
the result for every boot partition, image and `BOOT_TMP`. It also holds where
commands fail that the script tolerates, as without a `grubenv` to copy.
-/

namespace HassOS.Hook

open Framework

variable {β : Type}

/-- `cp -f src/*.txt dst/` has something to copy, and can copy all of it. -/
def CopiesTxt (src dst : Fs Line β) : Prop :=
  (∃ name, isTxt name = true ∧ src [name] ≠ none) ∧ ∀ name, isTxt name = true →
    src [name] ≠ some .dir ∧ (src.isFile [name] = true → dst.isDir [name] = false)

/-- The command exits 0, also where its failure would be tolerated. -/
def Cmd.ExitsZero : Cmd → Machine β → Prop
  | .rmOverlays, m => ∀ name, visible name = true → m.mnt [overlays, name] ≠ some .dir
  | .backupTxt, m => CopiesTxt m.mnt m.tmp
  | .backupGrubenv, m => m.mnt.isFile grubenv = true ∧ m.tmp.isDir tmpGrubenv = false
  | .restoreTxt, m => CopiesTxt m.tmp m.mnt
  | .restoreGrubenv, m =>
    m.tmp.isFile tmpGrubenv = true ∧ m.mnt.isDir grubenv.dropLast = true ∧
      m.mnt.isDir grubenv = false
  | c, m => c.Succeeds m

/-- A top-level `*.txt`, or `EFI/BOOT/grubenv`. -/
def isUserPath : List Line → Bool
  | [name] => isTxt name
  | p => p = grubenv

/-- Where its backup is. -/
def backupPath (p : List Line) : List Line := if p = grubenv then tmpGrubenv else p

/-- The path lies in the image, under a name that `*` matches. -/
def inImage (image : Fs Line β) : List Line → Bool
  | [] => false
  | name :: p => visible name && (image (name :: p)).isSome

/-- A regular file that `overlays/*` matches. -/
def isOverlay (fs : Fs Line β) : List Line → Bool
  | [dir, name] => dir = overlays && visible name && fs.isFile [dir, name]
  | _ => false

/-- What a path holds that no user file is kept at. -/
def replaced (image old : Fs Line β) (p : List Line) : Option (Node β) :=
  if inImage image p then image p else if isOverlay old p then none else old p

/-- What the update is to leave. -/
def law (image old : Fs Line β) (p : List Line) : Option (Node β) :=
  if isUserPath p && old.isFile p then old p else replaced image old p

/-- The path gets what it is to have: its file is backed up, or the image has no other one there;
or it has no file, and none is restored that is not in the image. -/
def Restorable (image : Fs Line β) (m : Machine β) (p : List Line) : Prop :=
  if m.mnt.isFile p then
    (m.tmp.isDir (backupPath p) = false ∧ Fs.isDir (replaced image m.mnt) p.dropLast = true) ∨
      image.read p = none ∨ image.read p = m.mnt.read p
  else ∀ b, m.tmp.read (backupPath p) = some b → Fs.isDir (replaced image m.mnt) p.dropLast = true →
    Fs.isDir (replaced image m.mnt) p = false → image.read p = some b

/-! ## Copies, path by path -/

section

variable {src dst image : Fs Line β} {name : Line} {p : List Line}

theorem copyTxt_txt (h : isTxt name = true) (src dst : Fs Line β) :
    copyTxt src dst [name] = match src.read [name] with
      | some b => if dst.isDir [name] then dst [name] else some (.file b)
      | none => dst [name] := by
  rw [copyTxt]
  cases src.read [name] with
  | none => rfl
  | some b => cases dst.isDir [name] <;> simp [h]

theorem copyTxt_ne (h : ∀ name, p = [name] → isTxt name = false) (src dst : Fs Line β) :
    copyTxt src dst p = dst p := by
  match p, h with
  | [], _ => rfl
  | [name], h => exact copyTxt_other (h name rfl) src dst
  | _ :: _ :: _, _ => rfl

theorem userPath_cases (h : isUserPath p = true) :
    (∃ name, p = [name] ∧ isTxt name = true) ∨ p = grubenv := by
  match p, h with
  | [], h => exact absurd h (by decide)
  | [name], h => exact .inl ⟨name, rfl, h⟩
  | _ :: _ :: _, h => exact .inr (of_decide_eq_true h)

theorem removeFiles_eq (fs : Fs Line β) (p : List Line) :
    removeFiles overlays fs p = if isOverlay fs p then none else fs p := by
  match p with
  | [] | [_] | _ :: _ :: _ :: _ => rfl
  | [dir, name] =>
    by_cases hd : dir = overlays ∧ visible name = true
    · have ho : isOverlay fs [dir, name] = fs.isFile [dir, name] := by
        simp [isOverlay, hd.1, hd.2]
      rw [removeFiles, if_pos hd, ho, Fs.isFile]
      rcases fs [dir, name] with _ | (_ | _) <;> rfl
    · have ho : isOverlay fs [dir, name] = false := by
        simp only [isOverlay, Bool.and_eq_false_iff, decide_eq_false_iff_not]
        by_cases h : dir = overlays
        · exact .inl (.inr (by simpa [h] using hd))
        · exact .inl (.inl h)
      rw [removeFiles, if_neg hd, ho]
      rfl

/-- The copy of the image, over a file of the user. -/
theorem copyAll_file (hu : isUserPath p = true) {b : β}
    (hb : dst p = some (.file b)) : copyAll image dst p = some (.file ((image.read p).getD b)) := by
  obtain ⟨name, q, rfl, hv⟩ : ∃ name q, p = name :: q ∧ visible name = true := by
    rcases userPath_cases hu with ⟨name, rfl, ht⟩ | rfl
    · exact ⟨name, [], rfl, (Bool.and_eq_true_iff.mp ht).1⟩
    · exact ⟨_, _, rfl, by decide⟩
  rw [copyAll, if_pos hv, hb, Fs.read]
  rcases image (name :: q) with _ | (_ | _) <;> rfl

/-- Without conflicts, the image's files are copied over what there is. -/
theorem copyAll_eq (h : ¬ Conflict src dst) (p : List Line) :
    copyAll src dst p = if inImage src p then src p else dst p := by
  cases p with
  | nil => rfl
  | cons name p =>
    by_cases hv : visible name = true
    · rw [copyAll, if_pos hv, inImage, hv, Bool.true_and]
      cases hs : src (name :: p) with
      | none => rfl
      | some n =>
        cases hd : dst (name :: p) with
        | none => cases n <;> rfl
        | some n' =>
          cases n with
          | dir =>
            cases n' with
            | dir => rfl
            | file b => exact absurd ⟨name, p, hv, .inl ⟨hs, b, hd⟩⟩ h
          | file b =>
            cases n' with
            | dir => exact absurd ⟨name, p, hv, .inr ⟨⟨b, hs⟩, hd⟩⟩ h
            | file b' => rfl
    · have hv' : visible name = false := Bool.eq_false_iff.mpr hv
      rw [copyAll, if_neg hv, inImage, hv']
      rfl

end

/-! ## The result -/

section

variable {m : Machine β} {image : Fs Line β} {sed : β → β}

/-- The states of a run in which every command exits 0. -/
abbrev Completes (image : Fs Line β) (sed : β → β) (m : Machine β) : Prop :=
  Along (fun m c => c.exec image sed m) (fun m c => c.ExitsZero m) m (installBoot false)

/-- The states of a run in which no command fails but those that the script tolerates, and these
do what they can: they skip what is not there or has a directory in its place. -/
abbrev Continues (image : Fs Line β) (sed : β → β) (m : Machine β) : Prop :=
  Along (fun m c => c.exec image sed m) (fun m c => c.Succeeds m) m (installBoot false)

/-- `BOOT_TMP` after the backup. -/
def backedUp (m : Machine β) : Fs Line β :=
  copyFile (removeFiles overlays m.mnt) grubenv (copyTxt (removeFiles overlays m.mnt) m.tmp)
    tmpGrubenv

/-- What stands in the way of that. -/
theorem completes_iff : Completes image sed m ↔
    (∀ name, visible name = true → m.mnt [overlays, name] ≠ some .dir) ∧ CopiesTxt m.mnt m.tmp ∧
      (m.mnt.isFile grubenv = true ∧
        (copyTxt (removeFiles overlays m.mnt) m.tmp).isDir tmpGrubenv = false) ∧
      ((∃ name, visible name = true ∧ image [name] ≠ none) ∧
        ¬ Conflict image (removeFiles overlays m.mnt)) ∧
      CopiesTxt (backedUp m) (copyAll image (removeFiles overlays m.mnt)) ∧
      ((backedUp m).isFile tmpGrubenv = true ∧
        (copyTxt (backedUp m) (copyAll image (removeFiles overlays m.mnt))).isDir grubenv.dropLast =
          true ∧
        (copyTxt (backedUp m) (copyAll image (removeFiles overlays m.mnt))).isDir grubenv = false) := by
  constructor
  · rintro ⟨-, -, -, -, hrm, hbackup, henv, hcopy, hrestore, hrestoreEnv, -⟩
    exact ⟨hrm, hbackup, henv, hcopy, hrestore, hrestoreEnv⟩
  · rintro ⟨hrm, hbackup, henv, hcopy, hrestore, hrestoreEnv⟩
    exact ⟨trivial, trivial, trivial, trivial, hrm, hbackup, henv, hcopy, hrestore, hrestoreEnv,
      trivial⟩

/-- What stands in the way of the other. -/
theorem continues_iff : Continues image sed m ↔
    (∃ name, visible name = true ∧ image [name] ≠ none) ∧ ¬ Conflict image (removeFiles overlays m.mnt) :=
  ⟨fun ⟨_, _, _, _, _, _, _, hcopy, _⟩ => hcopy,
    fun hcopy => ⟨trivial, trivial, trivial, trivial, trivial, trivial, trivial, hcopy, trivial, trivial,
      trivial⟩⟩

theorem Completes.continues (h : Completes image sed m) : Continues image sed m :=
  continues_iff.mpr (completes_iff.mp h).2.2.2.1

/-- The boot partition once the image is copied. -/
theorem copied_eq (h : Continues image sed m) :
    copyAll image (removeFiles overlays m.mnt) = replaced image m.mnt := by
  funext p
  rw [copyAll_eq (continues_iff.mp h).2, removeFiles_eq, replaced]

theorem notOverlay {p : List Line} (hp : isUserPath p = true) (fs : Fs Line β) :
    isOverlay fs p = false := by
  match p with
  | [] | [_] | _ :: _ :: _ :: _ => rfl
  | [dir, name] => exact absurd hp (by simp [isUserPath, grubenv])

theorem completed_eq (image : Fs Line β) (sed : β → β) (m : Machine β) :
    (run (fun m c => c.exec image sed m) m (installBoot false)).mnt =
      copyFile (backedUp m) tmpGrubenv
        (copyTxt (backedUp m) (copyAll image (removeFiles overlays m.mnt))) grubenv := rfl

/-- What `BOOT_TMP` has for a path after the backup: its file, or else what was there before. -/
def backup (m : Machine β) (p : List Line) : Option β :=
  if m.mnt.isFile p && !m.tmp.isDir (backupPath p) then m.mnt.read p else m.tmp.read (backupPath p)

theorem backupPath_txt (name : Line) : backupPath [name] = [name] := if_neg (by simp [grubenv])

theorem backedUp_read {p : List Line} (hp : isUserPath p = true) :
    (backedUp m).read (backupPath p) = backup m p := by
  rw [backup, Fs.isFile_eq]
  rcases userPath_cases hp with ⟨name, rfl, ht⟩ | rfl
  · have hne : [name] ≠ tmpGrubenv := by
      rintro ⟨⟩
      exact absurd ht (by decide)
    have hb : backedUp m [name] = copyTxt (removeFiles overlays m.mnt) m.tmp [name] :=
      copyFile_ne hne _ _ _
    have hr : (removeFiles overlays m.mnt).read [name] = m.mnt.read [name] := rfl
    rw [backupPath_txt, Fs.read, hb, copyTxt_txt ht, hr]
    cases m.mnt.read [name] with
    | none => rfl
    | some b => cases m.tmp.isDir [name] <;> rfl
  · have hpath : backupPath grubenv = tmpGrubenv := if_pos rfl
    have hr : (removeFiles overlays m.mnt).read grubenv = m.mnt.read grubenv := rfl
    have ht : copyTxt (removeFiles overlays m.mnt) m.tmp tmpGrubenv = m.tmp tmpGrubenv :=
      copyTxt_other (by decide) _ _
    have hd : (copyTxt (removeFiles overlays m.mnt) m.tmp).isDir tmpGrubenv = m.tmp.isDir tmpGrubenv := by
      rw [Fs.isDir, Fs.isDir, ht]
    rw [hpath, backedUp, copyFile, hr]
    cases m.mnt.read grubenv with
    | none =>
      show Fs.read (copyTxt (removeFiles overlays m.mnt) m.tmp) tmpGrubenv = m.tmp.read tmpGrubenv
      rw [Fs.read, Fs.read, ht]
    | some b =>
      show Fs.read (Fs.write _ tmpGrubenv b) tmpGrubenv = _
      rw [Fs.read, Fs.write_at, hd, ht, show tmpGrubenv.dropLast = [] from rfl, Fs.isDir_nil]
      cases m.tmp.isDir tmpGrubenv <;> rfl

/-- What the update leaves at a path of the user: the backup, where it can be written. -/
theorem completed_user (h : Continues image sed m) {p : List Line} (hp : isUserPath p = true) :
    (run (fun m c => c.exec image sed m) m (installBoot false)).mnt p =
      match backup m p with
      | some b => Fs.write (replaced image m.mnt) p b p
      | none => replaced image m.mnt p := by
  rw [completed_eq, copied_eq h, ← backedUp_read hp]
  rcases userPath_cases hp with ⟨name, rfl, ht⟩ | rfl
  · have hne : [name] ≠ grubenv := by
      rw [grubenv]
      simp
    rw [copyFile_ne hne, copyTxt_txt ht, backupPath_txt]
    cases (backedUp m).read [name] with
    | none => rfl
    | some b =>
      show _ = Fs.write (replaced image m.mnt) [name] b [name]
      rw [Fs.write_at, show [name].dropLast = [] from rfl, Fs.isDir_nil]
      cases Fs.isDir (replaced image m.mnt) [name] <;> rfl
  · have hpath : backupPath grubenv = tmpGrubenv := if_pos rfl
    rw [hpath, copyFile]
    cases (backedUp m).read tmpGrubenv with
    | none => rfl
    | some b =>
      show Fs.write _ grubenv b grubenv = Fs.write _ grubenv b grubenv
      rw [Fs.write_at, Fs.write_at]
      rfl

theorem completed_other (h : Continues image sed m) {p : List Line} (hp : isUserPath p = false) :
    (run (fun m c => c.exec image sed m) m (installBoot false)).mnt p =
      replaced image m.mnt p := by
  have hne : p ≠ grubenv := by
    rintro rfl
    cases hp
  have ht : ∀ name, p = [name] → isTxt name = false := by
    rintro name rfl
    exact hp
  rw [completed_eq, copyFile_ne hne, copyTxt_ne ht, copied_eq h]

/-- Where there was a file of the user, the image's file is, if it has one. -/
theorem replaced_file (h : Continues image sed m) {p : List Line} (hp : isUserPath p = true) {b : β}
    (hb : m.mnt p = some (.file b)) : replaced image m.mnt p = some (.file ((image.read p).getD b)) := by
  have hb' : removeFiles overlays m.mnt p = some (.file b) := by
    rw [removeFiles_eq, notOverlay hp, hb]
    rfl
  rw [← copied_eq h]
  exact copyAll_file hp hb'

theorem replaced_read (image : Fs Line β) {p : List Line} (hp : isUserPath p = true)
    (hf : m.mnt.isFile p = false) :
    Fs.read (replaced image m.mnt) p = image.read p := by
  have hnone : m.mnt.read p = none := by
    rw [Fs.isFile_eq] at hf
    exact Option.not_isSome_iff_eq_none.mp (ne_true_of_eq_false hf)
  have hin : inImage image p = (image p).isSome := by
    rcases userPath_cases hp with ⟨name, rfl, ht⟩ | rfl
    · rw [inImage, (Bool.and_eq_true_iff.mp ht).1, Bool.true_and]
    · rfl
  rw [Fs.read, replaced, hin, notOverlay hp]
  cases hi : image p with
  | none =>
    show m.mnt.read p = image.read p
    rw [hnone, Fs.read, hi]
  | some n =>
    rw [Fs.read, hi]
    rfl

/-- A file of the user stays iff it is backed up and restored, or the image has no other there. -/
theorem completed_file_iff (h : Continues image sed m) {p : List Line} (hp : isUserPath p = true) {b : β}
    (hb : m.mnt p = some (.file b)) :
    (run (fun m c => c.exec image sed m) m (installBoot false)).mnt p = some (.file b) ↔
      (m.tmp.isDir (backupPath p) = false ∧ Fs.isDir (replaced image m.mnt) p.dropLast = true) ∨
        image.read p = none ∨ image.read p = some b := by
  have hf : m.mnt.isFile p = true := Fs.isFile_iff.mpr ⟨b, hb⟩
  have hr : m.mnt.read p = some b := Fs.read_eq_some.mpr hb
  have hx := replaced_file h hp hb
  have hpath : backupPath p ≠ [] := by
    rcases userPath_cases hp with ⟨name, rfl, -⟩ | rfl
    · rw [backupPath_txt]
      exact List.cons_ne_nil _ _
    · decide
  have himage : some (Node.file ((image.read p).getD b)) = some (.file b) ↔
      image.read p = none ∨ image.read p = some b := by
    cases image.read p with
    | none => simp
    | some c => simp
  have hdir : Fs.isDir (replaced image m.mnt) p = false := by
    refine Fs.not_isDir_of_file hx ?_
    rintro rfl
    exact absurd hp (by decide)
  rw [completed_user h hp, backup, hf, hr, Bool.true_and]
  cases hd : m.tmp.isDir (backupPath p) with
  | true =>
    -- there is no backup
    rw [if_neg (by simp), Fs.read_of_isDir hd hpath]
    show replaced image m.mnt p = _ ↔ _
    rw [hx, himage]
    simp
  | false =>
    rw [if_pos (by simp)]
    show Fs.write (replaced image m.mnt) p b p = _ ↔ _
    rw [Fs.write_at, hdir, hx]
    cases Fs.isDir (replaced image m.mnt) p.dropLast with
    | true => simp
    | false =>
      rw [Bool.false_and, if_neg Bool.false_ne_true, himage]
      simp

/-- Where the user has no file, the copy stays iff nothing else is restored over it. -/
theorem completed_new_iff (h : Continues image sed m) {p : List Line} (hp : isUserPath p = true)
    (hf : m.mnt.isFile p = false) :
    (run (fun m c => c.exec image sed m) m (installBoot false)).mnt p = replaced image m.mnt p ↔
      ∀ b, m.tmp.read (backupPath p) = some b → Fs.isDir (replaced image m.mnt) p.dropLast = true →
        Fs.isDir (replaced image m.mnt) p = false → image.read p = some b := by
  rw [completed_user h hp, backup, hf, Bool.false_and, if_neg Bool.false_ne_true]
  cases m.tmp.read (backupPath p) with
  | none => simp
  | some b =>
    show Fs.write (replaced image m.mnt) p b p = _ ↔ _
    rw [Fs.write_at, ← replaced_read image hp hf]
    cases Fs.isDir (replaced image m.mnt) p.dropLast with
    | false => simp
    | true =>
      cases Fs.isDir (replaced image m.mnt) p with
      | true => simp
      | false =>
        show some (Node.file b) = replaced image m.mnt p ↔ _
        rw [eq_comm, ← Fs.read_eq_some]
        simp

/-- At a path of the user, the update leaves what it is to leave iff it can be restored. -/
theorem completed_user_iff (h : Continues image sed m) {p : List Line} (hp : isUserPath p = true) :
    (run (fun m c => c.exec image sed m) m (installBoot false)).mnt p = law image m.mnt p ↔
      Restorable image m p := by
  rw [law, hp, Bool.true_and, Restorable]
  cases hf : m.mnt.isFile p with
  | true =>
    obtain ⟨b, hb⟩ := Fs.isFile_iff.mp hf
    rw [if_pos rfl, if_pos rfl, hb, Fs.read_eq_some.mpr hb]
    exact completed_file_iff h hp hb
  | false =>
    rw [if_neg Bool.false_ne_true, if_neg Bool.false_ne_true]
    exact completed_new_iff h hp hf

/-- If no command stops the script, the update leaves what it is to leave iff it can restore every
path of the user. -/
theorem install_result_iff (h : Continues image sed m) :
    (∀ p, (run (fun m c => c.exec image sed m) m (installBoot false)).mnt p = law image m.mnt p) ↔
      ∀ p, isUserPath p = true → Restorable image m p := by
  constructor
  · intro hlaw p hp
    exact (completed_user_iff h hp).mp (hlaw p)
  · intro hrestorable p
    cases hp : isUserPath p with
    | true => exact (completed_user_iff h hp).mpr (hrestorable p hp)
    | false =>
      have hlaw : law image m.mnt p = replaced image m.mnt p := by
        simp [law, hp]
      rw [hlaw, completed_other h hp]

end

/-! ## A stale backup -/

/-- A tree of these files, in directories as needed. -/
def ofFiles (fs : List (List Line × Nat)) : Fs Line Nat := fun p =>
  match fs.find? (·.1 = p) with
  | some (_, b) => some (.file b)
  | none => if fs.any (p.isPrefixOf ·.1) then some .dir else none

/-- A boot partition with `config.txt`, the environment of GRUB and an overlay. -/
def bootFiles : Fs Line Nat :=
  ofFiles [(["config.txt".toList], 1), (grubenv, 2), ([overlays, "old.dtbo".toList], 3)]

/-- A `BOOT_TMP` that holds a `name` already. -/
def leftover (name : String) : Machine Nat where
  mnt := bootFiles
  tmp := ofFiles [([name.toList], 4)]
  new := fun _ => none

/-- The image has a `config.txt` and a `grubenv` of its own, and a kernel. -/
def bootImage : Fs Line Nat :=
  ofFiles [(["config.txt".toList], 5), (grubenv, 6), (["kernel.img".toList], 7)]

/-- The tree has no path but these. -/
def Held (fs : Fs Line β) (ps : List (List Line)) : Prop := ∀ p, fs p ≠ none → p ∈ ps

theorem held_ofFiles (fs : List (List Line × Nat)) :
    Held (ofFiles fs) (fs.flatMap (·.1.inits)) := by
  intro p h
  rw [List.mem_flatMap]
  unfold ofFiles at h
  split at h
  · rename_i q b hf
    have hp : q = p := by
      simpa using List.find?_some hf
    exact ⟨(q, b), List.mem_of_find?_eq_some hf, (List.mem_inits _ _).mpr (hp ▸ List.prefix_rfl)⟩
  · split at h
    · rename_i ha
      obtain ⟨f, hf, hp⟩ := List.any_eq_true.mp ha
      exact ⟨f, hf, (List.mem_inits _ _).mpr (List.isPrefixOf_iff_prefix.mp hp)⟩
    · exact absurd rfl h

section

variable {src dst : Fs Line β} {ps qs : List (List Line)}

theorem Held.copyTxt (hs : Held src ps) (hd : Held dst qs) : Held (copyTxt src dst) (ps ++ qs) := by
  intro p h
  rw [List.mem_append]
  by_cases hp : src p = none
  · have he : Hook.copyTxt src dst p = dst p := by
      match p, hp with
      | [], _ | _ :: _ :: _, _ => rfl
      | [name], hp => simp [Hook.copyTxt, Fs.read, hp]
    exact .inr (hd p (he ▸ h))
  · exact .inl (hs p hp)

theorem Held.copyFile (hd : Held dst ps) (src : Fs Line β) (p q : List Line) :
    Held (copyFile src p dst q) (q :: ps) := by
  intro r h
  by_cases hr : r = q
  · exact hr ▸ List.mem_cons_self
  · exact List.mem_cons_of_mem _ (hd r (copyFile_ne hr src dst p ▸ h))

/-- `CopiesTxt`, on the paths of the tree. -/
theorem Held.copiesTxt (h : Held src ps)
    (hn : ∃ p ∈ ps, p.length = 1 ∧ isUserPath p = true ∧ src p ≠ none)
    (hp : ∀ p ∈ ps, p.length = 1 → isUserPath p = true → src p ≠ some .dir ∧ dst.isDir p = false) :
    CopiesTxt src dst := by
  obtain ⟨q, -, hlen, hu, hq⟩ := hn
  obtain ⟨name, rfl⟩ := List.length_eq_one_iff.mp hlen
  refine ⟨⟨name, hu, hq⟩, fun name ht => ?_⟩
  by_cases hs : src [name] = none
  · rw [Fs.isFile, hs]
    exact ⟨fun hd => absurd hd.symm (Option.some_ne_none _), fun hf => absurd hf Bool.false_ne_true⟩
  · obtain ⟨h1, h2⟩ := hp [name] (h _ hs) rfl ht
    exact ⟨h1, fun _ => h2⟩

/-- `Conflict`, on the paths of the image. -/
theorem Held.noConflict (h : Held src ps)
    (hp : ∀ p ∈ ps, src.isFile p = true ∧ dst p ≠ some .dir ∨ src p = some .dir ∧ dst.isFile p = false) :
    ¬ Conflict src dst := by
  rintro ⟨name, p, -, ⟨hs, b, hd⟩ | ⟨⟨b, hs⟩, hd⟩⟩
  · rcases hp (name :: p) (h _ (by simp [hs])) with ⟨hf, -⟩ | ⟨-, hf⟩
    · simp [Fs.isFile, hs] at hf
    · simp [Fs.isFile, hd] at hf
  · rcases hp (name :: p) (h _ (by simp [hs])) with ⟨-, hf⟩ | ⟨hf, -⟩
    · exact hf hd
    · simp [hs] at hf

end

/-- Every command exits 0, whatever the name of the file in `BOOT_TMP`. -/
theorem leftover_completes {name : String} (h : name = "config.txt" ∨ name = "stale.txt") :
    Completes bootImage id (leftover name) := by
  have hmnt : Held (leftover name).mnt _ := held_ofFiles _
  have htmp : Held (leftover name).tmp _ := held_ofFiles _
  have himage : Held bootImage _ := held_ofFiles _
  have hbacked : Held (backedUp (leftover name)) _ := Held.copyFile (hmnt.copyTxt htmp) _ _ _
  have hold : ∀ p ∈ [["config.txt".toList], grubenv, [overlays, "old.dtbo".toList]].flatMap List.inits,
      p.length = 2 → p.head? = some overlays → bootFiles p ≠ some .dir := by
    decide +kernel
  rw [completes_iff]
  refine ⟨?_, ?_, ?_, ⟨⟨"config.txt".toList, by decide, by decide +kernel⟩, ?_⟩, ?_, ?_⟩
  · intro file _ hd
    exact hold [overlays, file] (hmnt _ (by simp [hd])) rfl rfl hd
  · rcases h with rfl | rfl <;> exact hmnt.copiesTxt (by decide +kernel) (by decide +kernel)
  · rcases h with rfl | rfl <;> decide +kernel
  · rcases h with rfl | rfl <;> exact himage.noConflict (by decide +kernel)
  · rcases h with rfl | rfl <;> exact hbacked.copiesTxt (by decide +kernel) (by decide +kernel)
  · rcases h with rfl | rfl <;> decide +kernel

/-- A board with U-Boot has no environment of GRUB, so that two copies fail. Its `config.txt` is in
`BOOT_TMP` from before, too. -/
def uBootFiles : Fs Line Nat :=
  ofFiles [(["config.txt".toList], 1), ([overlays, "old.dtbo".toList], 3)]

def uBoot : Machine Nat where
  mnt := uBootFiles
  tmp := ofFiles [(["config.txt".toList], 4)]
  new := fun _ => none

def uBootImage : Fs Line Nat := ofFiles [(["config.txt".toList], 5), (["kernel.img".toList], 7)]

theorem uBoot_continues : Continues uBootImage id uBoot := by
  have himage : Held uBootImage _ := held_ofFiles _
  refine continues_iff.mpr ⟨⟨"config.txt".toList, by decide, by decide +kernel⟩, ?_⟩
  exact himage.noConflict (by decide +kernel)

theorem install_result_uBoot :
    Continues uBootImage id uBoot ∧
      ∀ p, (run (fun m c => c.exec uBootImage id m) uBoot (installBoot false)).mnt p =
        law uBootImage uBootFiles p := by
  have hmnt : Held uBoot.mnt _ := held_ofFiles _
  have htmp : Held uBoot.tmp _ := held_ofFiles _
  have hfile : ∀ p, isUserPath p = true → (uBoot.mnt.isFile p = true ↔ p = ["config.txt".toList]) := by
    have hall : ∀ p ∈ [["config.txt".toList], [overlays, "old.dtbo".toList]].flatMap List.inits,
        isUserPath p = true → uBoot.mnt.isFile p = true → p = ["config.txt".toList] := by
      decide +kernel
    refine fun p hp => ⟨fun hf => hall p (hmnt p fun hn => ?_) hp hf, fun he => ?_⟩
    · rw [Fs.isFile, hn] at hf
      cases hf
    · rw [he]
      decide +kernel
  refine ⟨uBoot_continues, (install_result_iff uBoot_continues).mpr fun p hp => ?_⟩
  rw [Restorable]
  split
  · rename_i hf
    rw [(hfile p hp).mp hf]
    exact .inl ⟨by decide +kernel, Fs.isDir_nil⟩
  · rename_i hf
    intro b hb
    have hall : ∀ q ∈ [["config.txt".toList]].flatMap List.inits,
        uBoot.tmp.isFile q = true → q = ["config.txt".toList] := by
      decide +kernel
    have hq := hall _ (htmp (backupPath p) (by simp [Fs.read_eq_some.mp hb]))
      (Fs.isFile_iff.mpr ⟨b, Fs.read_eq_some.mp hb⟩)
    rcases userPath_cases hp with ⟨name, rfl, -⟩ | rfl
    · rw [backupPath_txt] at hq
      exact absurd ((hfile _ hp).mpr hq) hf
    · exact absurd hq (by decide)

/-- The backup of an update that was killed ends up on the boot partition. -/
theorem stale_restored : ¬ ∀ (m : Machine Nat) (image : Fs Line Nat), Completes image id m →
    ∀ p, (run (fun m c => c.exec image id m) m (installBoot false)).mnt p = law image m.mnt p := by
  intro h
  have hp := h (leftover "stale.txt") bootImage (leftover_completes (.inr rfl)) ["stale.txt".toList]
  exact absurd hp (by decide +kernel)

end HassOS.Hook
