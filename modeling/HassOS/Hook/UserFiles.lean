import HassOS.Hook.BootResult

/-!
# The user's files after a failed update

`install_boot` on boards other than the Raspberry Pi 5, for every choice of
which commands fail and of what these leave. What restores the user's files
comes after the copy of the image, which stops the script if it fails; and
neither a failed backup nor a failed restore stops it. `kept_iff` says for
every such run which files keep their bytes.
-/

namespace HassOS.Hook

open Framework

variable {β : Type}

/-- The commands under `set -o errexit`. -/
def Cmd.shell (image : Fs Line β) (sed : β → β) : Shell Cmd (Machine β) where
  exec c m := c.exec image sed m
  Succeeds := Cmd.Succeeds
  Fails := Cmd.Fails
  tolerated := Cmd.tolerated

/-- A file of the user. It lies in a directory, as every file does. -/
def isUserFile (fs : Fs Line β) (p : List Line) : Bool :=
  isUserPath p && fs.isFile p && fs.isDir p.dropLast

/-- The commands before the backup that stop the script if they fail. -/
def early : List Cmd := [.mkdirTmp, .mkdirNew, .startMount, .mountImage]

/-- The commands that make the backup and restore it. -/
def backupOf (p : List Line) : Cmd := if p = grubenv then .backupGrubenv else .backupTxt
def restoreOf (p : List Line) : Cmd := if p = grubenv then .restoreGrubenv else .restoreTxt

/-- The backup of the file, after the commands that make it. -/
def saved (m : Machine β) (fail : Cmd → Option (Machine β)) (p : List Line) : Option β :=
  match fail (backupOf p) with
  | some t => t.tmp.read (backupPath p)
  | none => if m.tmp.isDir (backupPath p) then none else m.mnt.read p

/-- The script stops before it copies the image, or that copy fails and leaves
the file as it was; or else the restore fails and leaves the file as it was, or
there is a backup of the same bytes, or no backup, and no other file of that
name in the image. -/
def Survives (image : Fs Line β) (m : Machine β) (fail : Cmd → Option (Machine β))
    (p : List Line) : Prop :=
  (∃ c ∈ early, fail c ≠ none) ∨
    match fail .copyImage, fail (restoreOf p), saved m fail p with
    | some t, _, _ => t.mnt p = m.mnt p
    | none, some t, _ => t.mnt p = m.mnt p
    | none, none, some b => m.mnt.read p = some b
    | none, none, none => ∀ b, image.read p = some b → m.mnt.read p = some b

section

variable {image : Fs Line β} {sed : β → β} {m : Machine β} {fail : Cmd → Option (Machine β)}
  {p : List Line}

/-! ## Until the image is copied -/

/-- If one of these stops the script, the boot partition is as it was. -/
theorem stopped_early (h : CanFail (Cmd.shell image sed) fail (installBoot false) m)
    (he : ∃ c ∈ early, fail c ≠ none) :
    (runFailing (Cmd.shell image sed) fail (installBoot false) m).2.mnt = m.mnt := by
  have hkeep : ∀ c ∈ early, ∀ s : Machine β, s.mnt = m.mnt →
      (c.exec image sed s).mnt = m.mnt ∧ ∀ t, c.Fails s t → t.mnt = m.mnt := by
    intro c hc s hs
    simp only [early, List.mem_cons, List.not_mem_nil, or_false] at hc
    rcases hc with rfl | rfl | rfl | rfl
    · exact ⟨hs, fun t ht => (congrArg Machine.mnt ht).trans hs⟩
    · exact ⟨hs, fun t ht => (congrArg Machine.mnt ht).trans hs⟩
    · exact ⟨hs, fun t ht => (congrArg Machine.mnt ht).trans hs⟩
    · exact ⟨hs, fun t ht => ht.1.trans hs⟩
  have ht : ∀ c ∈ early, c.tolerated = false := by
    decide
  exact failing_keeps (I := fun s : Machine β => s.mnt = m.mnt) ht hkeep he rfl h

/-- The state in which the copy of the image starts. -/
structure Before (image : Fs Line β) (fail : Cmd → Option (Machine β)) (m t : Machine β) : Prop where
  mnt : ∀ p, ¬ [overlays] <+: p → t.mnt p = m.mnt p
  new : t.new = image
  tmp : ∀ p, isUserPath p = true → m.mnt.isFile p = true →
    t.tmp.read (backupPath p) = saved m fail p

theorem not_overlays {p : List Line} (h : isUserPath p = true) :
    ¬ [overlays] <+: p ∧ ¬ [overlays] <+: p.dropLast := by
  rcases userPath_cases h with ⟨name, rfl, ht⟩ | rfl
  · refine ⟨?_, by simp⟩
    rw [List.cons_prefix_cons]
    rintro ⟨rfl, -⟩
    exact absurd ht (by decide)
  · decide

theorem after_rmOverlays {cs : List Cmd} {s : Machine β}
    (h : CanFail (Cmd.shell image sed) fail (.rmOverlays :: cs) s) :
    (∀ p, ¬ [overlays] <+: p → (after (Cmd.shell image sed) fail .rmOverlays s).mnt p = s.mnt p) ∧
      (after (Cmd.shell image sed) fail .rmOverlays s).tmp = s.tmp ∧
      (after (Cmd.shell image sed) fail .rmOverlays s).new = s.new := by
  rw [after]
  rcases h.head with ⟨hc, -⟩ | ⟨t, hc, hf, htmp, hnew⟩
  · rw [hc]
    refine ⟨fun p hp => ?_, rfl, rfl⟩
    have ho : isOverlay s.mnt p = false := by
      rcases p with _ | ⟨dir, _ | ⟨name, _ | ⟨_, _⟩⟩⟩
      · rfl
      · rfl
      · have hdir : dir ≠ overlays := by
          rintro rfl
          exact hp (List.prefix_append _ _)
        simp [isOverlay, hdir]
      · rfl
    show removeFiles overlays s.mnt p = s.mnt p
    rw [removeFiles_eq, ho]
    rfl
  · rw [hc]
    exact ⟨fun p hp => (hf p).resolve_right fun h => hp h.1, htmp, hnew⟩

theorem after_backupTxt {cs : List Cmd} {s : Machine β}
    (h : CanFail (Cmd.shell image sed) fail (.backupTxt :: cs) s) :
    (after (Cmd.shell image sed) fail .backupTxt s).mnt = s.mnt ∧
      (after (Cmd.shell image sed) fail .backupTxt s).new = s.new ∧
      (after (Cmd.shell image sed) fail .backupTxt s).tmp tmpGrubenv = s.tmp tmpGrubenv ∧
      ∀ name, isTxt name = true → s.mnt.isFile [name] = true →
        (after (Cmd.shell image sed) fail .backupTxt s).tmp.read [name] = saved s fail [name] := by
  have hc : ∀ name : Line, backupOf [name] = .backupTxt := fun name => if_neg (by simp [grubenv])
  have hp : ∀ name : Line, backupPath [name] = [name] := fun name => if_neg (by simp [grubenv])
  simp only [after, saved, hc, hp]
  rcases h.head with ⟨he, -⟩ | ⟨t, he, hf, hmnt, hnew⟩
  · rw [he]
    refine ⟨rfl, rfl, copyTxt_other (by decide) _ _, fun name ht hfile => ?_⟩
    obtain ⟨b, hb⟩ := Fs.isFile_iff.mp hfile
    have hr : s.mnt.read [name] = some b := Fs.read_eq_some.mpr hb
    show (copyTxt s.mnt s.tmp).read [name] = _
    rw [Fs.read, copyTxt_txt ht, hr]
    cases hd : s.tmp.isDir [name] with
    | false => simp
    | true =>
      have hd' : s.tmp [name] = some .dir := by
        rw [Fs.isDir] at hd
        split at hd <;> simp_all
      simp [hd']
  · rw [he]
    refine ⟨hmnt, hnew, hf _ ?_, fun _ _ _ => rfl⟩
    rintro ⟨name, hn, ht, -⟩
    obtain ⟨rfl, -⟩ := List.cons.inj hn
    exact absurd ht (by decide)

theorem after_backupGrubenv {cs : List Cmd} {s : Machine β}
    (h : CanFail (Cmd.shell image sed) fail (.backupGrubenv :: cs) s) :
    (after (Cmd.shell image sed) fail .backupGrubenv s).mnt = s.mnt ∧
      (after (Cmd.shell image sed) fail .backupGrubenv s).new = s.new ∧
      (∀ p, p ≠ tmpGrubenv → (after (Cmd.shell image sed) fail .backupGrubenv s).tmp p = s.tmp p) ∧
      (s.mnt.isFile grubenv = true →
        (after (Cmd.shell image sed) fail .backupGrubenv s).tmp.read tmpGrubenv = saved s fail grubenv) := by
  have hc : backupOf grubenv = .backupGrubenv := if_pos rfl
  have hp : backupPath grubenv = tmpGrubenv := if_pos rfl
  simp only [after, saved, hc, hp]
  rcases h.head with ⟨he, -⟩ | ⟨t, he, hf, hmnt, hnew⟩
  · rw [he]
    refine ⟨rfl, rfl, fun p hp => copyFile_ne hp _ _ _, fun hfile => ?_⟩
    obtain ⟨b, hb⟩ := Fs.isFile_iff.mp hfile
    have hr : s.mnt.read grubenv = some b := Fs.read_eq_some.mpr hb
    show (copyFile s.mnt grubenv s.tmp tmpGrubenv).read tmpGrubenv = _
    rw [copyFile, hr]
    cases hd : s.tmp.isDir tmpGrubenv with
    | false => exact Fs.read_eq_some.mpr (Fs.write_self Fs.isDir_nil hd)
    | true =>
      have hd' : s.tmp tmpGrubenv = some .dir := by
        rw [Fs.isDir] at hd
        split at hd <;> simp_all [tmpGrubenv]
      simp [Fs.write, Fs.read, hd, hd']
  · rw [he]
    exact ⟨hmnt, hnew, hf, fun _ => rfl⟩

theorem saved_congr {s : Machine β} (htmp : s.tmp (backupPath p) = m.tmp (backupPath p))
    (hmnt : s.mnt p = m.mnt p) : saved s fail p = saved m fail p := by
  have hd : s.tmp.isDir (backupPath p) = m.tmp.isDir (backupPath p) := by
    rw [Fs.isDir, Fs.isDir, htmp]
  have hr : s.mnt.read p = m.mnt.read p := by
    rw [Fs.read, Fs.read, hmnt]
  rw [saved, saved, hd, hr]

/-- The overlays are gone, and the backup is made, or is not. -/
theorem before_copy (h : CanFail (Cmd.shell image sed) fail (installBoot false) m)
    (he : ∀ c ∈ early, fail c = none) :
    ∃ t, Before image fail m t ∧
      CanFail (Cmd.shell image sed) fail [.copyImage, .restoreTxt, .restoreGrubenv] t ∧
      runFailing (Cmd.shell image sed) fail (installBoot false) m =
        runFailing (Cmd.shell image sed) fail [.copyImage, .restoreTxt, .restoreGrubenv] t := by
  obtain ⟨hrun, hcan⟩ := failing_append (s := m) he
    [.rmOverlays, .backupTxt, .backupGrubenv, .copyImage, .restoreTxt, .restoreGrubenv]
  have h₁ : CanFail (Cmd.shell image sed) fail
      [.rmOverlays, .backupTxt, .backupGrubenv, .copyImage, .restoreTxt, .restoreGrubenv]
      { m with new := image } := hcan h
  have h₂ := h₁.tolerated rfl
  have h₃ := h₂.tolerated rfl
  have h₄ := h₃.tolerated rfl
  obtain ⟨hmnt₂, htmp₂, hnew₂⟩ := after_rmOverlays h₁
  obtain ⟨hmnt₃, hnew₃, henv₃, htxt₃⟩ := after_backupTxt h₂
  obtain ⟨hmnt₄, hnew₄, hother₄, henv₄⟩ := after_backupGrubenv h₃
  refine ⟨_, ⟨fun p hp => ?_, ?_, ?_⟩, h₄, ?_⟩
  · rw [hmnt₄, hmnt₃, hmnt₂ p hp]
  · rw [hnew₄, hnew₃, hnew₂]
  · intro p hp hf
    have hp₂ := hmnt₂ p (not_overlays hp).1
    rcases userPath_cases hp with ⟨name, rfl, ht⟩ | rfl
    · have hpath : backupPath [name] = [name] := if_neg (by simp [grubenv])
      have hne : [name] ≠ tmpGrubenv := by
        rintro ⟨⟩
        exact absurd ht (by decide)
      rw [hpath, Fs.read, hother₄ _ hne, ← Fs.read, htxt₃ name ht (by rw [Fs.isFile, hp₂]; exact hf)]
      exact saved_congr (by rw [htmp₂]) hp₂
    · have hpath : backupPath grubenv = tmpGrubenv := if_pos rfl
      rw [hpath, henv₄ (by rw [Fs.isFile, hmnt₃, hp₂]; exact hf)]
      exact saved_congr (by rw [hpath, henv₃, htmp₂]) (by rw [hmnt₃, hp₂])
  · rw [← runFailing_tolerated rfl, ← runFailing_tolerated rfl, ← runFailing_tolerated rfl]
    exact hrun

/-! ## After the copy -/

theorem after_restoreTxt {cs : List Cmd} {s : Machine β}
    (h : CanFail (Cmd.shell image sed) fail (.restoreTxt :: cs) s) :
    (after (Cmd.shell image sed) fail .restoreTxt s).tmp = s.tmp ∧
      (∀ p, (∀ name, p = [name] → isTxt name = false) →
        (after (Cmd.shell image sed) fail .restoreTxt s).mnt p = s.mnt p) ∧
      ∀ name, isTxt name = true → s.mnt.isFile [name] = true →
        (after (Cmd.shell image sed) fail .restoreTxt s).mnt [name] =
          match fail .restoreTxt, s.tmp.read [name] with
          | some t, _ => t.mnt [name]
          | none, some b => some (.file b)
          | none, none => s.mnt [name] := by
  rw [after]
  rcases h.head with ⟨he, -⟩ | ⟨t, he, hf, htmp, -⟩
  · rw [he]
    refine ⟨rfl, fun p hp => copyTxt_ne hp _ _, fun name ht hfile => ?_⟩
    obtain ⟨c, hc⟩ := Fs.isFile_iff.mp hfile
    have hd : s.mnt.isDir [name] = false := Fs.not_isDir_of_file hc (by simp)
    show copyTxt s.tmp s.mnt [name] = _
    rw [copyTxt_txt ht, hd]
    cases s.tmp.read [name] <;> rfl
  · rw [he]
    refine ⟨htmp, fun p hp => hf p ?_, fun _ _ _ => rfl⟩
    rintro ⟨name, hn, ht, -⟩
    rw [hp name hn] at ht
    cases ht

theorem after_restoreGrubenv {cs : List Cmd} {s : Machine β}
    (h : CanFail (Cmd.shell image sed) fail (.restoreGrubenv :: cs) s) :
    (∀ p, p ≠ grubenv → (after (Cmd.shell image sed) fail .restoreGrubenv s).mnt p = s.mnt p) ∧
      (s.mnt.isFile grubenv = true → s.mnt.isDir grubenv.dropLast = true →
        (after (Cmd.shell image sed) fail .restoreGrubenv s).mnt grubenv =
          match fail .restoreGrubenv, s.tmp.read tmpGrubenv with
          | some t, _ => t.mnt grubenv
          | none, some b => some (.file b)
          | none, none => s.mnt grubenv) := by
  rw [after]
  rcases h.head with ⟨he, -⟩ | ⟨t, he, hf, -⟩
  · rw [he]
    refine ⟨fun p hp => copyFile_ne hp _ _ _, fun hfile hdir => ?_⟩
    obtain ⟨c, hc⟩ := Fs.isFile_iff.mp hfile
    show copyFile s.tmp tmpGrubenv s.mnt grubenv grubenv = _
    rw [copyFile]
    cases s.tmp.read tmpGrubenv with
    | none => rfl
    | some b => exact Fs.write_self hdir (Fs.not_isDir_of_file hc (by decide))
  · rw [he]
    exact ⟨hf, fun _ _ => rfl⟩

/-- What the last two commands leave at a file of the user. -/
theorem restored {s : Machine β}
    (h : CanFail (Cmd.shell image sed) fail [.restoreTxt, .restoreGrubenv] s)
    (hp : isUserFile s.mnt p = true) :
    (runFailing (Cmd.shell image sed) fail [.restoreTxt, .restoreGrubenv] s).2.mnt p =
      match fail (restoreOf p), s.tmp.read (backupPath p) with
      | some t, _ => t.mnt p
      | none, some b => some (.file b)
      | none, none => s.mnt p := by
  simp only [isUserFile, Bool.and_eq_true] at hp
  obtain ⟨⟨hu, hf⟩, hd⟩ := hp
  rw [runFailing_tolerated rfl, runFailing_tolerated rfl]
  obtain ⟨htmp, hother, htxt⟩ := after_restoreTxt h
  obtain ⟨hother', henv⟩ := after_restoreGrubenv (h.tolerated rfl)
  rcases userPath_cases hu with ⟨name, rfl, ht⟩ | rfl
  · have hne : [name] ≠ grubenv := by
      simp [grubenv]
    have hpath : backupPath [name] = [name] := if_neg hne
    have hof : restoreOf [name] = .restoreTxt := if_neg hne
    rw [hpath, hof, ← htxt name ht hf]
    exact hother' _ hne
  · have hpath : backupPath grubenv = tmpGrubenv := if_pos rfl
    have hof : restoreOf grubenv = .restoreGrubenv := if_pos rfl
    have hs := hother grubenv (by simp [grubenv])
    have hs' := hother grubenv.dropLast (by simp [grubenv])
    rw [hpath, hof, ← htmp, ← hs]
    exact henv (by rw [Fs.isFile, hs]; exact hf) (by rw [Fs.isDir, hs']; exact hd)

theorem copyAll_isDir {dst : Fs Line β} (h : dst.isDir p = true) :
    (copyAll image dst).isDir p = true := by
  cases p with
  | nil => exact Fs.isDir_nil
  | cons name q =>
    have hd : dst (name :: q) = some .dir := by
      rw [Fs.isDir] at h
      split at h
      · assumption
      · cases h
    rw [Fs.isDir, copyAll, hd, copyNode_dir, ite_self]

/-! ## Which files are kept -/

theorem kept_iff (h : CanFail (Cmd.shell image sed) fail (installBoot false) m)
    (hp : isUserFile m.mnt p = true) :
    (runFailing (Cmd.shell image sed) fail (installBoot false) m).2.mnt p = m.mnt p ↔
      Survives image m fail p := by
  have hp' := hp
  simp only [isUserFile, Bool.and_eq_true] at hp'
  obtain ⟨⟨hu, hf⟩, hd⟩ := hp'
  obtain ⟨b, hb⟩ := Fs.isFile_iff.mp hf
  have hr : m.mnt.read p = some b := Fs.read_eq_some.mpr hb
  by_cases he : ∃ c ∈ early, fail c ≠ none
  · rw [stopped_early h he]
    exact iff_of_true rfl (.inl he)
  have he' : ∀ c ∈ early, fail c = none := by
    simpa using he
  obtain ⟨t, ⟨hmnt, hnew, htmp⟩, hcan, hrun⟩ := before_copy h he'
  rw [Survives, or_iff_right he, hrun, hr, hb]
  have hmntp : t.mnt p = some (.file b) := (hmnt p (not_overlays hu).1).trans hb
  cases hc : fail .copyImage with
  | some u =>
    rw [runFailing, hc]
    rfl
  | none =>
    rw [CanFail, hc] at hcan
    let s : Machine β := { t with mnt := copyAll t.new t.mnt }
    have hs : s.mnt p = some (.file ((image.read p).getD b)) := by
      rw [← hnew]
      exact copyAll_file hu hmntp
    have hs' : isUserFile s.mnt p = true := by
      have hdir : t.mnt.isDir p.dropLast = true := by
        rw [Fs.isDir, hmnt _ (not_overlays hu).2]
        exact hd
      simp only [isUserFile, Bool.and_eq_true]
      exact ⟨⟨hu, Fs.isFile_iff.mpr ⟨_, hs⟩⟩, copyAll_isDir hdir⟩
    have htmp' : s.tmp.read (backupPath p) = saved m fail p := htmp p hu hf
    have hlast := restored (s := s) hcan.2 hs'
    rw [htmp', hs] at hlast
    have hfirst : (runFailing (Cmd.shell image sed) fail
        [.copyImage, .restoreTxt, .restoreGrubenv] t).2.mnt p =
        (runFailing (Cmd.shell image sed) fail [.restoreTxt, .restoreGrubenv] s).2.mnt p := by
      rw [runFailing, hc]
      rfl
    rw [hfirst, hlast]
    cases fail (restoreOf p) with
    | some u => exact Iff.rfl
    | none =>
      cases saved m fail p with
      | some c => simp [eq_comm]
      | none => cases image.read p <;> simp [eq_comm]

/-- After a run in which some commands fail, every file of the user has its
old bytes iff each survives. -/
theorem install_keeps_iff (h : CanFail (Cmd.shell image sed) fail (installBoot false) m) :
    (∀ p, isUserFile m.mnt p = true →
      (runFailing (Cmd.shell image sed) fail (installBoot false) m).2.mnt p = m.mnt p) ↔
      ∀ p, isUserFile m.mnt p = true → Survives image m fail p :=
  forall₂_congr fun _ hp => kept_iff h hp

/-- The ways the process can end are those in which some commands fail. -/
theorem installBoot_ends {o : Outcome} {m' : Machine β} :
    (Stops (Cmd.shell image sed) (installBoot false) m o m' ∧ o ≠ .cut) ↔
      ∃ fail, CanFail (Cmd.shell image sed) fail (installBoot false) m ∧
        runFailing (Cmd.shell image sed) fail (installBoot false) m = (o, m') :=
  stops_iff_failing (by decide)

end

/-! ## A copy that fails -/

/-- The disk is full once the kernel is copied. -/
def onlyKernel (c : Cmd) : Option (Machine Nat) :=
  let s := run (fun m c => c.exec bootImage id m) (leftover "config.txt") ((installBoot false).take 7)
  if c = .copyImage then some { s with mnt := s.mnt.write ["kernel.img".toList] 7 } else none

/-- The copy of the image fails before it comes to a file of the user. -/
theorem install_keeps_leftover :
    CanFail (Cmd.shell bootImage id) onlyKernel (installBoot false) (leftover "config.txt") ∧
      ∀ p, isUserFile bootFiles p = true →
        (runFailing (Cmd.shell bootImage id) onlyKernel (installBoot false)
          (leftover "config.txt")).2.mnt p = bootFiles p := by
  let s := run (fun m c => c.exec bootImage id m) (leftover "config.txt") ((installBoot false).take 7)
  have hfails : Cmd.Fails .copyImage s { s with mnt := s.mnt.write ["kernel.img".toList] 7 } := by
    refine ⟨fun p hp => ?_, rfl, rfl⟩
    have hne : p ≠ ["kernel.img".toList] := by
      rintro rfl
      exact hp ⟨_, [], rfl, by decide, by decide +kernel⟩
    show s.mnt.write ["kernel.img".toList] 7 p = s.mnt p
    exact Fs.write_ne hne
  have hcan : CanFail (Cmd.shell bootImage id) onlyKernel (installBoot false) (leftover "config.txt") :=
    ⟨trivial, trivial, trivial, trivial, trivial, trivial, trivial, hfails, nofun⟩
  refine ⟨hcan, (install_keeps_iff hcan).mpr fun p hp => .inr ?_⟩
  have hu : isUserPath p = true := by
    simp only [isUserFile, Bool.and_eq_true] at hp
    exact hp.1.1
  have hne : p ≠ ["kernel.img".toList] := by
    rintro rfl
    exact absurd hu (by decide)
  show s.mnt.write ["kernel.img".toList] 7 p = bootFiles p
  rw [Fs.write_ne hne]
  show removeFiles overlays bootFiles p = bootFiles p
  rw [removeFiles_eq, notOverlay hu]
  rfl

/-- The disk is full once `config.txt` is copied. -/
def full (s : Machine Nat) : Machine Nat := { s with mnt := s.mnt.write ["config.txt".toList] 5 }

/-- A failed copy of the image leaves its `config.txt` in place of the user's. -/
theorem config_lost : ¬ ∀ (image : Fs Line Nat) (m : Machine Nat) (fail : Cmd → Option (Machine Nat)),
    CanFail (Cmd.shell image id) fail (installBoot false) m →
    ∀ p, isUserFile m.mnt p = true →
      (runFailing (Cmd.shell image id) fail (installBoot false) m).2.mnt p = m.mnt p := by
  intro h
  let m : Machine Nat := { mnt := bootFiles, tmp := fun _ => none, new := fun _ => none }
  let s := run (fun m c => c.exec bootImage id m) m ((installBoot false).take 7)
  let fail : Cmd → Option (Machine Nat) := fun c => if c = .copyImage then some (full s) else none
  have hfails : Cmd.Fails .copyImage s (full s) := by
    refine ⟨fun p hp => ?_, rfl, rfl⟩
    have hne : p ≠ ["config.txt".toList] := by
      rintro rfl
      exact hp ⟨_, [], rfl, by decide, by decide +kernel⟩
    show s.mnt.write ["config.txt".toList] 5 p = s.mnt p
    exact Fs.write_ne hne
  have hcan : CanFail (Cmd.shell bootImage id) fail (installBoot false) m :=
    ⟨trivial, trivial, trivial, trivial, trivial, trivial, trivial, hfails, nofun⟩
  have hp := h bootImage m fail hcan ["config.txt".toList] (by decide +kernel)
  exact absurd hp (by decide +kernel)

end HassOS.Hook
