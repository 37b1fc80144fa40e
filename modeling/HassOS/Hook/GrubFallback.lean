import HassOS.Framework.Run
import HassOS.Grub.Valid
import HassOS.Hook.InstallBoot

/-!
# Interrupted installations on GRUB boards

An installation into the slot that does not run, cut by a power loss, and the
next run of `grub.cfg` (`nextDefault`). Between the copy of the image over the
boot partition and the restoring of `grubenv`, the block on disk is that of
the factory, which starts slot A: so the running slot is kept at every cut if
it is slot A, and at every cut outside that window otherwise (`falls_back_iff`).
No other step but the marking of the slot changes the block (`View.exec_quiet`).
-/

namespace HassOS.Hook

open Framework Grub

/-- What the files of the boot partition hold. -/
inductive Content where
  | text (t : Text)
  /-- A GRUB environment block. -/
  | env (b : Block)

/-- The block that GRUB finds. -/
def blockOf (fs : Fs Line Content) : Block :=
  match fs.read grubenv with
  | some (.env b) => b
  | _ => emptyBlock

/-- The value of `default` in the next run of `grub.cfg`. -/
def nextDefault (m : Machine Content) : Option Int := (grubCfg (blockOf m.mnt)).1

/-- The steps of an installation, up to the one that sets the slot primary. The
bundle of a GRUB board has no hook for its kernel. -/
inductive Step where
  /-- `T_OK=0` and `T_TRY=0`. -/
  | markBad (T : Slot)
  | hook (c : Cmd)
  /-- The images of the kernel and of the root file system. -/
  | writeKernel
  | writeRootfs
  deriving DecidableEq

def installation (T : Slot) : List Step :=
  .markBad T :: (installBoot false).map .hook ++ [.writeKernel, .writeRootfs]

def Step.exec (image : Fs Line Content) (m : Machine Content) : Step → Machine Content
  | .markBad T => { m with mnt := m.mnt.write grubenv (.env ((blockOf m.mnt).mark T 0)) }
  | .hook c => c.exec image id m
  | .writeKernel | .writeRootfs => m

/-- The state after the first `n` steps. -/
def cutAt (image : Fs Line Content) (T : Slot) (m : Machine Content) (n : Nat) : Machine Content :=
  run (Step.exec image) m ((installation T).take n)

/-- `EFI/BOOT/grubenv` holds the block `b`. -/
structure HasBlock (fs : Fs Line Content) (b : Block) : Prop where
  file : fs grubenv = some (.file (.env b))
  dir : fs grubenv.dropLast = some .dir

/-- Slot `P` runs: it is good, has no failed attempts and stands first. -/
def Healthy (b : Block) (P : Slot) : Prop :=
  (loadEnv b).ok P = 1 ∧ (loadEnv b).tries P = 0 ∧ (loadEnv b).order.head? = some P.name

instance (b : Block) (P : Slot) : Decidable (Healthy b P) :=
  inferInstanceAs (Decidable (_ ∧ _ ∧ _))

/-- The block of a boot image: `ORDER="A B"`, `A_OK=1`, `A_TRY=0`. -/
def OfFactory (b : Block) : Prop :=
  b.order = some [Slot.A.name, Slot.B.name] ∧ b.ok .A = some 1 ∧ b.tries .A = some 0

instance (b : Block) : Decidable (OfFactory b) :=
  inferInstanceAs (Decidable (_ ∧ _ ∧ _))

/-! ## Which slot a block starts -/

theorem default_healthy {b : Block} {P : Slot} (h : Healthy b P) : (grubCfg b).1 = some (index P) := by
  obtain ⟨hok, ht, ho⟩ := h
  refine default_picked ?_
  obtain ⟨rest, hr⟩ : ∃ rest, (loadEnv b).order = P.name :: rest := by
    cases horder : (loadEnv b).order with
    | nil => simp [horder] at ho
    | cons w ws =>
      rw [horder, List.head?_cons, Option.some.injEq] at ho
      exact ⟨ws, by rw [ho]⟩
  have hl : 0 < left (loadEnv b) P := left_pos.mpr ⟨hok, by rw [ht]; decide⟩
  rw [picked, hr, slots, List.filterMap_cons_some (slot?_name P)]
  exact Rotation.pick_eq_some.mpr ⟨hl, [], _, rfl, by simp⟩

theorem healthy_mark {b : Block} {P T : Slot} (hT : T ≠ P) (h : Healthy b P) (ok : Int) :
    Healthy (b.mark T ok) P := by
  obtain ⟨h1, h2, h3⟩ := h
  refine ⟨?_, ?_, h3⟩
  · rw [ok_mark, if_neg (Ne.symm hT), h1]
  · show ((Function.update b.tries T (some 0)) P).getD 0 = 0
    rwa [Function.update_of_ne (Ne.symm hT)]

theorem healthy_factory {b : Block} (h : OfFactory b) : Healthy b .A := by
  obtain ⟨h1, h2, h3⟩ := h
  simp [Healthy, loadEnv, h1, h2, h3]

/-! ## The blocks on the way -/

/-- `grubenv` on the boot partition, in `BOOT_TMP` (where a directory may stand
in its place) and in the mounted image. -/
structure View where
  mnt : Content
  tmp : Option Content
  tmpIsDir : Bool
  new : Option Content

def View.exec (image : Option Content) (v : View) : Step → View
  | .markBad T =>
    { v with mnt := .env (match v.mnt with | .env b => b.mark T 0 | .text _ => emptyBlock.mark T 0) }
  | .hook .mountImage => { v with new := image }
  | .hook .backupGrubenv => { v with tmp := if v.tmpIsDir then v.tmp else some v.mnt }
  | .hook .copyImage => { v with mnt := v.new.getD v.mnt }
  | .hook .restoreGrubenv => { v with mnt := v.tmp.getD v.mnt }
  | _ => v

/-- The machine holds these. -/
structure Shows (m : Machine Content) (v : View) : Prop where
  mnt : m.mnt grubenv = some (.file v.mnt)
  dir : m.mnt grubenv.dropLast = some .dir
  tmp : m.tmp.read tmpGrubenv = v.tmp
  tmpIsDir : m.tmp.isDir tmpGrubenv = v.tmpIsDir
  new : m.new.read grubenv = v.new

/-- Another `grubenv`. -/
theorem Shows.write {m : Machine Content} {v : View} (h : Shows m v) (c : Content) :
    Shows { m with mnt := m.mnt.write grubenv c } { v with mnt := c } := by
  have hd : m.mnt.isDir grubenv.dropLast = true := by
    rw [Fs.isDir, h.dir]
  refine ⟨Fs.write_self hd (Fs.not_isDir_of_file h.mnt (by decide)), ?_, h.tmp, h.tmpIsDir, h.new⟩
  exact (Fs.write_ne (by decide)).trans h.dir

theorem shows_exec {m : Machine Content} {v : View} (h : Shows m v) (image : Fs Line Content)
    {T : Slot} {c : Step} (hc : c ∈ installation T) :
    Shows (c.exec image m) (v.exec (image.read grubenv) c) := by
  have hr : m.mnt.read grubenv = some v.mnt := Fs.read_eq_some.mpr h.mnt
  have hmem : c = .markBad T ∨ c = .hook .mountImage ∨ c = .hook .rmOverlays ∨
      c = .hook .backupTxt ∨ c = .hook .backupGrubenv ∨ c = .hook .copyImage ∨
      c = .hook .restoreTxt ∨ c = .hook .restoreGrubenv ∨
      c = .hook .mkdirTmp ∨ c = .hook .mkdirNew ∨ c = .hook .startMount ∨ c = .writeKernel ∨
      c = .writeRootfs := by
    simp only [installation, installBoot, List.map_append, List.map_cons,
      List.map_nil, List.mem_append, List.mem_cons, List.not_mem_nil, or_false, Bool.false_eq_true,
      ↓reduceIte, List.cons_append] at hc
    tauto
  rcases hmem with rfl | rfl | rfl | rfl | rfl | rfl | rfl | rfl | rfl | rfl | rfl | rfl | rfl
  · have hb : (blockOf m.mnt).mark T 0 =
        match v.mnt with | .env b => b.mark T 0 | .text _ => emptyBlock.mark T 0 := by
      rw [blockOf, hr]
      cases v.mnt <;> rfl
    rw [Step.exec, hb]
    exact h.write _
  · exact ⟨h.mnt, h.dir, h.tmp, h.tmpIsDir, rfl⟩
  · exact ⟨h.mnt, h.dir, h.tmp, h.tmpIsDir, h.new⟩
  · have ht : copyTxt m.mnt m.tmp tmpGrubenv = m.tmp tmpGrubenv := copyTxt_other (by decide) _ _
    refine ⟨h.mnt, h.dir, ?_, ?_, h.new⟩
    · show (copyTxt m.mnt m.tmp).read tmpGrubenv = v.tmp
      rw [Fs.read, ht]
      exact h.tmp
    · show (copyTxt m.mnt m.tmp).isDir tmpGrubenv = v.tmpIsDir
      rw [Fs.isDir, ht]
      exact h.tmpIsDir
  · have ht : copyFile m.mnt grubenv m.tmp tmpGrubenv = m.tmp.write tmpGrubenv v.mnt := by
      rw [copyFile, hr]
    show Shows { m with tmp := copyFile m.mnt grubenv m.tmp tmpGrubenv }
      { v with tmp := if v.tmpIsDir then v.tmp else some v.mnt }
    rw [ht]
    cases hd : v.tmpIsDir with
    | true =>
      have hw : m.tmp.write tmpGrubenv v.mnt = m.tmp := by
        rw [Fs.write, if_neg (by rw [h.tmpIsDir, hd]; simp)]
      rw [hw]
      exact ⟨h.mnt, h.dir, h.tmp, h.tmpIsDir.trans hd, h.new⟩
    | false =>
      have hw : m.tmp.write tmpGrubenv v.mnt tmpGrubenv = some (.file v.mnt) :=
        Fs.write_self Fs.isDir_nil (h.tmpIsDir.trans hd)
      exact ⟨h.mnt, h.dir, Fs.read_eq_some.mpr hw, Fs.not_isDir_of_file hw (by decide), h.new⟩
  · refine ⟨?_, ?_, h.tmp, h.tmpIsDir, h.new⟩
    · show copyNode (m.new grubenv) (m.mnt grubenv) = some (.file (v.new.getD v.mnt))
      rw [h.mnt, ← h.new, Fs.read]
      rcases m.new grubenv with _ | (_ | _) <;> rfl
    · show copyNode (m.new grubenv.dropLast) (m.mnt grubenv.dropLast) = some .dir
      rw [h.dir, copyNode_dir]
  · exact ⟨h.mnt, h.dir, h.tmp, h.tmpIsDir, h.new⟩
  · show Shows { m with mnt := copyFile m.tmp tmpGrubenv m.mnt grubenv }
      { v with mnt := v.tmp.getD v.mnt }
    rw [copyFile, h.tmp]
    cases ht : v.tmp with
    | none => exact ⟨h.mnt, h.dir, h.tmp.trans ht, h.tmpIsDir, h.new⟩
    | some c =>
      have hw := h.write c
      exact ⟨hw.mnt, hw.dir, hw.tmp.trans ht, hw.tmpIsDir, hw.new⟩
  all_goals exact h

/-- The view of every cut. -/
theorem shows_cutAt {m : Machine Content} {v : View} (h : Shows m v) (image : Fs Line Content)
    (T : Slot) (n : Nat) : Shows (cutAt image T m n)
      (run (View.exec (image.read grubenv)) v ((installation T).take n)) := by
  have hmem : ∀ c ∈ (installation T).take n, c ∈ installation T := fun c => List.mem_of_mem_take
  unfold cutAt
  generalize (installation T).take n = cs at hmem
  induction cs generalizing m v with
  | nil => exact h
  | cons c cs ih =>
    exact ih (shows_exec h image (hmem c List.mem_cons_self))
      fun c' hc => hmem c' (List.mem_cons_of_mem _ hc)

/-- A step that leaves `grubenv` on the boot partition alone. -/
def Step.Quiet (c : Step) : Prop :=
  (∀ T, c ≠ .markBad T) ∧ c ≠ .hook .copyImage ∧ c ≠ .hook .restoreGrubenv

theorem View.exec_quiet (image : Option Content) (v : View) {c : Step} (hc : c.Quiet) :
    (v.exec image c).mnt = v.mnt := by
  unfold View.exec
  split
  · exact absurd rfl (hc.1 _)
  · rfl
  · rfl
  · exact absurd rfl hc.2.1
  · exact absurd rfl hc.2.2
  · rfl

theorem View.run_quiet (image : Option Content) (v : View) {cs : List Step}
    (hcs : ∀ c ∈ cs, c.Quiet) : (run (View.exec image) v cs).mnt = v.mnt := by
  refine run_keeps_along (I := fun w : View => w.mnt = v.mnt) (fun w c hw hc => ?_) rfl
    (along_forall.mpr hcs)
  exact (View.exec_quiet image w hc).trans hw

/-- Up to the copy of the image. -/
def backups : List Step :=
  [.hook .mkdirTmp, .hook .mkdirNew, .hook .startMount, .hook .mountImage, .hook .rmOverlays,
    .hook .backupTxt, .hook .backupGrubenv]

def images : List Step := [.writeKernel, .writeRootfs]

theorem installation_eq (T : Slot) : installation T =
    .markBad T :: (backups ++ .hook .copyImage :: ([.hook .restoreTxt] ++ .hook .restoreGrubenv :: images)) :=
  rfl

theorem quiet_backups : ∀ c ∈ backups, c.Quiet := by
  simp [backups, Step.Quiet]

theorem quiet_images : ∀ c ∈ images, c.Quiet := by
  simp [images, Step.Quiet]

theorem quiet_restoreTxt : ∀ c ∈ [Step.hook .restoreTxt], c.Quiet := by
  simp [Step.Quiet]

/-- The backups: the image is mounted, and `grubenv` is saved unless a directory
is in the place of its backup. -/
theorem View.run_backups (image : Option Content) (v : View) :
    run (View.exec image) v backups =
      { v with new := image, tmp := if v.tmpIsDir then v.tmp else some v.mnt } := rfl

/-- The block on the boot partition at a cut: between the copy of the image and
the restoring of `grubenv`, that of the image; else that of the machine. -/
theorem view_cut (T : Slot) (b f : Block) (new : Option Content) {tmp : Option Content}
    {blocked : Bool} (hb : blocked = true → tmp = none) (n : Nat) :
    (run (View.exec (some (.env f))) ⟨.env b, tmp, blocked, new⟩ ((installation T).take n)).mnt =
      if .hook .copyImage ∈ (installation T).take n ∧
          (.hook .restoreGrubenv ∉ (installation T).take n ∨ blocked = true) then .env f
      else if n = 0 then .env b else .env (b.mark T 0) := by
  cases n with
  | zero => rfl
  | succ n =>
    rw [if_neg n.succ_ne_zero, installation_eq, List.take_succ_cons, run_cons]
    rcases take_split backups (.hook .copyImage)
      ([.hook .restoreTxt] ++ .hook .restoreGrubenv :: images) n with hn | ⟨k, hn⟩
    · -- The image is not yet copied.
      have hq : ∀ c ∈ backups.take n, c.Quiet := fun c hc => quiet_backups c (List.mem_of_mem_take hc)
      have hno : Step.hook .copyImage ∉ backups.take n := fun hc => (hq _ hc).2.1 rfl
      rw [hn, View.run_quiet _ _ hq, if_neg (by simpa using fun hc => absurd hc hno)]
      rfl
    · rw [hn, run_append, run_cons, View.run_backups]
      rcases take_split [.hook .restoreTxt] (.hook .restoreGrubenv) images k with hk | ⟨j, hk⟩
      · -- It is copied, and `grubenv` is not yet restored.
        have hq : ∀ c ∈ [Step.hook .restoreTxt].take k, c.Quiet :=
          fun c hc => quiet_restoreTxt c (List.mem_of_mem_take hc)
        have hno : Step.hook .restoreGrubenv ∉ [Step.hook .restoreTxt].take k :=
          fun hc => (hq _ hc).2.2 rfl
        have hw : Step.hook .copyImage ∈ .markBad T ::
              (backups ++ .hook .copyImage :: [Step.hook .restoreTxt].take k) ∧
            (Step.hook .restoreGrubenv ∉ .markBad T ::
              (backups ++ .hook .copyImage :: [Step.hook .restoreTxt].take k) ∨ blocked = true) := by
          simp [hno, backups]
        rw [hk, View.run_quiet _ _ hq, if_pos hw]
        rfl
      · -- `grubenv` is restored, if it was saved.
        have hq : ∀ c ∈ images.take j, c.Quiet := fun c hc => quiet_images c (List.mem_of_mem_take hc)
        have hw : (Step.hook .copyImage ∈ .markBad T :: (backups ++ .hook .copyImage ::
              ([.hook .restoreTxt] ++ .hook .restoreGrubenv :: images.take j)) ∧
            (Step.hook .restoreGrubenv ∉ .markBad T :: (backups ++ .hook .copyImage ::
              ([.hook .restoreTxt] ++ .hook .restoreGrubenv :: images.take j)) ∨ blocked = true)) ↔
            blocked = true := by simp
        rw [hk, run_append, run_cons, View.run_quiet _ _ hq]
        cases blocked with
        | true =>
          rw [hb rfl, if_pos (hw.mpr rfl)]
          rfl
        | false =>
          rw [if_neg (mt hw.mp Bool.false_ne_true)]
          rfl

/-- At every cut of an installation into the other slot, the next boot starts
the running slot `P`, exactly if `P` is slot A, or the image is not yet copied,
or `grubenv` is restored (and no directory was in the place of its backup). -/
theorem falls_back_iff {P T : Slot} (hT : T ≠ P) {m : Machine Content} {b : Block}
    (hm : HasBlock m.mnt b) (hP : Healthy b P) {image : Fs Line Content} {f : Block}
    (hi : HasBlock image f) (hf : OfFactory f) (n : Nat) :
    nextDefault (cutAt image T m n) = some (index P) ↔
      P = .A ∨ .hook .copyImage ∉ (installation T).take n ∨
        (.hook .restoreGrubenv ∈ (installation T).take n ∧ m.tmp.isDir tmpGrubenv = false) := by
  have hdir : m.tmp.isDir tmpGrubenv = true → m.tmp.read tmpGrubenv = none := by
    intro h
    unfold Fs.isDir at h
    split at h
    · rename_i hd
      rw [Fs.read, hd]
    · exact absurd h (by decide)
  have h0 : Shows m ⟨.env b, m.tmp.read tmpGrubenv, m.tmp.isDir tmpGrubenv, m.new.read grubenv⟩ :=
    ⟨hm.file, hm.dir, rfl, rfl, rfl⟩
  have hs := shows_cutAt h0 image T n
  have hv := view_cut T b f (m.new.read grubenv) hdir n
  rw [Fs.read_eq_some.mpr hi.file] at hs
  have hblock : ∀ c, (cutAt image T m n).mnt grubenv = some (.file (.env c)) →
      nextDefault (cutAt image T m n) = (grubCfg c).1 := by
    intro c hc
    rw [nextDefault, blockOf, Fs.read_eq_some.mpr hc]
  have hmnt := hs.mnt
  rw [hv] at hmnt
  by_cases hw : .hook .copyImage ∈ (installation T).take n ∧
      (.hook .restoreGrubenv ∉ (installation T).take n ∨ m.tmp.isDir tmpGrubenv = true)
  · -- In the window, GRUB starts slot A.
    rw [if_pos hw] at hmnt
    rw [hblock f hmnt, default_healthy (healthy_factory hf), index_inj]
    refine ⟨fun e => .inl e.symm, ?_⟩
    rintro (rfl | hc | ⟨hr, hd⟩)
    · rfl
    · exact absurd hw.1 hc
    · rcases hw.2 with hn | hd'
      · exact absurd hr hn
      · rw [hd] at hd'
        cases hd'
  · rw [if_neg hw] at hmnt
    have hh : nextDefault (cutAt image T m n) = some (index P) := by
      by_cases hn : n = 0
      · rw [if_pos hn] at hmnt
        rw [hblock b hmnt, default_healthy hP]
      · rw [if_neg hn] at hmnt
        rw [hblock _ hmnt, default_healthy (healthy_mark hT hP 0)]
    refine iff_of_true hh ?_
    by_cases hc : .hook .copyImage ∈ (installation T).take n
    · by_cases hr : .hook .restoreGrubenv ∈ (installation T).take n
      · exact .inr (.inr ⟨hr, by simpa [hc, hr] using hw⟩)
      · exact absurd ⟨hc, .inl hr⟩ hw
    · exact .inr (.inl hc)

/-- A boot partition with the block `b` and no other file. -/
def grubFiles (b : Block) : Fs Line Content := fun p =>
  if p = grubenv then some (.file (.env b))
  else if p = grubenv.dropLast ∨ p = grubenv.dropLast.dropLast then some .dir
  else none

/-- A machine that runs slot B, as RAUC left it. -/
def machineB : Machine Content :=
  ⟨grubFiles (step factoryBlock (.setPrimary .B)), fun _ => none, fun _ => none⟩

theorem hasBlock_grubFiles (b : Block) : HasBlock (grubFiles b) b :=
  ⟨if_pos rfl, (if_neg (by decide)).trans (if_pos (.inl rfl))⟩

theorem healthy_machineB : Healthy (step factoryBlock (.setPrimary .B)) .B := by
  decide

theorem ofFactory_factoryBlock : OfFactory factoryBlock := by
  decide

/-- Power is lost just before the image is copied. -/
theorem falls_back_to_B :
    nextDefault (cutAt (grubFiles factoryBlock) .A machineB 8) = some (index .B) :=
  (falls_back_iff (by decide) (hasBlock_grubFiles _) healthy_machineB (hasBlock_grubFiles _)
    ofFactory_factoryBlock 8).mpr (.inr (.inl (by decide)))

/-- One command later, the block of the image starts the slot that is being
installed. -/
theorem window_starts_A : HasBlock machineB.mnt (step factoryBlock (.setPrimary .B)) ∧
    Healthy (step factoryBlock (.setPrimary .B)) .B ∧
    HasBlock (grubFiles factoryBlock) factoryBlock ∧ OfFactory factoryBlock ∧
    nextDefault (cutAt (grubFiles factoryBlock) .A machineB 9) = some (index .A) ∧
    nextDefault (cutAt (grubFiles factoryBlock) .A machineB 9) ≠ some (index .B) := by
  have h : nextDefault (cutAt (grubFiles factoryBlock) .A machineB 9) = some (index .A) := by
    decide +kernel
  exact ⟨hasBlock_grubFiles _, healthy_machineB, hasBlock_grubFiles _, ofFactory_factoryBlock, h,
    by rw [h]; decide⟩

end HassOS.Hook
