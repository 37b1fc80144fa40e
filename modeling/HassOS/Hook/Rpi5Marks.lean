import HassOS.Hook.Rpi5
import HassOS.Tryboot.Invariant

/-!
# Marking slots on a machine that is updated

The states that calls of the backend, reboots and installations lead to from
the factory files, without power losses (`Reachable`). To the backend an
installation is a slot that is marked bad, whose directory goes and comes
back, and that is set primary (`rep_hooks`), so these states are those of the
model too (`reachable_rep`).

`set-state good` ignores that its `touch` fails, and once it has committed a
tryboot it only succeeds for a slot that is still marked good:
`setState_sound_iff` says when `get-state` confirms it, and when the running
slot can be marked good.
-/

namespace HassOS.Hook.Rpi5

open Framework Tryboot

/-- A boot image as the build makes it: its `slot-A` has no `.good`. -/
def IsBootImage (image : BootFs) : Prop :=
  image [slotName .A] = some .dir ∧ image [slotName .A, ".good".toList] = none

/-- The steps of an installation between `set-state bad` and `set-primary`. -/
def installSteps (T : Slot) : List Step := hookSteps T ++ [.writeRootfs]

/-- The states of a machine, without power losses. -/
inductive Reachable : Sys → Prop
  | factory : Reachable factory
  | call {s : Sys} (h : Reachable s) (c : Call) : Reachable (s.step (.call c))
  | reboot {s : Sys} (h : Reachable s) : Reachable (s.step .reboot)
  | installed {s : Sys} {image : BootFs} {T : Slot} {b b' : Board} (h : Reachable s)
      (hi : IsBootImage image) (hb : b.sys = s.step (.call (.setState T false)))
      (hs : Framework.Stops (shell image) (installSteps T) b .done b') :
      Reachable (b'.sys.step (.call (.setPrimary T)))
  /-- A command of the installation fails. -/
  | failed {s : Sys} {image : BootFs} {T : Slot} {b b' : Board} (h : Reachable s)
      (hi : IsBootImage image) (hb : b.sys = s.step (.call (.setState T false)))
      (hs : Framework.Stops (shell image) (installSteps T) b .failed b') : Reachable b'.sys

/-! ## Installations, in terms of slots -/

/-- The directory of the slot is there or not. -/
def withDir (a : Tryboot.Ab) (T : Slot) (d : Bool) : Tryboot.Ab :=
  { a with dir := Function.update a.dir T d }

section

variable {s s' : Sys} {a : Tryboot.Ab} {T : Slot} {d : Bool} {image : BootFs}

theorem withDir_self (a : Tryboot.Ab) (T : Slot) : withDir a T (a.dir T) = a := by
  rw [withDir, Function.update_eq_self]

/-- Only the directory of the slot comes or goes. -/
theorem rep_withDir {d' : Bool} (h : Tryboot.Rep s (withDir a T d)) (hg : a.good T = false)
    (hne : ∀ l : Loc, l ≠ .dir T → l ≠ .good T → s'.boot l.path = s.boot l.path)
    (hdir : s'.boot (slotDir T.name) = if d' then some .dir else none)
    (hgood : s'.boot (goodFile T.name) = none) (hp : s'.rebootParam = s.rebootParam)
    (hc : s'.chosen = s.chosen) : Tryboot.Rep s' (withDir a T d') := by
  have hother : ∀ S, S ≠ T → (withDir a T d').dir S = (withDir a T d).dir S := fun S hS =>
    (Function.update_of_ne hS _ _).trans (Function.update_of_ne hS _ _).symm
  refine ⟨fun l => ?_, hp.trans h.param, hc.trans h.chosen, fun S hS => ?_⟩
  · by_cases h1 : l = .dir T
    · subst h1
      show s'.boot (slotDir T.name) = if Function.update a.dir T d' T then some .dir else none
      rw [Function.update_self, hdir]
    · by_cases h2 : l = .good T
      · subst h2
        show s'.boot (goodFile T.name) = if a.good T then some (.file []) else none
        rw [hg, hgood]
        rfl
      · rw [hne l h1 h2, h.boot l]
        cases l with
        | dir S => rw [Ab.node, Ab.node, hother S fun e => h1 (by rw [e])]
        | _ => rfl
  · have hST : S ≠ T := by
      rintro rfl
      exact Bool.false_ne_true (hg.symm.trans hS)
    rw [hother S hST]
    exact h.good_dir S hS

/-- The paths of the model lie in entries of the root. -/
theorem loc_path (l : Loc) : l.path = l.path.headD [] :: l.path.tail := by
  cases l <;> rfl

theorem touches_loc {c : Step} (hc : c ∈ hookSteps T) (hs : c ≠ .hook .sedCmdline) {l : Loc}
    (h1 : l ≠ .dir T) (h2 : l ≠ .good T) : c.touches (l.path.headD []) = false := by
  have key : ∀ T : Slot, ∀ c ∈ hookSteps T, c ≠ .hook .sedCmdline → ∀ l : Loc, l ≠ .dir T →
      l ≠ .good T → c.touches (l.path.headD []) = false := by decide +kernel
  exact key T c hc hs l h1 h2

/-- The edit of `cmdline.txt` does not touch what the backend writes there. -/
theorem dropRootfstype_cmdlineFor (S : Slot) : dropRootfstype [cmdlineFor S] = [cmdlineFor S] := by
  rw [cmdlineFor, factoryCmdlineChars.2]
  revert S
  decide +kernel

theorem setPrimary_notMem (S T : Slot) : Step.setPrimary S ∉ hookSteps T := by
  revert S T
  decide

/-- The steps of the hooks leave alone what the firmware and `/run` hold. -/
theorem hook_keeps (image : BootFs) {c : Step} (hc : c ∈ hookSteps T) (b : Board) :
    ((c.exec image b).sys.rebootParam = b.sys.rebootParam ∧
      (c.exec image b).sys.chosen = b.sys.chosen) ∧
    ∀ b', c.Fails b b' → b'.sys.rebootParam = b.sys.rebootParam ∧ b'.sys.chosen = b.sys.chosen := by
  cases c with
  | hook c =>
    refine ⟨⟨rfl, rfl⟩, ?_⟩
    rintro b' ⟨m, -, rfl⟩
    exact ⟨rfl, rfl⟩
  | writeKernel | writeRootfs =>
    refine ⟨⟨rfl, rfl⟩, fun b' hf => ?_⟩
    rw [show b' = b from hf]
    exact ⟨rfl, rfl⟩
  | setPrimary S => exact absurd hc (setPrimary_notMem S T)

/-- No path of the model is the temporary file of `sed -i`. -/
theorem loc_ne_sed (l : Loc) (n : Line) : l.path ≠ ["sed".toList ++ n] := by
  intro h
  cases l with
  | dir S | good S =>
    revert h
    cases S <;> simp [Loc.path, slotDir, goodFile]
  | _ => simp [Loc.path, configTxt, Tryboot.cmdlineTxt, cmdlineTrybootTxt, trybootTxt] at h

/-- Outside the slot, a step of the hooks leaves the paths of the model alone. -/
theorem hook_frame {b b' : Board} {c : Step} (hc : c ∈ hookSteps T) (h : Tryboot.Rep b.sys a)
    (hb : b' = c.exec image b ∨ c.Fails b b') {l : Loc} (h1 : l ≠ .dir T) (h2 : l ≠ .good T) :
    b'.sys.boot l.path = b.sys.boot l.path := by
  by_cases hs : c = .hook .sedCmdline
  · subst hs
    rcases hb with rfl | ⟨m, hm, rfl⟩
    · have hread : b.machine.mnt.read Hook.cmdlineTxt = some [cmdlineFor a.cmdline] :=
        Fs.read_eq_some.mpr (h.boot .cmdline)
      show (Cmd.exec image dropRootfstype .sedCmdline b.machine).mnt l.path = _
      rw [Cmd.exec, hread]
      show b.sys.boot.write cmdlineTxt (dropRootfstype [cmdlineFor a.cmdline]) l.path = _
      rw [dropRootfstype_cmdlineFor]
      by_cases hl : l = .cmdline
      · subst hl
        exact (Fs.write_self Fs.isDir_nil (h.isDir_file (l := .cmdline) (by simp))).trans
          (h.boot .cmdline).symm
      · exact Fs.write_ne fun e => hl (Loc.path_inj.mp e)
    · refine hm.1 _ ?_
      rintro ⟨n, hn⟩
      exact loc_ne_sed l n hn
  · have ht := touches_loc hc hs h1 h2
    rw [loc_path l]
    rcases hb with rfl | hb
    · exact c.exec_frame ht image b _
    · exact Step.fails_frame ht hb _

/-- What a step of the hooks does, in terms of slots. -/
theorem rep_hook_step (image : BootFs) {b b' : Board} {c : Step} (hc : c ∈ hookSteps T)
    (hg : a.good T = false)
    (h : Tryboot.Rep b.sys (withDir a T d)) (hb : b' = c.exec image b ∨ c.Fails b b') {d' : Bool}
    (hdir : b'.sys.boot (slotDir T.name) = if d' then some .dir else none)
    (hgood : b'.sys.boot (goodFile T.name) = none) : Tryboot.Rep b'.sys (withDir a T d') := by
  obtain ⟨⟨hp, hch⟩, hf⟩ := hook_keeps image hc b
  have hkeep : b'.sys.rebootParam = b.sys.rebootParam ∧ b'.sys.chosen = b.sys.chosen := by
    rcases hb with rfl | hb
    · exact ⟨hp, hch⟩
    · exact hf b' hb
  exact rep_withDir h hg (fun l h1 h2 => hook_frame hc h hb h1 h2) hdir hgood hkeep.1 hkeep.2

/-- What the model says about the slot's directory. -/
theorem boot_slot (h : Tryboot.Rep s (withDir a T d)) (hg : a.good T = false) :
    s.boot (slotDir T.name) = (if d then some .dir else none) ∧ s.boot (goodFile T.name) = none := by
  have hd := h.boot (.dir T)
  have hgood := h.boot (.good T)
  simp only [Loc.path, Ab.node, withDir, Function.update_self, hg, Bool.false_eq_true,
    ↓reduceIte] at hd hgood
  exact ⟨hd, hgood⟩

/-- Whatever fails, the hooks leave the slot unmarked, with or without its
directory. -/
theorem triple_staging_rep (image : BootFs) (hg : a.good T = false) :
    let A := fun b : Board => ∃ d, Tryboot.Rep b.sys (withDir a T d)
    Triple (shell image) A (stagingSteps T) A A := by
  intro A
  refine triple_keeps fun c hc b ⟨d, hb⟩ => ?_
  have hmem : c ∈ hookSteps T := List.dropLast_subset _ hc
  obtain ⟨hd, hgood⟩ := boot_slot hb hg
  by_cases hrm : c = .hook (.rmSlot T)
  · subst hrm
    refine ⟨fun _ => ⟨false, ?_⟩, ?_⟩
    · refine rep_hook_step image hmem hg hb (.inl rfl) ?_ ?_
      · exact Fs.removeTree_below (by simp [slotDir, slotName])
      · exact Fs.removeTree_below (by simp [goodFile, slotDir, slotName])
    · intro b' hf
      have hf' := hf
      obtain ⟨m, hm, rfl⟩ := hf'
      have hg' : m.mnt (goodFile T.name) = none := by
        rcases hm.1 (goodFile T.name) with e | ⟨-, e⟩
        · exact e.trans hgood
        · exact e
      rcases hm.1 (slotDir T.name) with e | ⟨-, e⟩
      · exact ⟨d, rep_hook_step image hmem hg hb (.inr hf) (e.trans hd) hg'⟩
      · exact ⟨false, rep_hook_step image hmem hg hb (.inr hf) e hg'⟩
  · have ht := touches_target c hc hrm
    have hframe : ∀ b', b' = c.exec image b ∨ c.Fails b b' → ∀ r,
        b'.sys.boot (slotName T :: r) = b.sys.boot (slotName T :: r) := by
      rintro b' (rfl | hf) r
      · exact c.exec_frame ht image b r
      · exact Step.fails_frame ht hf r
    have key : ∀ b', b' = c.exec image b ∨ c.Fails b b' → A b' := fun b' hb' =>
      ⟨d, rep_hook_step image hmem hg hb hb' ((hframe b' hb' []).trans hd)
        ((hframe b' hb' [".good".toList]).trans hgood)⟩
    exact ⟨fun _ => key _ (.inl rfl), fun b' hf => key b' (.inr hf)⟩

/-- When they complete, the directory is there. -/
theorem triple_hooks_rep (hi : IsBootImage image) (hg : a.good T = false) :
    let A := fun b : Board => ∃ d, Tryboot.Rep b.sys (withDir a T d)
    Triple (shell image) A (installSteps T) A fun b => Tryboot.Rep b.sys (withDir a T true) := by
  intro A
  have hlast : Triple (shell image) (fun b => A b ∧ Holds (slotA image) slotDefault b.sys.boot ∧
      Holds (fun _ => none) (slotName T) b.sys.boot) [.hook (.mvSlotDefault T)] A
      fun b => Tryboot.Rep b.sys (withDir a T true) := by
    refine triple_cons (fun _ h => h.1) ?_ ?_ (triple_nil fun _ h => ⟨true, h⟩)
    · rintro b ⟨⟨d, hb⟩, hs, hc⟩ -
      have hm := holds_moveDir (slotDefault_ne T) hs hc
      exact rep_hook_step image (by rw [hookSteps_eq]; simp) hg hb (.inl rfl)
        ((hm []).trans hi.1) ((hm _).trans hi.2)
    · rintro b b' ⟨hb, -⟩ ⟨m, hm, rfl⟩
      rw [show m = b.machine from hm]
      exact hb
  have hroot : Triple (shell image) (fun b => Tryboot.Rep b.sys (withDir a T true)) [.writeRootfs] A
      fun b => Tryboot.Rep b.sys (withDir a T true) :=
    triple_cons (fun _ h => ⟨true, h⟩) (fun _ h _ => h)
      (fun b b' h hf => by rw [show b' = b from hf]; exact ⟨true, h⟩) (triple_nil fun _ h => ⟨true, h⟩)
  rw [installSteps, hookSteps_eq]
  exact triple_append (triple_append (triple_imp (triple_and (triple_staging_rep image hg)
    (triple_staged image T)) (fun _ h => ⟨h, trivial⟩) (fun _ h => h.1) fun _ _ h => h) hlast) hroot

theorem unmarked_good (a : Tryboot.Ab) (T : Slot) :
    (a.step (.call (.setState T false))).good T = false := by
  simp only [Ab.step, Ab.script, Script.run_act, Script.run_ret, Function.update_self]

/-- An installation up to `set-primary`. -/
theorem rep_hooks {b b' : Board} {o : Outcome} (h : Tryboot.Rep s a) (hi : IsBootImage image)
    (hb : b.sys = s.step (.call (.setState T false)))
    (hs : Framework.Stops (shell image) (installSteps T) b o b') :
    (∃ d, Tryboot.Rep b'.sys (withDir (a.step (.call (.setState T false))) T d)) ∧
      (o = .done → Tryboot.Rep b'.sys (withDir (a.step (.call (.setState T false))) T true)) := by
  have hm := step_rep h (.call (.setState T false))
  rw [← hb, ← withDir_self (a.step _) T] at hm
  exact triple_hooks_rep hi (unmarked_good a T) b o b' ⟨_, hm⟩ hs

theorem orderly_withDir (h : a.Orderly) (T : Slot) (d : Bool) : (withDir a T d).Orderly :=
  ⟨⟨h.inv.stale, h.inv.armed, h.inv.tried, h.inv.running⟩, h.coherent, h.normal⟩

end

/-- Every reachable state is one of the model. -/
theorem reachable_rep {s : Sys} (h : Reachable s) : ∃ a : Tryboot.Ab, Tryboot.Rep s a ∧ a.Orderly := by
  induction h with
  | factory => exact ⟨_, factory_rep, Ab.orderly_factory⟩
  | call _ c ih =>
    obtain ⟨a, hr, ho⟩ := ih
    exact ⟨_, step_rep hr _, Ab.orderly_call ho c⟩
  | reboot _ ih =>
    obtain ⟨a, hr, ho⟩ := ih
    exact ⟨_, step_rep hr _, Ab.orderly_reboot ho⟩
  | @installed s image T b b' _ hi hb hs ih =>
    obtain ⟨a, hr, ho⟩ := ih
    exact ⟨_, step_rep ((rep_hooks hr hi hb hs).2 rfl) _,
      Ab.orderly_call (orderly_withDir (Ab.orderly_call ho _) T true) _⟩
  | @failed s image T b b' _ hi hb hs ih =>
    obtain ⟨a, hr, ho⟩ := ih
    obtain ⟨d, hd⟩ := (rep_hooks hr hi hb hs).1
    exact ⟨_, hd, orderly_withDir (Ab.orderly_call ho _) T d⟩

/-! ## Marks -/

/-- If `set-state` exits 0, a `get-state` after it prints the state that was set. -/
def Confirmed (s : Sys) (S : Slot) (good : Bool) : Prop :=
  let r := (Call.setState S good).script.run s
  r.2.status = 0 → ((Call.getState S).script.run r.1).2 =
    ⟨0, [if good then "good".toList else "bad".toList]⟩

/-- `cmdline-tryboot.txt` is that of slot `S`. -/
def Prepared (S : Slot) (fs : BootFs) : Prop :=
  capture (getValue "rauc.slot".toList (headLine fs cmdlineTrybootTxt)) = S.name

section

variable {s : Sys} {a : Tryboot.Ab}

theorem prepared_iff (h : Tryboot.Rep s a) (S : Slot) :
    Prepared S s.boot ↔ a.trybootCmdline = some S := by
  rw [Prepared, h.headLine_tryboot]
  cases a.trybootCmdline with
  | none => revert S; decide
  | some C =>
    rw [Option.map_some, Option.getD_some, capture_slot, Slot.name_inj, Option.some.injEq]

/-- The exit status of `set-state good`. -/
theorem status_iff (ho : a.Inv) (S : Slot) :
    ((Ab.script (.setState S true)).run a).2.status = 0 ↔ a.flag = false ∨
      a.trybootCmdline = some S ∨ (a.trybootCmdline = none ∧ a.good S = true) := by
  simp only [Ab.script, Script.run_look]
  cases hf : a.flag with
  | false => simp
  | true =>
    cases hC : a.trybootCmdline with
    | none => cases hg : a.good S <;> simp
    | some C =>
      rw [ho.tried hf C hC]
      by_cases e : C = S <;> simp [e]

/-- Where it exits 0, the slot is marked good. -/
theorem confirmed_iff (ho : a.Inv) (hd : ∀ S, a.good S = true → a.dir S = true) (S : Slot) :
    (((Ab.script (.setState S true)).run a).2.status = 0 →
      ((Ab.script (.setState S true)).run a).1.good S = true) ↔
    a.dir S = true ∨ (a.flag = true ∧ a.trybootCmdline ≠ some S) := by
  have hmark : (a.good S || a.dir S) = a.dir S := by
    cases hg : a.good S with
    | false => rfl
    | true => rw [hd S hg]; rfl
  simp only [Ab.script, Script.run_look]
  cases hf : a.flag with
  | false => simp [Ab.markGood, hmark]
  | true =>
    cases hC : a.trybootCmdline with
    | none => cases hg : a.good S <;> simp [hg]
    | some C =>
      rw [ho.tried hf C hC]
      by_cases e : C = S <;> simp [e, Ab.markGood, hmark]

end

/-- In every reachable state: `get-state` confirms what `set-state S` has set
exactly if the state is bad, the slot has a directory, or the system runs by
tryboot and no tryboot of `S` is prepared; and the running slot can be marked
good exactly if it does not run by tryboot, is prepared as a tryboot, or is
marked good with none prepared. -/
theorem setState_sound_iff {s : Sys} (h : Reachable s) :
    (∀ S good, Confirmed s S good ↔ good = false ∨ s.boot.isDir (slotDir S.name) = true ∨
      (s.chosen.tryboot = true ∧ ¬ Prepared S s.boot)) ∧
    ∀ R, s.chosen.Designates R →
      (((Call.setState R true).script.run s).2.status = 0 ↔ s.chosen.tryboot = false ∨
        Prepared R s.boot ∨ (s.boot.isFile cmdlineTrybootTxt = false ∧
          s.boot.isFile (goodFile R.name) = true)) := by
  obtain ⟨a, hr, ho⟩ := reachable_rep h
  refine ⟨fun S good => ?_, fun R _ => ?_⟩
  · obtain ⟨hr', hs⟩ := (script_sim hr (.setState S good)).run
    have hg := (script_sim hr' (.getState S)).run.2
    simp only [Confirmed]
    rw [hs, hg, hr.isDir_dir, hr.tryboot, prepared_iff hr]
    cases good with
    | false =>
      refine iff_of_true (fun _ => ?_) (.inl rfl)
      simp only [Ab.script, Script.run_act, Script.run_ret, Script.run_look, Function.update_self]
    | true =>
      rw [or_iff_right (by decide), ← confirmed_iff ho.inv hr.good_dir S]
      refine imp_congr_right fun _ => ?_
      simp only [Ab.script, Script.run_look, Script.run_ret]
      cases (Script.run _ a).1.good S <;> decide
  · rw [(script_sim hr (.setState R true)).run.2, status_iff ho.inv, hr.tryboot, prepared_iff hr,
      isFile_trybootCmdline hr, hr.isFile_good, Option.isSome_eq_false_iff, Option.isNone_iff_eq_none]

/-! ## The first update -/

/-- An installation that nothing disturbs. -/
def install (image : BootFs) (T : Slot) (s : Sys) : Sys :=
  (run (fun b c => (shell image).exec c b)
    (⟨s.step (.call (.setState T false)), fun _ => none, fun _ => none⟩ : Board)
    (installSteps T)).sys.step (.call (.setPrimary T))

theorem isBootImage_kernelImage : IsBootImage kernelImage := ⟨by decide +kernel, by decide +kernel⟩

theorem install_stops {image : BootFs} (hi : IsBootImage image) (T : Slot) {s : Sys}
    (hs : s.boot.isFile cmdlineTxt = true) :
    Framework.Stops (shell image) (installSteps T)
      ⟨s.step (.call (.setState T false)), fun _ => none, fun _ => none⟩ .done
      (run (fun b c => (shell image).exec c b)
        (⟨s.step (.call (.setState T false)), fun _ => none, fun _ => none⟩ : Board)
        (installSteps T)) :=
  stops_done <| along_append.mpr
    ⟨undisturbed_hooks (by rw [hi.1]; exact Option.some_ne_none _) T hs, trivial, trivial⟩

/-- A machine that was updated and rebooted, up to the calls `cs`. -/
def updated (cs : List Call) : Sys :=
  run Sys.step ((install kernelImage .B factory).step .reboot) (cs.map .call)

/-- The same, in terms of slots. -/
def updatedAb (cs : List Call) : Tryboot.Ab :=
  run Ab.step (((withDir (Ab.factory.step (.call (.setState .B false))) .B true).step
    (.call (.setPrimary .B))).step .reboot) (cs.map .call)

theorem updated_rep (cs : List Call) : Tryboot.Rep (updated cs) (updatedAb cs) := by
  have hs := install_stops isBootImage_kernelImage .B isFile_factory
  exact run_sim (R := Tryboot.Rep) (fun _ _ e h => step_rep h e)
    (step_rep (step_rep ((rep_hooks factory_rep isBootImage_kernelImage rfl hs).2 rfl) _) _) _

theorem updated_reachable (cs : List Call) : Reachable (updated cs) := by
  have hs := install_stops isBootImage_kernelImage .B isFile_factory
  have h : Reachable ((install kernelImage .B factory).step .reboot) :=
    (Reachable.factory.installed isBootImage_kernelImage rfl hs).reboot
  have hcalls : ∀ e ∈ cs.map Event.call, ∃ c, e = .call c := by
    intro e he
    obtain ⟨c, -, rfl⟩ := List.mem_map.mp he
    exact ⟨c, rfl⟩
  refine run_keeps_along ?_ h (along_forall.mpr hcalls)
  rintro s e h ⟨c, rfl⟩
  exact h.call c

/-- In the tryboot of a first update the new slot can be marked good. -/
theorem setState_sound_updated :
    (updated []).chosen.Designates .B ∧ Confirmed (updated []) .B true ∧
      ((Call.setState .B true).script.run (updated [])).2.status = 0 := by
  have hr := updated_rep []
  obtain ⟨h1, h2⟩ := setState_sound_iff (updated_reachable [])
  have hB : (updated []).chosen.Designates .B := (hr.designates_iff .B).mpr (by decide)
  refine ⟨hB, (h1 .B true).mpr (.inr (.inl ?_)), (h2 .B hB).mpr (.inr (.inl ?_))⟩
  · rw [hr.isDir_dir]
    decide
  · rw [prepared_iff hr]
    decide

/-- On a new machine, `set-state B good` marks nothing. In the tryboot of an
update, the running slot cannot be marked good once it was committed and then
marked bad, or the other slot was set primary. -/
theorem setState_unsound :
    (Reachable factory ∧ ¬ Confirmed factory .B true) ∧
    ∀ c ∈ [Call.setState .B false, .setPrimary .A],
      let s := updated [.setState .B true, c]
      Reachable s ∧ s.chosen.Designates .B ∧
        ((Call.setState .B true).script.run s).2.status = 1 := by
  have key : ∀ c ∈ [Call.setState .B false, .setPrimary .A],
      let a := updatedAb [.setState .B true, c]
      (a.kernel = some .B ∧ a.bootargs = some .B) ∧
        ((Ab.script (.setState .B true)).run a).2.status = 1 := by decide
  refine ⟨⟨.factory, ?_⟩, fun c hc => ?_⟩
  · rw [Confirmed, (script_sim factory_rep _).run.2,
      (script_sim (script_sim factory_rep (.setState .B true)).run.1 _).run.2]
    decide
  · have hr := updated_rep [.setState .B true, c]
    refine ⟨updated_reachable _, (hr.designates_iff .B).mpr (key c hc).1, ?_⟩
    rw [(script_sim hr _).run.2]
    exact (key c hc).2

end HassOS.Hook.Rpi5
