import HassOS.Tryboot.Slots

/-!
# What the backend's calls keep

A call other than a committing `set-state good` leaves `config.txt` and
`cmdline.txt` alone at every point (`script_keeps_boot`). Over any run, power
losses included, a prepared tryboot is one of the slot that `cmdline.txt` does
not name (`Ab.Inv`, `inv_after`), so that a call prepares a tryboot of that
slot, commits it, or marks slots (`call_cases`). Over an orderly run,
`config.txt` and `cmdline.txt` also name one slot, the one that a normal boot
runs (`Ab.Orderly`, `orderly_after`).
-/

namespace HassOS.Tryboot

open Framework

/-- `set-state S good` gets past its tests and commits. -/
def Sys.commits (s : Sys) (S : Slot) : Prop :=
  s.chosen.tryboot = true ∧ commitCheck S.name s.boot = none

namespace Ab

/-- The same, in terms of slots. -/
def commits (a : Ab) (S : Slot) : Prop :=
  a.flag = true ∧ a.trybootCmdline = some S ∧ a.trybootConfig.isSome = true

/-! ## Calls -/

/-- No call touches what the firmware started the system with. -/
theorem script_keeps_chosen (a : Ab) (c : Call) :
    (script c).Keeps (fun b => b.flag = a.flag ∧ b.kernel = a.kernel ∧ b.bootargs = a.bootargs)
      a := by
  cases c with
  | getPrimary => trivial
  | setPrimary S =>
    simp only [script, Script.keeps_look]
    split <;> simp
  | getState S => trivial
  | setState S good =>
    cases good with
    | false => simp [script]
    | true =>
      simp only [script, Script.keeps_look]
      repeat' split
      all_goals simp [markGood]

/-- Only a commit touches what a normal boot reads. -/
theorem script_keeps_boot {a : Ab} {c : Call} (h : ∀ S, c = .setState S true → ¬ a.commits S) :
    (script c).Keeps (fun b => b.config = a.config ∧ b.cmdline = a.cmdline) a := by
  cases c with
  | getPrimary => trivial
  | setPrimary S =>
    simp only [script, Script.keeps_look]
    split <;> simp
  | getState S => trivial
  | setState S good =>
    cases good with
    | false => simp [script]
    | true =>
      have h := h S rfl
      simp only [script, Script.keeps_look]
      split
      · rename_i hf
        split
        · trivial
        · trivial
        · rename_i C K hC hK
          have hne : C ≠ S := fun e => h ⟨hf, by rw [hC, e], by rw [hK]; rfl⟩
          rw [if_pos hne]
          trivial
      · simp [markGood]

/-- No operation prepares a tryboot of the slot that `cmdline.txt` names. -/
theorem script_keeps_stale {a : Ab} (c : Call) (h : a.trybootCmdline ≠ some a.cmdline) :
    (script c).Keeps (fun b => b.trybootCmdline ≠ some b.cmdline) a := by
  cases c with
  | getPrimary => trivial
  | setPrimary S =>
    simp only [script, Script.keeps_look]
    split
    · trivial
    · rename_i hne
      simp [Ne.symm hne]
  | getState S => trivial
  | setState S good =>
    cases good with
    | false => simpa [script] using h
    | true =>
      simp only [script, Script.keeps_look]
      repeat' split
      all_goals simp_all [markGood]

/-- A commit, cut by a power loss. -/
theorem cut_commit {a : Ab} {S K : Slot} (h : a.commits S) (hK : a.trybootConfig = some K)
    (k : Nat) :
    let b := (script (.setState S true)).cut k a
    b.config = (if k = 0 then a.config else K) ∧ b.cmdline = (if k ≤ 1 then a.cmdline else S) := by
  obtain ⟨hf, hC, -⟩ := h
  simp only [script, Script.cut_look, hf, hC, hK, ↓reduceIte, ne_eq, not_true_eq_false]
  match k with
  | 0 | 1 | 2 | 3 | 4 | k + 5 => simp [markGood]

/-! ## Every run -/

/-- What holds in every state, power losses included. -/
structure Inv (a : Ab) : Prop where
  /-- A `cmdline-tryboot.txt` on disk is not for the slot of `cmdline.txt`. -/
  stale : a.trybootCmdline ≠ some a.cmdline
  /-- A tryboot is only asked for once both of its files are written. -/
  armed : a.armed = true →
    a.trybootCmdline = some a.cmdline.other ∧ a.trybootConfig = some a.cmdline.other
  /-- While a tryboot runs, both files are of one slot. -/
  tried : a.flag = true → ∀ S, a.trybootCmdline = some S → a.trybootConfig = some S
  /-- A tryboot runs one slot. -/
  running : a.flag = true → ∃ S, a.kernel = some S ∧ a.bootargs = some S

theorem Inv.eq_other {a : Ab} (h : a.Inv) {S : Slot} (hS : a.trybootCmdline = some S) :
    S = a.cmdline.other :=
  Slot.ne_iff.mp fun e => h.stale (by rw [hS, e])

/-- What a commit finds. -/
theorem Inv.commits {a : Ab} (h : a.Inv) {S : Slot} (hc : a.commits S) :
    S = a.cmdline.other ∧ a.trybootConfig = some S :=
  ⟨h.eq_other hc.2.1, h.tried hc.1 S hc.2.1⟩

/-- All that a call can do: prepare a tryboot, commit one, or mark slots. -/
theorem call_cases {a : Ab} (h : a.Inv) (c : Call) :
    (∃ S, c = .setPrimary S ∧ S = a.cmdline.other ∧ a.step (.call c) =
      { a with trybootCmdline := some S, trybootConfig := some S, armed := true }) ∨
    (∃ S g, c = .setState S true ∧ a.commits S ∧ a.step (.call c) =
      { a with config := S, cmdline := S, trybootCmdline := none, trybootConfig := none,
               armed := false, good := g }) ∨
    ((∀ S, c = .setPrimary S → a.cmdline = S) ∧ (∀ S, c = .setState S true → ¬ a.commits S) ∧
      ∃ g, a.step (.call c) = { a with good := g }) := by
  simp only [step]
  cases c with
  | getPrimary => exact .inr (.inr ⟨by simp, by simp, _, rfl⟩)
  | setPrimary S =>
    simp only [script, Script.run_look]
    by_cases e : a.cmdline = S
    · rw [if_pos e]
      exact .inr (.inr ⟨by simp [e], by simp, _, rfl⟩)
    · rw [if_neg e]
      exact .inl ⟨S, rfl, Slot.ne_iff.mp (Ne.symm e), rfl⟩
  | getState S => exact .inr (.inr ⟨by simp, by simp, _, rfl⟩)
  | setState S good =>
    cases good with
    | false => exact .inr (.inr ⟨by simp, by simp, _, rfl⟩)
    | true =>
      by_cases hS : a.commits S
      · have hK := (h.commits hS).2
        obtain ⟨hf, hC, -⟩ := id hS
        refine .inr (.inl ⟨S, (markGood S a).good, rfl, hS, ?_⟩)
        simp only [script, Script.run_look, hC, hK]
        rw [if_pos hf, if_neg (by simp)]
        rfl
      · refine .inr (.inr ⟨by simp, ?_, ?_⟩)
        · rintro T hT
          cases hT
          exact hS
        · simp only [script, Script.run_look]
          split
          · rename_i hf
            split
            · exact ⟨_, rfl⟩
            · exact ⟨_, rfl⟩
            · rename_i C K hC hK
              have hne : C ≠ S := fun e => hS ⟨hf, by rw [hC, e], by rw [hK]; rfl⟩
              rw [if_pos hne]
              exact ⟨_, rfl⟩
          · exact ⟨_, rfl⟩

theorem inv_call {a : Ab} (h : a.Inv) (c : Call) : (a.step (.call c)).Inv := by
  rcases call_cases h c with ⟨S, -, hS, hs⟩ | ⟨S, g, -, hS, hs⟩ | ⟨-, -, g, hs⟩ <;> rw [hs]
  · refine ⟨?_, fun _ => ⟨by rw [hS], by rw [hS]⟩, fun _ T hT => hT, h.running⟩
    show some S ≠ some a.cmdline
    rw [hS]
    simp
  · exact ⟨by simp, by simp, by simp, h.running⟩
  · exact ⟨h.stale, h.armed, h.tried, h.running⟩

theorem inv_start {a : Ab} (hs : a.trybootCmdline ≠ some a.cmdline) {flag : Bool}
    (hf : flag = true → ∃ S, a.trybootCmdline = some S ∧ a.trybootConfig = some S) :
    (a.start flag).Inv := by
  cases flag with
  | false => exact ⟨hs, by simp [start], by simp [start], by simp [start]⟩
  | true =>
    obtain ⟨S, hC, hK⟩ := hf rfl
    refine ⟨hs, by simp [start], fun _ T hT => ?_, fun _ => ⟨S, hK, ?_⟩⟩
    · exact hK.trans (hC.symm.trans hT)
    · show (a.trybootConfig.bind fun _ => a.trybootCmdline) = some S
      rw [hK, hC]
      rfl

theorem inv_step {a : Ab} (h : a.Inv) (e : Event) : (a.step e).Inv := by
  cases e with
  | call c => exact inv_call h c
  | reboot => exact inv_start h.stale fun ha => ⟨_, h.armed ha⟩
  | lossDuring c k =>
    exact inv_start ((script_keeps_stale c h.stale).cut h.stale k) (by simp)

theorem inv_factory : factory.Inv :=
  ⟨by simp [factory], by simp [factory], by simp [factory], by simp [factory]⟩

theorem inv_after (es : List Event) : (after es).Inv :=
  run_keeps (I := Inv) (fun _ e h => inv_step h e) inv_factory es

/-! ## Orderly runs -/

/-- What also holds without power losses. -/
structure Orderly (a : Ab) : Prop where
  inv : a.Inv
  coherent : a.config = a.cmdline
  /-- A boot not started by tryboot runs the slot of normal boots. -/
  normal : a.flag = false → a.kernel = some a.cmdline ∧ a.bootargs = some a.cmdline

theorem orderly_call {a : Ab} (h : a.Orderly) (c : Call) : (a.step (.call c)).Orderly := by
  refine ⟨inv_call h.inv c, ?_, ?_⟩ <;>
    rcases call_cases h.inv c with ⟨S, -, -, hs⟩ | ⟨S, g, -, hS, hs⟩ | ⟨-, -, g, hs⟩ <;> rw [hs]
  · exact h.coherent
  · exact h.coherent
  · exact h.normal
  · intro hf
    exact absurd (hS.1.symm.trans hf) (by decide)
  · exact h.normal

theorem orderly_reboot {a : Ab} (h : a.Orderly) : (a.step .reboot).Orderly := by
  refine ⟨inv_step h.inv .reboot, ?_, ?_⟩ <;> rw [step, start] <;> split
  · exact h.coherent
  · exact h.coherent
  · intro hf
    cases hf
  · exact fun _ => ⟨congrArg some h.coherent, rfl⟩

theorem orderly_step {a : Ab} (h : a.Orderly) {e : Event} (he : e.orderly = true) :
    (a.step e).Orderly := by
  cases e with
  | call c => exact orderly_call h c
  | reboot => exact orderly_reboot h
  | lossDuring c k => cases he

theorem orderly_factory : factory.Orderly :=
  ⟨inv_factory, rfl, fun _ => ⟨rfl, rfl⟩⟩

theorem orderly_after {es : List Event} (h : ∀ e ∈ es, e.orderly = true) : (after es).Orderly :=
  run_keeps_along (I := Orderly) (fun _ _ h he => orderly_step h he) orderly_factory
    (along_forall.mpr h)

end Ab

/-! ## In terms of the machine -/

namespace Rep

variable {s : Sys} {a : Ab}

theorem commits_iff (h : Rep s a) (S : Slot) : s.commits S ↔ a.commits S := by
  have hf : s.chosen.tryboot = a.flag := by rw [h.chosen]; rfl
  unfold Sys.commits Ab.commits
  rw [hf, commitCheck_eq h]
  cases a.trybootCmdline with
  | none => simp
  | some C => cases a.trybootConfig <;> simp

theorem tryboot (h : Rep s a) : s.chosen.tryboot = a.flag := by rw [h.chosen]; rfl

theorem trybootNext (h : Rep s a) : s.trybootNext = a.armed := by
  rw [Sys.trybootNext, h.param]
  cases a.armed <;> rfl

theorem designates_iff (h : Rep s a) (S : Slot) :
    s.chosen.Designates S ↔ a.kernel = some S ∧ a.bootargs = some S := by
  rw [h.chosen]
  refine and_congr ?_ ?_
  · show (a.kernel.map prefixFor).getD [] = prefixFor S ↔ _
    cases a.kernel with
    | none => revert S; decide
    | some K => revert K S; decide
  · have hb : a.chosen.bootargs = (a.bootargs.map cmdlineFor).getD [] := rfl
    rw [hb]
    cases a.bootargs with
    | none => revert S; decide
    | some C =>
      rw [Option.map_some, Option.getD_some, capture_slot, capture_root]
      revert C S
      decide

/-- What the next boot starts. -/
theorem nextBoot_iff (h : Rep s a) (flag : Bool) (S : Slot) :
    (nextBoot s.boot flag).Designates S ↔
      (a.start flag).kernel = some S ∧ (a.start flag).bootargs = some S :=
  (h.start flag).designates_iff S

theorem normal_iff (h : Rep s a) (S : Slot) :
    (nextBoot s.boot false).Designates S ↔ a.config = S ∧ a.cmdline = S := by
  rw [h.nextBoot_iff]
  simp [Ab.start]

theorem coherent_iff (h : Rep s a) : Coherent s.boot ↔ a.config = a.cmdline := by
  simp only [Coherent, h.normal_iff]
  exact ⟨fun ⟨S, h1, h2⟩ => h1.trans h2.symm, fun e => ⟨_, e, rfl⟩⟩

end Rep

end HassOS.Tryboot
