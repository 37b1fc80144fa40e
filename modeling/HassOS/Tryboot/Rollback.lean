import HassOS.Tryboot.Invariant

/-!
# Rollback

As long as `set-state good` is never called for the other slot, an update
leaves no trace in what a normal boot reads, however often it is tried
(`uncommitted_rolls_back`): a `cmdline-tryboot.txt` on disk is never for the
slot of `cmdline.txt`, so that `set-state good` for that slot does not commit.
-/

namespace HassOS.Tryboot

open Framework

namespace Ab

/-- The state of a machine whose slot A was never replaced. -/
structure OnA (a : Ab) : Prop where
  orderly : a.Orderly
  cmdline : a.cmdline = .A

theorem onA_step {a : Ab} (h : a.OnA) {e : Event}
    (he : e.orderly = true ∧ e ≠ .call (.setState .B true)) : (a.step e).OnA := by
  refine ⟨orderly_step h.orderly he.1, ?_⟩
  cases e with
  | lossDuring c k => cases he.1
  | reboot =>
    rw [step, start]
    split <;> exact h.cmdline
  | call c =>
    rcases call_cases h.orderly.inv c with ⟨S, -, -, hs⟩ | ⟨S, g, rfl, hS, -⟩ | ⟨-, -, g, hs⟩
    · rw [hs]
      exact h.cmdline
    · -- A commit would be of the slot that `cmdline.txt` does not name.
      have hB : S = .B := by
        rw [(h.orderly.inv.commits hS).1, h.cmdline]
        rfl
      exact absurd (by rw [hB]) he.2
    · rw [hs]
      exact h.cmdline

theorem onA_after {es : List Event}
    (h : ∀ e ∈ es, e.orderly = true ∧ e ≠ .call (.setState .B true)) : (after es).OnA :=
  run_keeps_along (I := OnA) (fun _ _ h he => onA_step h he) ⟨orderly_factory, rfl⟩
    (along_forall.mpr h)

end Ab

/-- Without power losses and without `set-state B good`, `config.txt` and
`cmdline.txt` stay those of the factory, and every boot that is not a tryboot
is one of slot A, the present one and a next one alike. -/
theorem uncommitted_rolls_back (es : List Event)
    (h : ∀ e ∈ es, e.orderly = true ∧ e ≠ .call (.setState .B true)) :
    (Sys.after es).boot configTxt = factory.boot configTxt ∧
      (Sys.after es).boot cmdlineTxt = factory.boot cmdlineTxt ∧
      ((Sys.after es).chosen.tryboot = false → (Sys.after es).chosen.Designates .A) ∧
      (nextBoot (Sys.after es).boot false).Designates .A := by
  have hr := after_rep es
  obtain ⟨ho, hc⟩ := Ab.onA_after h
  have hg : (Ab.after es).config = .A := ho.coherent.trans hc
  refine ⟨?_, ?_, ?_, ?_⟩
  · have hn : (Ab.after es).node .config = Ab.factory.node .config := by
      rw [Ab.node, hg]
      rfl
    exact (hr.boot .config).trans (hn.trans (factory_rep.boot .config).symm)
  · have hn : (Ab.after es).node .cmdline = Ab.factory.node .cmdline := by
      rw [Ab.node, hc]
      rfl
    exact (hr.boot .cmdline).trans (hn.trans (factory_rep.boot .cmdline).symm)
  · rw [hr.tryboot, hr.designates_iff, ← hc]
    exact ho.normal
  · rw [hr.normal_iff]
    exact ⟨hg, hc⟩

/-- Two failed tryboots of slot B, with slot A marked good in the first. -/
theorem failed_tryboots_roll_back :
    let es : List Event := [.call (.setPrimary .B), .reboot, .call (.setState .A true), .reboot,
      .call (.setPrimary .B), .reboot, .call (.setState .B false), .reboot]
    (Sys.after es).boot configTxt = factory.boot configTxt ∧
      (Sys.after es).boot cmdlineTxt = factory.boot cmdlineTxt ∧
      (Sys.after es).chosen.Designates .A := by
  intro es
  obtain ⟨h1, h2, h3, -⟩ := uncommitted_rolls_back es (by decide)
  refine ⟨h1, h2, h3 ?_⟩
  rw [(after_rep es).tryboot]
  decide

end HassOS.Tryboot
