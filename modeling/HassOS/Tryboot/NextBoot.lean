import HassOS.Tryboot.Invariant

/-!
# The last `set-primary` and the next boot

`set-primary` exits early when `cmdline.txt` already names the slot, and then
leaves what an earlier `set-primary` of the same boot prepared. What follows
from the calls after it is worked out in one place (`Ab.run_calls`):
`next_boot_iff` says when the next boot attempts the slot that was asked for
last.
-/

namespace HassOS.Tryboot

open Framework

/-- `set-primary` of a slot always succeeds. -/
theorem setPrimary_status (s : Sys) (S : Slot) :
    ((Call.setPrimary S).script.run s).2.status = 0 := by
  show ((setPrimary S.name).run s).2.status = 0
  simp only [setPrimary, rootSlot?_name, Script.run_look]
  split <;> rfl

namespace Ab

/-- A sequence of calls that prepares nothing leaves the files alone, unless it
commits the prepared slot. -/
theorem run_calls {a : Ab} (h : a.Inv) {cs : List Call} (hcs : ∀ c ∈ cs, ∀ S, c ≠ .setPrimary S) :
    ((∀ S, .setState S true ∈ cs → ¬ a.commits S) ∧
      ∃ g, run step a (cs.map .call) = { a with good := g }) ∨
    ∃ S g, .setState S true ∈ cs ∧ a.commits S ∧ run step a (cs.map .call) =
      { a with config := S, cmdline := S, trybootCmdline := none, trybootConfig := none,
               armed := false, good := g } := by
  induction cs generalizing a with
  | nil => exact .inl ⟨by simp, _, rfl⟩
  | cons c cs ih =>
    have hc := hcs c List.mem_cons_self
    have ih := fun {b : Ab} (hb : b.Inv) => ih hb fun c' h' => hcs c' (List.mem_cons_of_mem _ h')
    have hi := inv_call h c
    rw [List.map_cons, run_cons]
    rcases call_cases h c with ⟨S, hS, -⟩ | ⟨S, g, rfl, hS, hs⟩ | ⟨-, hn, g, hs⟩
    · exact absurd hS (hc S)
    · -- Nothing is left to commit.
      rw [hs] at hi ⊢
      rcases ih hi with ⟨-, g', hr⟩ | ⟨T, g', -, hT, -⟩
      · exact .inr ⟨S, g', List.mem_cons_self, hS, hr⟩
      · exact absurd hT.2.1 (by simp)
    · rw [hs] at hi ⊢
      rcases ih hi with ⟨hno, g', hr⟩ | ⟨T, g', hT, hc', hr⟩
      · refine .inl ⟨fun S hS => ?_, g', hr⟩
        rcases List.mem_cons.mp hS with e | hS
        · exact hn S e.symm
        · exact hno S hS
      · exact .inr ⟨T, g', List.mem_cons_of_mem _ hT, hc', hr⟩

/-- Where the next boot goes once `S` was asked for last. -/
theorem next_boot {a : Ab} (h : a.Inv) (S : Slot) {cs : List Call}
    (hcs : ∀ c ∈ cs, ∀ T, c ≠ .setPrimary T) :
    let b := (run step a (.call (.setPrimary S) :: cs.map .call)).step .reboot
    (b.kernel = some S ∧ b.bootargs = some S) ↔
      a.cmdline ≠ S ∨ (a.armed = false ∧ (a.config = S ∧ a.cmdline = S) ∧
        ∀ T, .setState T true ∈ cs → ¬ a.commits T) := by
  intro b
  have hi := inv_call h (.setPrimary S)
  rcases call_cases h (.setPrimary S) with ⟨T, hT, hTo, hs⟩ | ⟨T, g, hT, -⟩ | ⟨hn, -, g, hs⟩
  · -- A tryboot of `S` is prepared, and stays so unless it is committed.
    cases hT
    have hne : a.cmdline ≠ S := by
      rw [hTo]
      exact Slot.ne_other _
    refine iff_of_true ?_ (.inl hne)
    have hb : b = (run step (a.step (.call (.setPrimary S))) (cs.map .call)).step .reboot := rfl
    rw [hs] at hi hb
    rcases run_calls hi hcs with ⟨-, g, hr⟩ | ⟨T, g, -, hT, hr⟩
    · rw [hb, hr]
      exact ⟨rfl, rfl⟩
    · obtain rfl : S = T := Option.some.inj hT.2.1
      rw [hb, hr]
      exact ⟨rfl, rfl⟩
  · cases hT
  · -- The early exit: the files are what they were.
    have hc := hn S rfl
    have hb : b = (run step (a.step (.call (.setPrimary S))) (cs.map .call)).step .reboot := rfl
    rw [hs] at hi hb
    rcases run_calls hi hcs with ⟨hno, g', hr⟩ | ⟨T, g', hT, hc', hr⟩
    · rw [hb, hr]
      cases ha : a.armed with
      | true =>
        obtain ⟨hC, hK⟩ := h.armed ha
        simp [step, start, hK, hc]
      | false =>
        constructor
        · rintro ⟨hk, -⟩
          exact .inr ⟨rfl, ⟨Option.some.inj hk, hc⟩, hno⟩
        · rintro (hne | ⟨-, ⟨h1, h2⟩, -⟩)
          · exact absurd hc hne
          · exact ⟨congrArg some h1, congrArg some h2⟩
    · have hTo := (h.commits hc').1
      have hTS : T ≠ S := by
        rw [hTo, hc]
        exact S.other_ne
      rw [hb, hr]
      refine iff_of_false ?_ ?_
      · simp [step, start, hTS]
      · rintro (hne | ⟨-, -, hno⟩)
        · exact hne hc
        · exact hno T hT hc'

end Ab

/-- After `set-primary S` and calls other than `set-primary`, the next orderly
reboot attempts `S` exactly if `set-primary` did not exit early, or no tryboot
was asked for, normal boots were those of `S` and no call committed. -/
theorem next_boot_iff (es : List Event) (S : Slot) (cs : List Call)
    (hcs : ∀ c ∈ cs, ∀ T, c ≠ .setPrimary T) :
    (Sys.after (es ++ .call (.setPrimary S) :: cs.map .call ++ [.reboot])).chosen.Designates S ↔
      getPrimary (Sys.after es).boot ≠ S.name ∨
        ((Sys.after es).trybootNext = false ∧ (nextBoot (Sys.after es).boot false).Designates S ∧
          ∀ T, .setState T true ∈ cs → ¬ (Sys.after es).commits T) := by
  have hr := after_rep es
  have hb : Ab.after (es ++ .call (.setPrimary S) :: cs.map .call ++ [.reboot]) =
      (run Ab.step (Ab.after es) (.call (.setPrimary S) :: cs.map .call)).step .reboot := by
    rw [Ab.after, run_snoc, run_append]
    rfl
  have h := Ab.next_boot (Ab.inv_after es) S hcs
  rw [(after_rep _).designates_iff, hb, hr.getPrimary_eq, ne_eq, Slot.name_inj, hr.trybootNext,
    hr.normal_iff]
  simpa only [hr.commits_iff] using h

/-- The first update of a machine. -/
theorem next_boot_first_update :
    (Sys.after [.call (.setPrimary .B), .reboot]).chosen.Designates .B :=
  (next_boot_iff [] .B [] (by simp)).mpr <| .inl <| by
    rw [(after_rep []).getPrimary_eq]
    decide

/-- To slot B and back again, within one boot. -/
theorem next_boot_switch_back :
    ¬ (Sys.after [.call (.setPrimary .B), .call (.setPrimary .A), .reboot]).chosen.Designates
      .A := by
  rw [(after_rep _).designates_iff]
  decide

end HassOS.Tryboot
