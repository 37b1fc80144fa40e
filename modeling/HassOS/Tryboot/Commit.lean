import HassOS.Tryboot.Invariant

/-!
# What gets committed

`set-state good` decides from the tryboot flag, which stays set for the whole
boot, and from the `cmdline-tryboot.txt` on disk, which a later `set-primary`
of the same boot may have written for the other slot (`Rearmed`). Apart from
that, only the slot that runs is ever committed (`commits_running_iff`).
-/

namespace HassOS.Tryboot

open Framework

/-- `set-state S good` makes `S` the slot of normal boots. -/
def Sys.takesOver (s : Sys) (S : Slot) : Prop :=
  ¬ (nextBoot s.boot false).Designates S ∧
    (nextBoot (s.step (.call (.setState S true))).boot false).Designates S

/-- The current boot was started by the firmware through tryboot from `S`. -/
def Sys.triedFrom (s : Sys) (S : Slot) : Prop :=
  s.chosen.tryboot = true ∧ s.chosen.Designates S

/-- Every `set-state good` of the run that moves normal boots to a slot is
called in a tryboot of that slot. -/
def CommitsRunning (es : List Event) : Prop :=
  Along Sys.step (fun s e => ∀ S, e = .call (.setState S true) → s.takesOver S → s.triedFrom S)
    factory es

/-- `set-primary S` goes past its early exit while a tryboot of the other slot
runs. -/
def Sys.rearms (s : Sys) (S : Slot) (e : Event) : Prop :=
  e = .call (.setPrimary S) ∧ s.chosen.tryboot = true ∧ ¬ s.chosen.Designates S ∧
    getPrimary s.boot ≠ S.name

/-- While a tryboot of the other slot runs, `set-primary S` goes past its early
exit, and `set-state S good` follows within the same boot. -/
def Rearmed (es : List Event) : Prop :=
  ∃ S pre e mid post, es = pre ++ e :: mid ++ .call (.setState S true) :: post ∧
    (Sys.after pre).rearms S e ∧ ∀ e ∈ mid, ∃ c, e = .call c

namespace Ab

/-- `set-state S good` would commit `S`, and `S` does not run. -/
def Pending (a : Ab) (S : Slot) : Prop :=
  a.commits S ∧ ¬ (a.kernel = some S ∧ a.bootargs = some S)

/-- The running system is the one that was started, whatever was called. -/
theorem chosen_calls {a : Ab} {es : List Event} (h : ∀ e ∈ es, ∃ c, e = .call c) :
    let b := run step a es
    b.flag = a.flag ∧ b.kernel = a.kernel ∧ b.bootargs = a.bootargs := by
  have hal : Along step (fun _ (e : Event) => ∃ c, e = .call c) a es := along_forall.mpr h
  refine run_keeps_along
    (I := fun b : Ab => b.flag = a.flag ∧ b.kernel = a.kernel ∧ b.bootargs = a.bootargs) ?_
    ⟨rfl, rfl, rfl⟩ hal
  rintro b e ⟨h1, h2, h3⟩ ⟨c, rfl⟩
  obtain ⟨g1, g2, g3⟩ := (script_keeps_chosen b c).run ⟨rfl, rfl, rfl⟩
  exact ⟨g1.trans h1, g2.trans h2, g3.trans h3⟩

variable {a : Ab} {S : Slot}

/-- A commit, and only a commit, moves normal boots. -/
theorem takesOver_iff (h : a.Inv) :
    (¬ (a.config = S ∧ a.cmdline = S) ∧ (a.step (.call (.setState S true))).config = S ∧
      (a.step (.call (.setState S true))).cmdline = S) ↔ a.commits S := by
  rcases call_cases h (.setState S true) with ⟨T, hT, -⟩ | ⟨T, g, hT, hS, hs⟩ | ⟨-, hn, g, hs⟩
  · cases hT
  · cases hT
    rw [hs]
    refine iff_of_true ⟨?_, rfl, rfl⟩ hS
    rintro ⟨-, hc⟩
    exact h.stale (hS.2.1.trans (by rw [hc]))
  · rw [hs]
    exact iff_of_false (fun hx => hx.1 hx.2) (hn S rfl)

theorem pending_rearmed (h : a.Inv) (hf : a.flag = true)
    (hd : ¬ (a.kernel = some S ∧ a.bootargs = some S)) (hc : a.cmdline ≠ S) :
    (a.step (.call (.setPrimary S))).Pending S := by
  rcases call_cases h (.setPrimary S) with ⟨T, hT, -, hs⟩ | ⟨T, g, hT, -⟩ | ⟨hn, -⟩
  · cases hT
    rw [hs]
    exact ⟨⟨hf, rfl, rfl⟩, hd⟩
  · cases hT
  · exact absurd (hn S rfl) hc

/-- Nothing is pending right after a boot. -/
theorem not_pending_start (h : a.Inv) {e : Event} (he : ∀ c, e ≠ .call c) :
    ¬ (a.step e).Pending S := by
  cases e with
  | call c => exact absurd rfl (he c)
  | reboot =>
    rintro ⟨⟨hf, hC, -⟩, hd⟩
    have ha : a.armed = true := by
      by_contra ha
      rw [step, start, if_neg ha] at hf
      cases hf
    rw [step, start, if_pos ha] at hC hd
    obtain ⟨hC', hK⟩ := h.armed ha
    have hS : a.cmdline.other = S := Option.some.inj (hC'.symm.trans hC)
    refine hd ⟨hK.trans (congrArg some hS), ?_⟩
    show (a.trybootConfig.bind fun _ => a.trybootCmdline) = some S
    rw [hK, hC', ← hS]
    rfl
  | lossDuring c k =>
    rintro ⟨⟨hf, -⟩, -⟩
    cases hf

/-- Only `set-primary S` and the commit of `S` matter to what is pending. -/
theorem pending_call (h : a.Inv) {c : Call}
    (hp : ¬ (c = .setPrimary S ∧ a.flag = true ∧ ¬ (a.kernel = some S ∧ a.bootargs = some S) ∧
      a.cmdline ≠ S))
    (hc : ¬ (c = .setState S true ∧ a.commits S)) :
    (a.step (.call c)).Pending S ↔ a.Pending S := by
  rcases call_cases h c with ⟨T, rfl, hT, hs⟩ | ⟨T, g, rfl, hT, hs⟩ | ⟨-, -, g, hs⟩ <;> rw [hs]
  · -- Neither before nor after: `T` is the slot that `cmdline.txt` does not name.
    refine iff_of_false ?_ ?_
    · rintro ⟨⟨hf, hC, -⟩, hd⟩
      obtain rfl : T = S := Option.some.inj hC
      refine hp ⟨rfl, hf, hd, ?_⟩
      rw [hT]
      exact Slot.ne_other _
    · rintro ⟨hS, hd⟩
      obtain rfl : S = T := (h.eq_other hS.2.1).trans hT.symm
      refine hp ⟨rfl, hS.1, hd, ?_⟩
      rw [hT]
      exact Slot.ne_other _
  · refine iff_of_false ?_ ?_
    · rintro ⟨⟨-, hC, -⟩, -⟩
      cases hC
    · rintro ⟨hS, -⟩
      obtain rfl : S = T := Option.some.inj (hS.2.1.symm.trans hT.2.1)
      exact hc ⟨rfl, hS⟩
  · exact Iff.rfl

end Ab

/-- What is pending was prepared by such a `set-primary` of the same boot. -/
theorem pending_iff (S : Slot) (es : List Event) :
    (Ab.after es).Pending S ↔ ∃ pre e post, es = pre ++ e :: post ∧ (Sys.after pre).rearms S e ∧
      Along Ab.step (fun a e => ¬ ((∀ c, e ≠ .call c) ∨
        e = .call (.setState S true) ∧ a.commits S)) (Ab.after (pre ++ [e])) post := by
  have hp : ∀ pre e, (Sys.after pre).rearms S e ↔ e = .call (.setPrimary S) ∧
      (Ab.after pre).flag = true ∧
      ¬ ((Ab.after pre).kernel = some S ∧ (Ab.after pre).bootargs = some S) ∧
      (Ab.after pre).cmdline ≠ S := by
    intro pre e
    have hr := after_rep pre
    rw [Sys.rearms, hr.tryboot, hr.designates_iff, hr.getPrimary_eq, ne_eq, Slot.name_inj]
  simp only [hp]
  refine run_latch_of_not (I := Ab.Inv) (b := fun a => a.Pending S)
    (p := fun a e => e = .call (.setPrimary S) ∧ a.flag = true ∧
      ¬ (a.kernel = some S ∧ a.bootargs = some S) ∧ a.cmdline ≠ S)
    (fun _ e h => Ab.inv_step h e) ?_ ?_ ?_ Ab.inv_factory ?_ es
  · rintro a e h ⟨rfl, hf, hd, hc⟩
    exact Ab.pending_rearmed h hf hd hc
  · rintro a e h (he | ⟨rfl, hS⟩)
    · exact Ab.not_pending_start h he
    · rcases Ab.call_cases h (.setState S true) with ⟨T, hT, -⟩ | ⟨T, g, -, -, hs⟩ | ⟨-, hn, -⟩
      · cases hT
      · rw [hs]
        rintro ⟨⟨-, hC, -⟩, -⟩
        cases hC
      · exact absurd hS (hn S rfl)
  · intro a e h h1 h2
    have ⟨c, he⟩ : ∃ c, e = .call c := by
      by_contra hn
      exact h2 (.inl fun c he => hn ⟨c, he⟩)
    subst he
    exact Ab.pending_call h (fun hx => h1 ⟨congrArg _ hx.1, hx.2⟩)
      (fun hx => h2 (.inr ⟨congrArg _ hx.1, hx.2⟩))
  · rintro ⟨⟨hf, -⟩, -⟩
    cases hf

/-- Only the slot that runs is ever committed, exactly if no tryboot of the
other slot was prepared in a tryboot and committed in the same boot. -/
theorem commits_running_iff (es : List Event) : CommitsRunning es ↔ ¬ Rearmed es := by
  have hto : ∀ pre S, (Sys.after pre).takesOver S ↔ (Ab.after pre).commits S := by
    intro pre S
    have hr := after_rep pre
    rw [Sys.takesOver, hr.normal_iff, (step_rep hr _).normal_iff,
      Ab.takesOver_iff (Ab.inv_after pre)]
  have htf : ∀ pre S, (Ab.after pre).commits S →
      ((Sys.after pre).triedFrom S ↔ ¬ (Ab.after pre).Pending S) := by
    intro pre S hS
    have hr := after_rep pre
    rw [Sys.triedFrom, hr.tryboot, hr.designates_iff, Ab.Pending]
    simp [hS, hS.1]
  constructor
  · rintro h ⟨S, pre, e, mid, post, rfl, he, hmid⟩
    rw [CommitsRunning, along_iff] at h
    have hrun : ∀ m, Ab.after (pre ++ e :: m) = run Ab.step (Ab.after (pre ++ [e])) m := by
      intro m
      rw [Ab.after, Ab.after, ← run_append, List.append_assoc, List.singleton_append]
    -- The running system is that of `pre` throughout, so a commit of `S` is a violation.
    have hd : ∀ m, (∀ x ∈ m, ∃ c, x = .call c) →
        ¬ (Sys.after (pre ++ e :: m)).chosen.Designates S := by
      intro m hm
      have hcalls : ∀ x ∈ e :: m, ∃ c, x = .call c := fun x hx => by
        rcases List.mem_cons.mp hx with rfl | hx
        · exact ⟨_, he.1⟩
        · exact hm x hx
      obtain ⟨-, hk, hb⟩ := Ab.chosen_calls (a := Ab.after pre) hcalls
      have hnd := he.2.2.1
      rw [(after_rep pre).designates_iff] at hnd
      rw [(after_rep _).designates_iff, Ab.after, run_append]
      rwa [← hk, ← hb] at hnd
    have hP : (Ab.after (pre ++ e :: mid)).Pending S := by
      refine (pending_iff S _).mpr ⟨pre, e, mid, rfl, he, along_iff.mpr ?_⟩
      rintro m₁ x m₂ rfl (hx | ⟨rfl, hS⟩)
      · obtain ⟨c, hc⟩ := hmid x (by simp)
        exact hx c hc
      · rw [← hrun] at hS
        have hv := h (pre ++ e :: m₁) _ (m₂ ++ .call (.setState S true) :: post) (by simp) S rfl
          ((hto _ S).mpr hS)
        exact hd m₁ (fun x hx => hmid x (by simp [hx])) hv.2
    exact hd mid hmid (h (pre ++ e :: mid) _ post rfl S rfl ((hto _ S).mpr hP.1)).2
  · intro h
    rw [CommitsRunning, along_iff]
    rintro pre _ post rfl S rfl hS
    refine (htf pre S ((hto pre S).mp hS)).mpr fun hP => h ?_
    obtain ⟨p, e, mid, rfl, he, hmid⟩ := (pending_iff S pre).mp hP
    refine ⟨S, p, e, mid, post, rfl, he, fun x hx => ?_⟩
    obtain ⟨m₁, m₂, rfl⟩ := List.append_of_mem hx
    by_contra hn
    exact (along_append.mp hmid).2.1 (.inl fun c hc => hn ⟨c, hc⟩)

/-- A second update cycle within the boot that committed the first. -/
theorem commits_unbooted : ¬ CommitsRunning [.call (.setPrimary .B), .reboot,
    .call (.setState .B true), .call (.setPrimary .A), .call (.setState .A true)] := by
  intro h
  let es : List Event := [.call (.setPrimary .B), .reboot, .call (.setState .B true),
    .call (.setPrimary .A)]
  have hr := after_rep es
  have hto : (Sys.after es).takesOver .A := by
    rw [Sys.takesOver, hr.normal_iff, (step_rep hr _).normal_iff]
    decide
  have htf := along_iff.mp h es _ [] rfl .A rfl hto
  exact absurd ((hr.designates_iff .A).mp htf.2) (by decide)

end HassOS.Tryboot
