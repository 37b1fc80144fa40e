import HassOS.Tryboot.Invariant

/-!
# Power losses

The commit rewrites `config.txt` before it renames `cmdline-tryboot.txt`, with
no journal: a power loss between the two pairs one slot's kernel with the
other's root file system (`Ab.tears_step`), and so it stays until a later
commit gets past the rename. Nothing else breaks what a normal boot reads
(`coherent_after_iff`).
-/

namespace HassOS.Tryboot

open Framework

/-- Power is lost between the writing of `config.txt` and the renaming of
`cmdline-tryboot.txt` in a commit. -/
def Sys.tears (s : Sys) (e : Event) : Prop :=
  ∃ S, s.commits S ∧ e = .lossDuring (.setState S true) 1

/-- A commit gets past the renaming of `cmdline-tryboot.txt`. -/
def Sys.completes (s : Sys) (e : Event) : Prop :=
  ∃ S, s.commits S ∧
    (e = .call (.setState S true) ∨ ∃ k ≥ 2, e = .lossDuring (.setState S true) k)

/-- A power loss tore a commit, and no commit got past the renaming since. -/
def Torn (es : List Event) : Prop :=
  ∃ pre e post, es = pre ++ e :: post ∧ (Sys.after pre).tears e ∧
    Along Sys.step (fun s e => ¬ s.completes e) (Sys.after (pre ++ [e])) post

namespace Ab

variable {a : Ab} {S : Slot}

/-- A tear leaves the other slot in `cmdline.txt`. -/
theorem tears_step (h : a.Inv) (hS : a.commits S) :
    let b := a.step (.lossDuring (.setState S true) 1)
    b.config = S ∧ b.cmdline = S.other := by
  obtain ⟨hc, hK⟩ := h.commits hS
  obtain ⟨h1, h2⟩ := cut_commit hS hK 1
  refine ⟨h1, h2.trans ?_⟩
  rw [if_pos (by decide), hc, Slot.other_other]

theorem completes_step (h : a.Inv) (hS : a.commits S) {e : Event}
    (he : e = .call (.setState S true) ∨ ∃ k ≥ 2, e = .lossDuring (.setState S true) k) :
    (a.step e).config = (a.step e).cmdline := by
  have hK := (h.commits hS).2
  rcases he with rfl | ⟨k, hk, rfl⟩
  · rcases call_cases h (.setState S true) with ⟨T, hT, -⟩ | ⟨T, g, -, -, hs⟩ | ⟨-, hn, -⟩
    · cases hT
    · rw [hs]
    · exact absurd hS (hn S rfl)
  · obtain ⟨h1, h2⟩ := cut_commit hS hK k
    rw [if_neg (by omega)] at h1 h2
    exact h1.trans h2.symm

/-- Every other event leaves `config.txt` and `cmdline.txt` alone. -/
theorem other_step {e : Event} (h1 : ∀ S, a.commits S → e ≠ .lossDuring (.setState S true) 1)
    (h2 : ∀ S, a.commits S → e ≠ .call (.setState S true) ∧
      ∀ k ≥ 2, e ≠ .lossDuring (.setState S true) k) (h : a.Inv) :
    (a.step e).config = a.config ∧ (a.step e).cmdline = a.cmdline := by
  cases e with
  | call c => exact (script_keeps_boot fun S e hS => (h2 S hS).1 (by rw [e])).run ⟨rfl, rfl⟩
  | reboot =>
    rw [step, start]
    split <;> exact ⟨rfl, rfl⟩
  | lossDuring c k =>
    by_cases hc : ∃ S, c = .setState S true ∧ a.commits S
    · obtain ⟨S, rfl, hS⟩ := hc
      have hk : k = 0 := by
        have hk1 : k ≠ 1 := fun e => h1 S hS (by rw [e])
        have hk2 : ¬ k ≥ 2 := fun e => (h2 S hS).2 k e rfl
        omega
      subst hk
      exact cut_commit hS (h.commits hS).2 0
    · exact (script_keeps_boot fun S e hS => hc ⟨S, e, hS⟩).cut ⟨rfl, rfl⟩ k

end Ab

/-- What a normal boot reads is coherent exactly when no torn commit is left. -/
theorem coherent_after_iff (es : List Event) : Coherent (Sys.after es).boot ↔ ¬ Torn es := by
  refine (not_iff_comm.mp (run_latch_of_not (I := fun s => ∃ a, Rep s a ∧ a.Inv)
    (b := fun s => ¬ Coherent s.boot) (p := Sys.tears) (q := Sys.completes)
    ?_ ?_ ?_ ?_ ⟨_, factory_rep, Ab.inv_factory⟩ ?_ es)).symm
  · rintro s e ⟨a, hr, hi⟩
    exact ⟨a.step e, step_rep hr e, Ab.inv_step hi e⟩
  · rintro s e ⟨a, hr, hi⟩ ⟨S, hS, rfl⟩
    rw [(step_rep hr _).coherent_iff]
    obtain ⟨h1, h2⟩ := Ab.tears_step hi ((hr.commits_iff S).mp hS)
    rw [h1, h2]
    exact S.ne_other
  · rintro s e ⟨a, hr, hi⟩ ⟨S, hS, he⟩
    rw [(step_rep hr _).coherent_iff, not_not]
    exact Ab.completes_step hi ((hr.commits_iff S).mp hS) he
  · rintro s e ⟨a, hr, hi⟩ h1 h2
    obtain ⟨hg, hc⟩ := Ab.other_step (a := a) (e := e)
      (fun S hS he => h1 ⟨S, (hr.commits_iff S).mpr hS, he⟩)
      (fun S hS => ⟨fun he => h2 ⟨S, (hr.commits_iff S).mpr hS, .inl he⟩,
        fun k hk he => h2 ⟨S, (hr.commits_iff S).mpr hS, .inr ⟨k, hk, he⟩⟩⟩) hi
    rw [(step_rep hr e).coherent_iff, hr.coherent_iff, hg, hc]
  · rw [factory_rep.coherent_iff, not_not]
    rfl

/-- A commit of slot B, cut after its first operation. -/
theorem torn_commit_incoherent : ¬ Coherent (Sys.after [.call (.setPrimary .B), .reboot,
    .lossDuring (.setState .B true) 1]).boot := by
  rw [(after_rep _).coherent_iff]
  decide

end HassOS.Tryboot
