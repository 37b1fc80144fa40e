import HassOS.Framework.Run

/-!
# Scripts that stop at the first failing command

A script under `errexit` is a list of commands (`Shell`). A command that
succeeds does what it is for; one that fails may leave any part of that done;
and a failure stops the script unless it is tolerated (`|| true`). Power may
be lost between any two commands. `Stops` are the states a script can stop in,
and how.

`Triple A cs C B` is a triple with a crash condition: from a state that meets
`A`, the script stops in a state that meets `C`, and if it completes, in one
that meets `B`. Its rules follow the list of commands (`triple_nil`,
`triple_cons`, `triple_append`); a property that every command keeps, however
it ends, needs one rule only (`triple_keeps`). Where it matters which command
fails, a run is told by that (`runFailing`, `stops_iff_failing`).
-/

namespace HassOS.Framework

/-- The commands of a script over the states `σ`. -/
structure Shell (ι σ : Type) where
  /-- What a command does if nothing goes wrong. -/
  exec : ι → σ → σ
  /-- It can succeed. -/
  Succeeds : ι → σ → Prop
  /-- What a failing command may leave. -/
  Fails : ι → σ → σ → Prop
  /-- Its failure does not stop the script. -/
  tolerated : ι → Bool

/-- How a script stops. -/
inductive Outcome where
  | done
  | failed
  /-- Power was lost. -/
  | cut
  deriving DecidableEq

variable {ι σ : Type} (sh : Shell ι σ)

/-- From `s`, the commands can stop in this way in this state. -/
inductive Stops : List ι → σ → Outcome → σ → Prop
  | done (s : σ) : Stops [] s .done s
  | cut (cs : List ι) (s : σ) : Stops cs s .cut s
  | exec {c : ι} {cs : List ι} {s s' : σ} {o : Outcome} (h : sh.Succeeds c s)
      (hs : Stops cs (sh.exec c s) o s') : Stops (c :: cs) s o s'
  | tolerated {c : ι} {cs : List ι} {s t s' : σ} {o : Outcome} (h : sh.Fails c s t)
      (ht : sh.tolerated c = true) (hs : Stops cs t o s') : Stops (c :: cs) s o s'
  | failed {c : ι} {cs : List ι} {s t : σ} (h : sh.Fails c s t) (ht : sh.tolerated c = false) :
      Stops (c :: cs) s .failed t

/-- From a state that meets `A`, the commands stop in one that meets `C`, and
complete in one that meets `B`. -/
def Triple (A : σ → Prop) (cs : List ι) (C B : σ → Prop) : Prop :=
  ∀ s o s', A s → Stops sh cs s o s' → C s' ∧ (o = .done → B s')

variable {sh}

/-- If every command can succeed where it runs, the script can complete. -/
theorem stops_done {cs : List ι} {s : σ}
    (h : Along (fun s c => sh.exec c s) (fun s c => sh.Succeeds c s) s cs) :
    Stops sh cs s .done (run (fun s c => sh.exec c s) s cs) := by
  induction cs generalizing s with
  | nil => exact .done s
  | cons c cs ih => exact .exec h.1 (ih h.2)

variable {A A' B B' C C' D : σ → Prop} {c : ι} {cs ds : List ι}

theorem triple_nil (h : ∀ s, A s → C s) : Triple sh A [] C A := by
  rintro s o s' hA hs
  cases hs
  · exact ⟨h _ hA, fun _ => hA⟩
  · exact ⟨h _ hA, fun ho => nomatch ho⟩

theorem triple_cons (hC : ∀ s, A s → C s) (hB : ∀ s, A s → sh.Succeeds c s → B (sh.exec c s))
    (hF : ∀ s t, A s → sh.Fails c s t → if sh.tolerated c then B t else C t)
    (h : Triple sh B cs C D) : Triple sh A (c :: cs) C D := by
  intro s o s' hA hs
  cases hs with
  | cut => exact ⟨hC _ hA, fun ho => nomatch ho⟩
  | exec hsu hs => exact h _ _ _ (hB _ hA hsu) hs
  | tolerated hf ht hs =>
    have hB := hF _ _ hA hf
    rw [if_pos ht] at hB
    exact h _ _ _ hB hs
  | failed hf ht =>
    have hC := hF _ _ hA hf
    rw [ht] at hC
    exact ⟨hC, fun ho => nomatch ho⟩

theorem triple_append (h₁ : Triple sh A cs C B) (h₂ : Triple sh B ds C D) :
    Triple sh A (cs ++ ds) C D := by
  -- A run of both is one of the first, and if that completes, one of the second.
  have hsplit : ∀ s o s', Stops sh (cs ++ ds) s o s' →
      Stops sh cs s o s' ∧ o ≠ .done ∨ ∃ t, Stops sh cs s .done t ∧ Stops sh ds t o s' := by
    clear h₁
    induction cs with
    | nil => exact fun s o s' hs => .inr ⟨s, .done s, hs⟩
    | cons c cs ih =>
      intro s o s' hs
      cases hs with
      | cut => exact .inl ⟨.cut _ _, by decide⟩
      | exec hsu hs =>
        rcases ih _ _ _ hs with ⟨h, ho⟩ | ⟨t, h, h'⟩
        · exact .inl ⟨.exec hsu h, ho⟩
        · exact .inr ⟨t, .exec hsu h, h'⟩
      | tolerated hf ht hs =>
        rcases ih _ _ _ hs with ⟨h, ho⟩ | ⟨t, h, h'⟩
        · exact .inl ⟨.tolerated hf ht h, ho⟩
        · exact .inr ⟨t, .tolerated hf ht h, h'⟩
      | failed hf ht => exact .inl ⟨.failed hf ht, by decide⟩
  intro s o s' hA hs
  rcases hsplit s o s' hs with ⟨h, ho⟩ | ⟨t, h, h'⟩
  · exact ⟨(h₁ _ _ _ hA h).1, fun hd => absurd hd ho⟩
  · exact h₂ _ _ _ ((h₁ _ _ _ hA h).2 rfl) h'

theorem triple_imp (h : Triple sh A cs C B) (hA : ∀ s, A' s → A s) (hC : ∀ s, C s → C' s)
    (hB : ∀ s, C s → B s → B' s) : Triple sh A' cs C' B' := by
  intro s o s' hA' hs
  obtain ⟨hC', hd⟩ := h s o s' (hA s hA') hs
  exact ⟨hC _ hC', fun ho => hB _ hC' (hd ho)⟩

theorem triple_and (h : Triple sh A cs C B) (h' : Triple sh A' cs C' B') :
    Triple sh (fun s => A s ∧ A' s) cs (fun s => C s ∧ C' s) (fun s => B s ∧ B' s) := by
  intro s o s' hA hs
  obtain ⟨hC, hB⟩ := h s o s' hA.1 hs
  obtain ⟨hC', hB'⟩ := h' s o s' hA.2 hs
  exact ⟨⟨hC, hC'⟩, fun ho => ⟨hB ho, hB' ho⟩⟩

/-- What every command keeps, whether it succeeds or fails, the script keeps. -/
theorem triple_keeps (h : ∀ c ∈ cs, ∀ s, A s → (sh.Succeeds c s → A (sh.exec c s)) ∧
    ∀ t, sh.Fails c s t → A t) : Triple sh A cs A A := by
  induction cs with
  | nil => exact triple_nil fun _ hA => hA
  | cons c cs ih =>
    refine triple_cons (fun _ hA => hA) (fun s hA => (h c List.mem_cons_self s hA).1) ?_
      (ih fun c' hc => h c' (List.mem_cons_of_mem _ hc))
    intro s t hA hf
    have hA' := (h c List.mem_cons_self s hA).2 t hf
    split <;> exact hA'

/-! ## Which commands fail

A run in which each command occurs once is told by which of them fail, and
what those leave.
-/

/-- The run in which the commands `c` with `fail c = some t` fail, and leave `t`. -/
def runFailing (sh : Shell ι σ) (fail : ι → Option σ) : List ι → σ → Outcome × σ
  | [], s => (.done, s)
  | c :: cs, s =>
    match fail c with
    | none => runFailing sh fail cs (sh.exec c s)
    | some t => if sh.tolerated c then runFailing sh fail cs t else (.failed, t)

/-- In that run, the commands can end so. -/
def CanFail (sh : Shell ι σ) (fail : ι → Option σ) : List ι → σ → Prop
  | [], _ => True
  | c :: cs, s =>
    match fail c with
    | none => sh.Succeeds c s ∧ CanFail sh fail cs (sh.exec c s)
    | some t => sh.Fails c s t ∧ (sh.tolerated c = true → CanFail sh fail cs t)

/-- The state after a command, whether it succeeds or fails. -/
def after (sh : Shell ι σ) (fail : ι → Option σ) (c : ι) (s : σ) : σ := (fail c).getD (sh.exec c s)

section

variable {fail fail' : ι → Option σ}

theorem failing_congr (h : ∀ c ∈ cs, fail c = fail' c) (s : σ) :
    runFailing sh fail cs s = runFailing sh fail' cs s ∧
      (CanFail sh fail cs s ↔ CanFail sh fail' cs s) := by
  induction cs generalizing s with
  | nil => exact ⟨rfl, Iff.rfl⟩
  | cons c cs ih =>
    have ih := ih fun c' hc => h c' (List.mem_cons_of_mem c hc)
    simp only [runFailing, CanFail, ← h c List.mem_cons_self]
    cases fail c with
    | none => exact ⟨(ih _).1, and_congr_right' (ih _).2⟩
    | some t =>
      refine ⟨?_, and_congr_right' (imp_congr_right fun _ => (ih t).2)⟩
      simp only [(ih t).1]

theorem failing_update [DecidableEq ι] (hc : c ∉ cs) (t : Option σ) (s : σ) :
    runFailing sh (Function.update fail c t) cs s = runFailing sh fail cs s ∧
      (CanFail sh (Function.update fail c t) cs s ↔ CanFail sh fail cs s) := by
  have h : ∀ c' ∈ cs, Function.update fail c t c' = fail c' := by
    intro c' hc'
    have hne : c' ≠ c := by
      rintro rfl
      exact hc hc'
    exact Function.update_of_ne hne _ _
  exact failing_congr h s

/-- A command that fails as tolerated goes on with what it leaves. -/
theorem runFailing_tolerated (ht : sh.tolerated c = true) (s : σ) :
    runFailing sh fail (c :: cs) s = runFailing sh fail cs (after sh fail c s) := by
  rw [runFailing, after]
  cases fail c with
  | none => rfl
  | some t => exact if_pos ht

theorem CanFail.tolerated (ht : sh.tolerated c = true) {s : σ} (h : CanFail sh fail (c :: cs) s) :
    CanFail sh fail cs (after sh fail c s) := by
  rw [CanFail] at h
  rw [after]
  cases hc : fail c with
  | none => exact (hc ▸ h).2
  | some t => exact (hc ▸ h).2 ht

theorem CanFail.head {s : σ} (h : CanFail sh fail (c :: cs) s) :
    (fail c = none ∧ sh.Succeeds c s) ∨ ∃ t, fail c = some t ∧ sh.Fails c s t := by
  rw [CanFail] at h
  cases hc : fail c with
  | none => exact .inl ⟨rfl, (hc ▸ h).1⟩
  | some t => exact .inr ⟨t, rfl, (hc ▸ h).1⟩

/-- A command can end as `fail` has it. -/
def CanEnd (sh : Shell ι σ) (fail : ι → Option σ) (s : σ) (c : ι) : Prop :=
  (fail c = none ∧ sh.Succeeds c s) ∨ ∃ t, fail c = some t ∧ sh.Fails c s t

/-- A script all of whose failures are tolerated runs to its end. -/
theorem runFailing_all (ht : ∀ c ∈ cs, sh.tolerated c = true) (s : σ) :
    runFailing sh fail cs s = (.done, run (fun s c => after sh fail c s) s cs) := by
  induction cs generalizing s with
  | nil => rfl
  | cons c cs ih =>
    obtain ⟨hc, hcs⟩ := List.forall_mem_cons.mp ht
    rw [runFailing_tolerated hc, run_cons]
    exact ih hcs _

theorem CanFail.along (ht : ∀ c ∈ cs, sh.tolerated c = true) {s : σ} (h : CanFail sh fail cs s) :
    Along (fun s c => after sh fail c s) (CanEnd sh fail) s cs := by
  induction cs generalizing s with
  | nil => trivial
  | cons c cs ih =>
    obtain ⟨hc, hcs⟩ := List.forall_mem_cons.mp ht
    exact ⟨h.head, ih hcs (h.tolerated hc)⟩

/-- Commands that all succeed, before others. -/
theorem failing_append (h : ∀ c ∈ cs, fail c = none) (ds : List ι) (s : σ) :
    runFailing sh fail (cs ++ ds) s = runFailing sh fail ds (run (fun s c => sh.exec c s) s cs) ∧
      (CanFail sh fail (cs ++ ds) s → CanFail sh fail ds (run (fun s c => sh.exec c s) s cs)) := by
  induction cs generalizing s with
  | nil => exact ⟨rfl, id⟩
  | cons c cs ih =>
    obtain ⟨hc, hcs⟩ := List.forall_mem_cons.mp h
    obtain ⟨hrun, hcan⟩ := ih hcs (sh.exec c s)
    refine ⟨?_, fun h => hcan ?_⟩
    · rw [List.cons_append, runFailing, hc]
      exact hrun
    · rw [List.cons_append, CanFail, hc] at h
      exact h.2

/-- What every command of `cs` keeps, if one of them stops the script. -/
theorem failing_keeps {I : σ → Prop} (ht : ∀ c ∈ cs, sh.tolerated c = false)
    (h : ∀ c ∈ cs, ∀ s, I s → I (sh.exec c s) ∧ ∀ t, sh.Fails c s t → I t)
    (hf : ∃ c ∈ cs, fail c ≠ none) {s : σ} (hs : I s) (hcan : CanFail sh fail (cs ++ ds) s) :
    I (runFailing sh fail (cs ++ ds) s).2 := by
  induction cs generalizing s with
  | nil => simp at hf
  | cons c cs ih =>
    rw [List.cons_append, CanFail] at hcan
    rw [List.cons_append, runFailing]
    cases hc : fail c with
    | none =>
      rw [hc] at hcan
      obtain ⟨c', hc', hne⟩ := hf
      have hmem : c' ∈ cs := (List.mem_cons.mp hc').resolve_left fun e => hne (e ▸ hc)
      exact ih (fun d hd => ht d (List.mem_cons_of_mem c hd)) (fun d hd => h d (List.mem_cons_of_mem c hd))
        ⟨c', hmem, hne⟩ (h c List.mem_cons_self s hs).1 hcan.2
    | some t =>
      rw [hc] at hcan
      simp only [ht c List.mem_cons_self, Bool.false_eq_true, ↓reduceIte]
      exact (h c List.mem_cons_self s hs).2 t hcan.1

/-- The runs are those in which some commands fail. -/
theorem stops_iff_failing [DecidableEq ι] (hn : cs.Nodup) {s s' : σ} {o : Outcome} :
    (Stops sh cs s o s' ∧ o ≠ .cut) ↔
      ∃ fail, CanFail sh fail cs s ∧ runFailing sh fail cs s = (o, s') := by
  constructor
  · rintro ⟨h, ho⟩
    induction h with
    | done s => exact ⟨fun _ => none, trivial, rfl⟩
    | cut => exact absurd rfl ho
    | @exec c cs s _ _ hsu _ ih =>
      obtain ⟨hc, hn⟩ := List.nodup_cons.mp hn
      obtain ⟨fail, hcan, hrun⟩ := ih hn ho
      refine ⟨Function.update fail c none, ?_, ?_⟩
      · simp only [CanFail, Function.update_self]
        exact ⟨hsu, (failing_update hc none _).2.mpr hcan⟩
      · simp only [runFailing, Function.update_self]
        rw [(failing_update hc _ _).1, hrun]
    | @tolerated c cs s t _ _ hf ht _ ih =>
      obtain ⟨hc, hn⟩ := List.nodup_cons.mp hn
      obtain ⟨fail, hcan, hrun⟩ := ih hn ho
      refine ⟨Function.update fail c (some t), ?_, ?_⟩
      · simp only [CanFail, Function.update_self]
        exact ⟨hf, fun _ => (failing_update hc (some t) t).2.mpr hcan⟩
      · simp only [runFailing, Function.update_self, ht, ↓reduceIte]
        rw [(failing_update hc _ _).1, hrun]
    | @failed c cs s t hf ht =>
      refine ⟨fun _ => some t, ?_, ?_⟩
      · simp only [CanFail, ht]
        exact ⟨hf, nofun⟩
      · simp [runFailing, ht]
  · rintro ⟨fail, hcan, hrun⟩
    clear hn
    induction cs generalizing s with
    | nil =>
      obtain ⟨rfl, rfl⟩ := Prod.mk.inj hrun
      exact ⟨.done s, by decide⟩
    | cons c cs ih =>
      rw [CanFail] at hcan
      rw [runFailing] at hrun
      cases hc : fail c with
      | none =>
        rw [hc] at hcan hrun
        obtain ⟨h, ho⟩ := ih hcan.2 hrun
        exact ⟨.exec hcan.1 h, ho⟩
      | some t =>
        rw [hc] at hcan hrun
        cases ht : sh.tolerated c with
        | true =>
          obtain ⟨h, ho⟩ := ih (hcan.2 ht) (by simpa [ht] using hrun)
          exact ⟨.tolerated hcan.1 ht h, ho⟩
        | false =>
          simp only [ht, Bool.false_eq_true, ↓reduceIte, Prod.mk.injEq] at hrun
          obtain ⟨rfl, rfl⟩ := hrun
          exact ⟨.failed hcan.1 ht, by decide⟩

end

end HassOS.Framework
