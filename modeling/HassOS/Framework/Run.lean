import Mathlib.Data.List.Basic
import Mathlib.Data.List.Induction

/-!
# Runs of a system of atomic events

A system takes one event at a time (`step`), and a run is the events it took,
first to last (`run`). A property of every run is proved from what one event
keeps (`run_keeps`), possibly under a condition that each event meets in the
state it strikes (`Along`, `run_keeps_along`); what some events bring
about and others undo is followed through a run (`run_latch`), and so is what
the last or the first of some events assigns (`run_last`, `run_latest`,
`run_first`); a run of one system is carried over to another by a relation that
every event keeps (`run_sim`, `run_sim_exists`). A run that a state can refuse to go
on with (`attempt`) gets through if no event of it is refused (`attempt_ok_iff`), and
one that is cut ends before an event of it or after it (`take_split`).
-/

namespace HassOS.Framework

variable {σ τ ε : Type}

/-- The state a run of `es` from `s` ends in. -/
def run (step : σ → ε → σ) (s : σ) (es : List ε) : σ := es.foldl step s

/-- A run that ends before an event that the state refuses; the error is that state. -/
def attempt (refused : σ → ε → Bool) (step : σ → ε → σ) (s : σ) (es : List ε) : Except σ σ :=
  es.foldlM (fun s e => if refused s e then .error s else .ok (step s e)) s

/-- Every event of the run `es` from `s` meets `ok` in the state it strikes. -/
def Along (step : σ → ε → σ) (ok : σ → ε → Prop) : σ → List ε → Prop
  | _, [] => True
  | s, e :: es => ok s e ∧ Along step ok (step s e) es

section

variable {step : σ → ε → σ}

@[simp] theorem run_nil (s : σ) : run step s [] = s := rfl

@[simp] theorem run_cons (s : σ) (e : ε) (es : List ε) :
    run step s (e :: es) = run step (step s e) es := rfl

theorem run_append (s : σ) (es fs : List ε) :
    run step s (es ++ fs) = run step (run step s es) fs := List.foldl_append

theorem run_snoc (s : σ) (es : List ε) (e : ε) :
    run step s (es ++ [e]) = step (run step s es) e := run_append s es [e]

variable {ok ok' : σ → ε → Prop}

@[simp] theorem along_nil (s : σ) : Along step ok s [] := trivial

@[simp] theorem along_cons (s : σ) (e : ε) (es : List ε) :
    Along step ok s (e :: es) ↔ ok s e ∧ Along step ok (step s e) es := Iff.rfl

theorem along_append {s : σ} {es fs : List ε} :
    Along step ok s (es ++ fs) ↔ Along step ok s es ∧ Along step ok (run step s es) fs := by
  induction es generalizing s with
  | nil => simp
  | cons e es ih => simp only [List.cons_append, along_cons, run_cons, ih, and_assoc]

/-- `Along`, event by event. -/
theorem along_iff {s : σ} {es : List ε} :
    Along step ok s es ↔ ∀ pre e post, es = pre ++ e :: post → ok (run step s pre) e := by
  constructor
  · rintro h pre e post rfl
    rw [along_append, along_cons] at h
    exact h.2.1
  · intro h
    induction es generalizing s with
    | nil => trivial
    | cons e es ih =>
      refine ⟨h [] e es rfl, ih fun pre e' post hp => ?_⟩
      exact h (e :: pre) e' post (by rw [hp]; rfl)

/-- A condition on the events alone, along a run. -/
theorem along_forall {p : ε → Prop} {s : σ} {es : List ε} :
    Along step (fun _ e => p e) s es ↔ ∀ e ∈ es, p e := by
  induction es generalizing s with
  | nil => simp
  | cons e es ih => rw [along_cons, ih, List.forall_mem_cons]

theorem along_and {s : σ} {es : List ε} :
    Along step (fun s e => ok s e ∧ ok' s e) s es ↔ Along step ok s es ∧ Along step ok' s es := by
  induction es generalizing s with
  | nil => simp
  | cons e es ih => simp only [along_cons, ih, and_and_and_comm]

/-- A run that is cut: before the event `e`, or after it. -/
theorem take_split (es : List ε) (e : ε) (fs : List ε) (n : Nat) :
    (es ++ e :: fs).take n = es.take n ∨ ∃ k, (es ++ e :: fs).take n = es ++ e :: fs.take k := by
  rw [List.take_append]
  cases hn : n - es.length with
  | zero => exact .inl (by rw [List.take_zero, List.append_nil])
  | succ k =>
    refine .inr ⟨k, ?_⟩
    rw [List.take_of_length_le (by omega), List.take_succ_cons]

/-- What every event keeps, a run keeps. -/
theorem run_keeps {I : σ → Prop} (hstep : ∀ s e, I s → I (step s e)) {s : σ} (h : I s)
    (es : List ε) : I (run step s es) := by
  induction es generalizing s with
  | nil => exact h
  | cons e es ih => exact ih (hstep s e h)

/-- What every event meeting `ok` keeps, a run of such events keeps. -/
theorem run_keeps_along {I : σ → Prop} (hstep : ∀ s e, I s → ok s e → I (step s e)) {s : σ}
    (h : I s) {es : List ε} (hok : Along step ok s es) : I (run step s es) := by
  induction es generalizing s with
  | nil => exact h
  | cons e es ih => exact ih (hstep s e h hok.1) hok.2

section

variable {refused : σ → ε → Bool}

@[simp] theorem attempt_nil (s : σ) : attempt refused step s [] = .ok s := rfl

theorem attempt_cons (s : σ) (e : ε) (es : List ε) : attempt refused step s (e :: es) =
    if refused s e then .error s else attempt refused step (step s e) es := by
  show (if refused s e then .error s else .ok (step s e) : Except σ σ) >>= _ = _
  split <;> rfl

/-- A run gets through if no event of it is refused. -/
theorem attempt_ok_iff {s t : σ} {es : List ε} : attempt refused step s es = .ok t ↔
    Along step (fun s e => refused s e = false) s es ∧ run step s es = t := by
  induction es generalizing s with
  | nil =>
    rw [attempt_nil, Except.ok.injEq]
    exact (and_iff_right trivial).symm
  | cons e es ih =>
    rw [attempt_cons, along_cons, run_cons]
    cases he : refused s e with
    | true => simp
    | false =>
      rw [if_neg Bool.false_ne_true, ih]
      simp

/-- Refused or not, what is left is what a part of the events did. -/
theorem attempt_reaches {s t : σ} {es : List ε}
    (h : attempt refused step s es = .ok t ∨ attempt refused step s es = .error t) :
    ∃ fs, t = run step s fs := by
  induction es generalizing s with
  | nil =>
    rw [attempt_nil] at h
    rcases h with h | h
    · exact ⟨[], (Except.ok.inj h).symm⟩
    · cases h
  | cons e es ih =>
    rw [attempt_cons] at h
    cases he : refused s e with
    | true =>
      rw [he, if_pos rfl] at h
      rcases h with h | h
      · cases h
      · exact ⟨[], (Except.error.inj h).symm⟩
    | false =>
      rw [he, if_neg Bool.false_ne_true] at h
      obtain ⟨fs, hfs⟩ := ih h
      exact ⟨e :: fs, hfs⟩

end

/-- A variable that the events of `p` assign holds what the last of them did. -/
theorem run_last {α : Type} (get : σ → α) {f : ε → α} (p : ε → Bool)
    (h : ∀ s e, get (step s e) = if p e then f e else get s) (s : σ) (es : List ε) :
    get (run step s es) = ((es.filter p).getLast?.map f).getD (get s) := by
  induction es generalizing s with
  | nil => rfl
  | cons e es ih =>
    rw [run_cons, ih, h, List.filter_cons]
    split
    · rw [List.getLast?_cons]
      cases (es.filter p).getLast? <;> rfl
    · rfl

/-- A variable that the events of `p` set to one value. -/
theorem run_set {α : Type} (get : σ → α) {v : α} {p : ε → Prop} [DecidablePred p]
    (h : ∀ s e, get (step s e) = if p e then v else get s) (s : σ) (es : List ε) :
    get (run step s es) = if ∃ e ∈ es, p e then v else get s := by
  induction es generalizing s with
  | nil => simp
  | cons e es ih =>
    rw [run_cons, ih, h]
    by_cases he : p e
    · simp [he]
    · simp [he]

/-- What is set once holds what the first event that sets it gave. -/
theorem run_first {α : Type} (get : σ → Option α) {f : ε → Option α}
    (h : ∀ s e, get (step s e) = (get s).or (f e)) (s : σ) (es : List ε) :
    get (run step s es) = (get s).or (es.findSome? f) := by
  induction es generalizing s with
  | nil => simp
  | cons e es ih =>
    rw [run_cons, ih, h, List.findSome?_cons, Option.or_assoc]
    cases f e <;> rfl

/-- What can be set again holds what the last event that sets it gave. -/
theorem run_latest {α : Type} (get : σ → Option α) {f : ε → Option α}
    (h : ∀ s e, get (step s e) = (f e).or (get s)) (s : σ) (es : List ε) :
    get (run step s es) = (es.reverse.findSome? f).or (get s) := by
  induction es generalizing s with
  | nil => rfl
  | cons e es ih =>
    rw [run_cons, ih, h, List.reverse_cons, List.findSome?_append, Option.or_assoc,
      List.findSome?_singleton]

/-- Where a run of `es` and then `e` splits: at `e`, or within `es`. -/
theorem snoc_split {es pre post : List ε} {e e' : ε} : es ++ [e] = pre ++ e' :: post ↔
    (es = pre ∧ e = e' ∧ post = []) ∨ ∃ mid, post = mid ++ [e] ∧ es = pre ++ e' :: mid := by
  constructor
  · intro h
    rcases List.eq_nil_or_concat' post with rfl | ⟨mid, x, rfl⟩
    · obtain ⟨h1, h2⟩ := List.append_inj' h rfl
      exact .inl ⟨h1, List.head_eq_of_cons_eq h2, rfl⟩
    · rw [← List.cons_append, ← List.append_assoc] at h
      obtain ⟨h1, h2⟩ := List.append_inj' h rfl
      exact .inr ⟨mid, by rw [List.head_eq_of_cons_eq h2], h1⟩
  · rintro (⟨rfl, rfl, rfl⟩ | ⟨mid, rfl, rfl⟩)
    · rfl
    · simp

/-- What the events of `p` bring about, those of `q` undo and no other touches
holds at the end iff it held from the start, or one of the former struck, and
none of the latter since. -/
theorem run_latch {I b : σ → Prop} {p q : σ → ε → Prop}
    (hI : ∀ s e, I s → I (step s e)) (hset : ∀ s e, I s → p s e → b (step s e))
    (hclear : ∀ s e, I s → q s e → ¬ b (step s e))
    (hkeep : ∀ s e, I s → ¬ p s e → ¬ q s e → (b (step s e) ↔ b s)) {s : σ}
    (hs : I s) (es : List ε) :
    b (run step s es) ↔ (b s ∧ Along step (fun s e => ¬ q s e) s es) ∨
      ∃ pre e post, es = pre ++ e :: post ∧ p (run step s pre) e ∧
        Along step (fun s e => ¬ q s e) (run step s (pre ++ [e])) post := by
  induction es using List.reverseRecOn with
  | nil => simp
  | append_singleton es e ih =>
    rw [run_snoc]
    have hI' := run_keeps hI hs es
    by_cases h1 : p (run step s es) e
    · exact ⟨fun _ => .inr ⟨es, e, [], rfl, h1, trivial⟩, fun _ => hset _ e hI' h1⟩
    · have hsplit : ∀ pre e' post, es ++ [e] = pre ++ e' :: post → p (run step s pre) e' →
          ∃ mid, post = mid ++ [e] ∧ es = pre ++ e' :: mid := by
        intro pre e' post hp hs'
        rcases snoc_split.mp hp with ⟨rfl, rfl, -⟩ | hmid
        · exact absurd hs' h1
        · exact hmid
      have hrun : ∀ pre e' mid, es = pre ++ e' :: mid →
          run step (run step s (pre ++ [e'])) mid = run step s es := by
        rintro pre e' mid rfl
        rw [← run_append, List.append_assoc, List.singleton_append]
      by_cases h2 : q (run step s es) e
      · refine ⟨fun hb => absurd hb (hclear _ e hI' h2), ?_⟩
        rintro (⟨-, ha⟩ | ⟨pre, e', post, hp, hs', ha⟩)
        · exact absurd h2 (along_append.mp ha).2.1
        · obtain ⟨mid, rfl, hes⟩ := hsplit pre e' post hp hs'
          rw [along_append, hrun pre e' mid hes] at ha
          exact absurd h2 ha.2.1
      · rw [hkeep _ e hI' h1 h2, ih]
        constructor
        · rintro (⟨hb, ha⟩ | ⟨pre, e', mid, hes, hs', ha⟩)
          · exact .inl ⟨hb, along_append.mpr ⟨ha, h2, trivial⟩⟩
          · refine .inr ⟨pre, e', mid ++ [e], by rw [hes]; simp, hs', along_append.mpr ⟨ha, ?_⟩⟩
            rw [hrun pre e' mid hes]
            exact ⟨h2, trivial⟩
        · rintro (⟨hb, ha⟩ | ⟨pre, e', post, hp, hs', ha⟩)
          · exact .inl ⟨hb, (along_append.mp ha).1⟩
          · obtain ⟨mid, rfl, hes⟩ := hsplit pre e' post hp hs'
            exact .inr ⟨pre, e', mid, hes, hs', (along_append.mp ha).1⟩

/-- The same, from a state in which it does not hold. -/
theorem run_latch_of_not {I b : σ → Prop} {p q : σ → ε → Prop}
    (hI : ∀ s e, I s → I (step s e)) (hset : ∀ s e, I s → p s e → b (step s e))
    (hclear : ∀ s e, I s → q s e → ¬ b (step s e))
    (hkeep : ∀ s e, I s → ¬ p s e → ¬ q s e → (b (step s e) ↔ b s)) {s : σ}
    (hs : I s) (h : ¬ b s) (es : List ε) :
    b (run step s es) ↔ ∃ pre e post, es = pre ++ e :: post ∧ p (run step s pre) e ∧
      Along step (fun s e => ¬ q s e) (run step s (pre ++ [e])) post := by
  rw [run_latch hI hset hclear hkeep hs es]
  exact or_iff_right fun hx => h hx.1

end

section

variable {step : σ → ε → σ} {step' : τ → ε → τ} {R : σ → τ → Prop}

/-- A relation that every event keeps relates the ends of the two runs. -/
theorem run_sim (h : ∀ s t e, R s t → R (step s e) (step' t e)) {s : σ} {t : τ} (hR : R s t)
    (es : List ε) : R (run step s es) (run step' t es) := by
  induction es generalizing s t with
  | nil => exact hR
  | cons e es ih => exact ih (h s t e hR)

end

/-- The same with events of its own for the other run, one for each. -/
theorem run_sim_exists {δ : Type} {step : σ → ε → σ} {step' : τ → δ → τ} {R : σ → τ → Prop}
    (h : ∀ s t e, R s t → ∃ d, R (step s e) (step' t d)) {s : σ} {t : τ} (hR : R s t) (es : List ε) :
    ∃ ds : List δ, ds.length = es.length ∧ R (run step s es) (run step' t ds) := by
  induction es generalizing s t with
  | nil => exact ⟨[], rfl, hR⟩
  | cons e es ih =>
    obtain ⟨d, hd⟩ := h s t e hR
    obtain ⟨ds, hlen, hds⟩ := ih hd
    exact ⟨d :: ds, by rw [List.length_cons, hlen, List.length_cons], hds⟩

end HassOS.Framework
