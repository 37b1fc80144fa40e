import HassOS.Kconfiglib.Cache

/-!
# What is kept agrees with what is computed (`kconfiglib.py`)

Whatever a client sets, unsets and reads, in any order, it gets the answers that it would
get if every value was computed from scratch (`answers_agree`), as long as no value is
computed from itself (`Acyclic`).

After each operation the values kept are those that the tasks give for what the user set
then. Three things can happen to that when something is set: the item concerned was
invalidated (`sound_invalidate`), or with a symbol its whole choice was (`sound_select`),
or the symbol has no prompt, so that nobody has asked for its user value
(`sound_promptless`).
-/

namespace HassOS.Kconfiglib

open Framework

variable {ι γ : Type}

/-- The values that are computed from scratch. -/
def valuesOf [DecidableEq ι] (k : Kconfig ι γ) (n : ℕ) (u : User ι γ) : ∀ key : Key ι γ, Val key :=
  plain (k.tasks u) n

/-- No value is computed from itself: what a value is computed from has a lower rank. -/
structure Acyclic (k : Kconfig ι γ) (rank : Key ι γ → ℕ) (n : ℕ) : Prop where
  descends : ∀ key, ∀ key' ∈ k.reads key, rank key' < rank key
  bounded : ∀ key, rank key < n

/-! ## User values -/

section

variable {k : Kconfig ι γ} {s s' : ι} {c : γ} {key : Key ι γ}

theorem keys_ne_userValue {e : Expr ι γ} : ∀ key ∈ e.keys, key ≠ .userValue s := by
  have hop : ∀ o : Operand ι, ∀ key ∈ (o.keys : List (Key ι γ)), key ≠ .userValue s := by
    intro o
    cases o with
    | tri v => exact fun _ h => absurd h List.not_mem_nil
    | const name => exact fun _ h => absurd h List.not_mem_nil
    | sym t => simp [Operand.keys]
  induction e with
  | operand o => exact hop o
  | choice c => simp [Expr.keys]
  | and e₁ e₂ ih₁ ih₂ => exact fun key h => (List.mem_append.mp h).elim (ih₁ key) (ih₂ key)
  | or e₁ e₂ ih₁ ih₂ => exact fun key h => (List.mem_append.mp h).elim (ih₁ key) (ih₂ key)
  | not e ih => exact ih
  | rel r o₁ o₂ => exact fun key h => (List.mem_append.mp h).elim (hop o₁ key) (hop o₂ key)

theorem promptKeys_ne_userValue {es : List (Expr ι γ)} :
    ∀ key ∈ Kconfig.promptKeys es, key ≠ .userValue s := by
  intro key h
  obtain ⟨e, -, h⟩ := List.mem_flatMap.mp h
  exact keys_ne_userValue key h

theorem defaultKeys_ne_userValue : ∀ key ∈ k.defaultKeys s', key ≠ .userValue s := by
  intro key h
  obtain ⟨d, -, h⟩ := List.mem_flatMap.mp h
  exact (List.mem_append.mp h).elim (keys_ne_userValue key) (keys_ne_userValue key)

theorem rangeKeys_ne_userValue : ∀ key ∈ k.rangeKeys s', key ≠ .userValue s := by
  intro key h
  obtain ⟨r, -, h⟩ := List.mem_flatMap.mp h
  refine (List.mem_append.mp h).elim (fun h => ?_) (keys_ne_userValue key)
  exact (List.mem_append.mp h).elim (keys_ne_userValue (e := .operand r.1) key)
    (keys_ne_userValue (e := .operand r.2.1) key)

theorem typeKeys_ne_userValue {t : SymType} : ∀ key ∈ k.typeKeys t, key ≠ .userValue s := by
  unfold Kconfig.typeKeys
  split <;> simp

theorem modeKeys_ne_userValue : ∀ key ∈ k.modeKeys s', key ≠ .userValue s := by
  unfold Kconfig.modeKeys
  split <;> simp

theorem triKeys_ne_userValue : ∀ key ∈ k.triKeys s', key ≠ .userValue s := by
  unfold Kconfig.triKeys
  split
  · simp
  · simp only [List.forall_mem_append]
    exact ⟨⟨⟨⟨defaultKeys_ne_userValue, keys_ne_userValue⟩, keys_ne_userValue⟩, keys_ne_userValue⟩,
      typeKeys_ne_userValue⟩

/-- Only the values of a symbol itself are computed from what the user set for it. -/
theorem reads_userValue (h : .userValue s ∈ k.reads key) : key = .triValue s ∨ key = .strValue s := by
  cases key with
  | visibility t =>
    have hne : ∀ key ∈ k.reads (.visibility t), key ≠ .userValue s := by
      simp only [Kconfig.reads, List.forall_mem_append]
      exact ⟨⟨promptKeys_ne_userValue, modeKeys_ne_userValue⟩, typeKeys_ne_userValue⟩
    exact absurd rfl (hne _ h)
  | triValue t =>
    simp only [Kconfig.reads] at h
    split at h
    · rcases List.mem_cons.mp h with h | h
      · simp at h
      rcases List.mem_cons.mp h with h | h
      · rw [Key.userValue.inj h]
        exact .inl rfl
      · exact absurd rfl (triKeys_ne_userValue _ h)
    · exact absurd h List.not_mem_nil
  | strValue t =>
    simp only [Kconfig.reads] at h
    split at h
    · simp at h
    split at h
    · exact absurd h List.not_mem_nil
    · rcases List.mem_cons.mp h with h | h
      · simp at h
      rcases List.mem_cons.mp h with h | h
      · rw [Key.userValue.inj h]
        exact .inr rfl
      · exact (List.mem_append.mp h).elim (fun h => absurd rfl (rangeKeys_ne_userValue _ h))
          fun h => absurd rfl (defaultKeys_ne_userValue _ h)
  | assignable t =>
    simp only [Kconfig.reads] at h
    split at h
    · rcases List.mem_cons.mp h with h | h
      · simp at h
      · simp only [List.mem_append, or_assoc] at h
        rcases h with h | h | h | h
        · exact absurd rfl (keys_ne_userValue _ h)
        · exact absurd rfl (keys_ne_userValue _ h)
        · exact absurd rfl (modeKeys_ne_userValue _ h)
        · exact absurd rfl (typeKeys_ne_userValue _ h)
    · exact absurd h List.not_mem_nil
  | userValue t => exact absurd h List.not_mem_nil
  | choiceVisibility d =>
    exact (List.mem_append.mp h).elim (fun h => absurd rfl (promptKeys_ne_userValue _ h))
      fun h => absurd rfl (typeKeys_ne_userValue _ h)
  | choiceTriValue d =>
    rcases List.mem_cons.mp h with h | h
    · simp at h
    · exact absurd rfl (typeKeys_ne_userValue _ h)
  | choiceAssignable d =>
    rcases List.mem_cons.mp h with h | h
    · simp at h
    · exact absurd rfl (typeKeys_ne_userValue _ h)
  | selection d =>
    rcases List.mem_cons.mp h with h | h
    · simp at h
    rcases List.mem_append.mp h with h | h
    · simp at h
    · obtain ⟨e, -, h⟩ := List.mem_flatMap.mp h
      rcases List.mem_cons.mp h with h | h
      · simp at h
      · exact absurd rfl (keys_ne_userValue _ h)

end

/-! ## What rests on what -/

section

variable [DecidableEq ι] {k : Kconfig ι γ} {u : User ι γ} {env : ∀ key : Key ι γ, Val key}
  {key key' : Key ι γ} {s : ι} {c : γ}

theorem asks_reads (hu : u.Ok k) (h : key' ∈ (k.tasks u key).asks env) : key' ∈ k.reads key :=
  (below_tasks (p := (· ∈ k.reads key)) hu key fun _ h => h).asks key' h

/-- A value rests on what it is computed from, and through the mode of a choice on what that
is computed from. -/
theorem rests_asks (hu : u.Ok k) (h : Rests (k.tasks u) Key.keep env key key') :
    key' ∈ (k.tasks u key).asks env ∨
      ∃ c, .choiceTriValue c ∈ (k.tasks u key).asks env ∧ key' ∈ k.reads (.choiceTriValue c) := by
  induction h with
  | ask h => exact .inl h
  | @through key key₁ key' h hk hr ih =>
    cases key₁ with
    | userValue t => exact absurd rfl hr.exists_ask
    | choiceTriValue c =>
      refine .inr ⟨c, h, ?_⟩
      rcases ih with ih | ⟨d, hd, -⟩
      · exact asks_reads hu ih
      · rcases List.mem_cons.mp (asks_reads hu hd) with hd | hd
        · simp at hd
        · unfold Kconfig.typeKeys at hd
          split at hd <;> simp at hd
    | visibility t => simp [Key.keep] at hk
    | triValue t => simp [Key.keep] at hk
    | strValue t => simp [Key.keep] at hk
    | assignable t => simp [Key.keep] at hk
    | choiceVisibility d => simp [Key.keep] at hk
    | choiceAssignable d => simp [Key.keep] at hk
    | selection d => simp [Key.keep] at hk

theorem rests_userValue (hu : u.Ok k) (h : Rests (k.tasks u) Key.keep env key (.userValue s)) :
    key = .triValue s ∨ key = .strValue s := by
  rcases rests_asks hu h with h | ⟨c, -, h⟩
  · exact reads_userValue (asks_reads hu h)
  · rcases reads_userValue h with h | h <;> simp at h

theorem ranked_tasks {rank : Key ι γ → ℕ} {n : ℕ} (hr : Acyclic k rank n) (hu : u.Ok k) :
    Ranked (k.tasks u) rank := fun key => below_tasks hu key (hr.descends key)

theorem solves_valuesOf {rank : Key ι γ → ℕ} {n : ℕ} (hr : Acyclic k rank n) (hu : u.Ok k) :
    Solves (k.tasks u) (valuesOf k n u) := solves_plain (ranked_tasks hr hu) hr.bounded

omit [DecidableEq ι] in
theorem asks_visibility {α : Type} (f : Tri → Get ι γ α) :
    Key.visibility s ∈ (visibility s >>= f).asks env := by
  rw [Task.asks_bind]
  exact List.mem_append_left _ (List.mem_singleton_self _)

/-- The values of a symbol that are computed from anything are computed from its visibility. -/
theorem triTask_visibility (h : (k.tasks u (.triValue s)).asks env ≠ []) :
    .visibility s ∈ (k.tasks u (.triValue s)).asks env := by
  simp only [Kconfig.tasks, Kconfig.triTask] at h ⊢
  split
  · exact asks_visibility _
  · rename_i hs
    rw [if_neg hs] at h
    exact absurd rfl h

theorem strTask_visibility (h : (k.tasks u (.strValue s)).asks env ≠ []) :
    .visibility s ∈ (k.tasks u (.strValue s)).asks env ∨
      .triValue s ∈ (k.tasks u (.strValue s)).asks env ∧ (k.tasks u (.triValue s)).asks env ≠ [] := by
  simp only [Kconfig.tasks, Kconfig.strTask] at h ⊢
  split
  · rename_i hs
    refine .inr ⟨List.mem_cons_self, ?_⟩
    rw [Kconfig.triTask, if_pos hs]
    exact List.ne_nil_of_mem (asks_visibility _)
  · rename_i hs
    rw [if_neg hs] at h
    split
    · rename_i hs
      rw [if_pos hs] at h
      exact absurd rfl h
    · exact .inl (asks_visibility _)

theorem assignableTask_visibility (h : (k.tasks u (.assignable s)).asks env ≠ []) :
    .visibility s ∈ (k.tasks u (.assignable s)).asks env := by
  simp only [Kconfig.tasks, Kconfig.assignableTask] at h ⊢
  split
  · exact asks_visibility _
  · rename_i hs
    rw [if_neg hs] at h
    exact absurd rfl h

end

section

variable [DecidableEq ι] [DecidableEq γ] {k : Kconfig ι γ} {deps : Item ι γ → List (Item ι γ)}
  {u u' : User ι γ} {env : ∀ key : Key ι γ, Val key} {key key' : Key ι γ} {s : ι} {c : γ}
  {rank : Key ι γ → ℕ} {n : ℕ} {m m' : Memo (Val (ι := ι) (γ := γ))}

/-! ## Symbols that are not shown -/

/-- The visibility of a symbol that is not shown is always n. -/
def Kconfig.settled (k : Kconfig ι γ) : Key ι γ → Prop
  | .visibility s => ¬k.Shown s
  | _ => False

omit [DecidableEq γ] in
theorem visibility_settled (hs : ¬k.Shown s) : (k.tasks u (.visibility s)).run env = (0 : Tri) := by
  have hall : ∀ e ∈ (k.sym s).prompts, e = .n := fun e he => by_contra fun hne => hs ⟨e, he, hne⟩
  have hzero : ∀ es : List (Expr ι γ), (∀ e ∈ es, e = .n) → (k.promptVisibility 0 es).run env = 0 := by
    intro es
    induction es with
    | nil => exact fun _ => rfl
    | cons e es ih =>
      intro h
      obtain ⟨rfl, hes⟩ := List.forall_mem_cons.mp h
      exact ih hes
  show (k.visibilityTask s).run env = 0
  rw [Kconfig.visibilityTask, Task.run_bind, hzero _ hall, Task.run_bind]
  cases (k.hidden s 0).run env with
  | true => rfl
  | false => rfl

omit [DecidableEq γ] in
theorem settled_same {u' : User ι γ} {env' : ∀ key : Key ι γ, Val key} (henv : Solves (k.tasks u) env)
    (henv' : Solves (k.tasks u') env') (h : k.settled key) : env' key = env key := by
  cases key with
  | visibility s =>
    exact (henv' _).symm.trans ((visibility_settled h).trans ((visibility_settled h).symm.trans (henv _)))
  | triValue s => exact absurd h id
  | strValue s => exact absurd h id
  | assignable s => exact absurd h id
  | userValue s => exact absurd h id
  | choiceVisibility c => exact absurd h id
  | choiceTriValue c => exact absurd h id
  | choiceAssignable c => exact absurd h id
  | selection c => exact absurd h id

omit [DecidableEq ι] [DecidableEq γ] in
theorem asks_of_invisible {α : Type} (hv : env (.visibility s) = (0 : Tri)) (f : Tri → Get ι γ α) :
    (visibility s >>= f).asks env = .visibility s :: (f 0).asks env := by
  rw [Task.asks_bind, show (visibility s : Get ι γ Tri).run env = 0 from hv]
  rfl

omit [DecidableEq γ] in
/-- Where a symbol of a choice is not visible, only its visibility is asked for. -/
theorem asks_invisible (hv : env (.visibility s) = (0 : Tri)) :
    ((k.sym s).choice ≠ none → ∀ key' ∈ (k.triTask s).asks env, key' = .visibility s) ∧
      ∀ key' ∈ (k.assignableTask s).asks env, key' = .visibility s := by
  constructor
  · intro hc key' h
    obtain ⟨c, hc⟩ := Option.ne_none_iff_exists'.mp hc
    unfold Kconfig.triTask at h
    split at h
    · rw [asks_of_invisible hv, hc] at h
      exact List.mem_singleton.mp h
    · exact absurd h List.not_mem_nil
  · intro key' h
    unfold Kconfig.assignableTask at h
    split at h
    · rw [asks_of_invisible hv] at h
      exact List.mem_singleton.mp h
    · exact absurd h List.not_mem_nil

omit [DecidableEq γ] in
/-- Where a symbol is not visible, what the user set is not asked for. -/
theorem userValue_not_asked (hv : env (.visibility s) = (0 : Tri)) :
    .userValue s ∉ (k.tasks u (.triValue s)).asks env ∧ .userValue s ∉ (k.tasks u (.strValue s)).asks env := by
  have hzero : (0 : Tri) ≠ 0 → Key.userValue (γ := γ) s ≠ Key.userValue s := fun h => absurd rfl h
  have hvis : ∀ {α : Type} (f : Tri → Get ι γ α), (f 0).Below (· ≠ Key.userValue s) →
      Key.userValue s ∉ (visibility s >>= f).asks env := by
    intro α f hf h
    rw [asks_of_invisible hv] at h
    rcases List.mem_cons.mp h with h | h
    · exact absurd h (by simp)
    · exact hf.asks _ h rfl
  constructor
  · show _ ∉ (k.triTask s).asks env
    unfold Kconfig.triTask
    split
    · apply hvis
      split
      · rename_i hc
        exact below_plainTri hc hzero triKeys_ne_userValue
      · rename_i c hc
        exact below_choiceSymTri hc hzero triKeys_ne_userValue
    · exact List.not_mem_nil
  · show _ ∉ (k.strTask s).asks env
    unfold Kconfig.strTask
    split
    · exact fun h => absurd (List.mem_singleton.mp h) (by simp)
    · split
      · exact List.not_mem_nil
      · apply hvis
        refine Task.below_bind (below_ownStr hzero ?_) fun _ => trivial
        simp only [List.forall_mem_append]
        exact ⟨rangeKeys_ne_userValue, defaultKeys_ne_userValue⟩

omit [DecidableEq γ] in
/-- Nothing rests on what the user set for a symbol that is not shown. -/
theorem not_rests_userValue (hr : Acyclic k rank n) (hu : u.Ok k) (hs : ¬k.Shown s) :
    ¬Rests (k.tasks u) Key.keep (valuesOf k n u) key (.userValue s) := by
  intro hrest
  have hv : valuesOf k n u (.visibility s) = (0 : Tri) :=
    (solves_valuesOf hr hu (.visibility s)).symm.trans (visibility_settled hs)
  have hnot := userValue_not_asked (k := k) (u := u) hv
  have hask : Key.userValue s ∈ (k.tasks u key).asks (valuesOf k n u) := by
    cases hrest with
    | ask h => exact h
    | @through _ key₁ _ h hk' hr' =>
      rcases rests_userValue hu hr' with rfl | rfl <;> simp [Key.keep] at hk'
  rcases rests_userValue hu hrest with rfl | rfl
  · exact hnot.1 hask
  · exact hnot.2 hask

/-- What is asked for is linked with what it is asked for. -/
theorem linked_asks (hk : WellFormed k) (hdeps : Collects k deps) (hu : u.Ok k) (henv : Solves (k.tasks u) env)
    (hns : ¬k.settled key) (h : key' ∈ (k.tasks u key).asks env) : (k.links deps).Linked key key' := by
  by_cases hshown : ∀ s, key = .visibility s ∨ key = .triValue s ∨ key = .assignable s →
      (k.sym s).choice ≠ none → k.Shown s
  · exact linked_reads hk hdeps hshown (asks_reads hu h)
  · push Not at hshown
    obtain ⟨s, hor, hc, hs⟩ := hshown
    have hasks := asks_invisible (k := k) ((henv (.visibility s)).symm.trans (visibility_settled hs))
    rcases hor with rfl | rfl | rfl
    · exact absurd hs hns
    · rw [hasks.1 hc key' h]
      exact .inl rfl
    · rw [hasks.2 key' h]
      exact .inl rfl

theorem marks_tasks : (k.links deps).Marks (k.tasks u) Key.keep k.settled env := by
  intro key hkeep hne
  cases key with
  | visibility s => exact .inl rfl
  | triValue s => exact .inr ⟨id, .visibility s, .ask (triTask_visibility hne), rfl, rfl, .inl rfl⟩
  | strValue s =>
    rcases strTask_visibility hne with h | ⟨h, hne'⟩
    · exact .inr ⟨id, .visibility s, .ask h, rfl, rfl, .inl rfl⟩
    · exact .inr ⟨id, .triValue s, .ask h, rfl, rfl, .inr hne'⟩
  | assignable s =>
    exact .inr ⟨id, .visibility s, .ask (assignableTask_visibility hne), rfl, rfl, .inl rfl⟩
  | userValue s => simp [Key.keep] at hkeep
  | choiceVisibility c => exact .inl rfl
  | choiceTriValue c => simp [Key.keep] at hkeep
  | choiceAssignable c =>
    exact .inr ⟨id, .choiceVisibility c, .ask List.mem_cons_self, rfl, rfl, .inl rfl⟩
  | selection c =>
    have hmode : Key.choiceTriValue c ∈ (k.tasks u (.selection c)).asks env := List.mem_cons_self
    exact .inr ⟨id, .choiceVisibility c, .through hmode rfl (.ask List.mem_cons_self), rfl, rfl, .inl rfl⟩

theorem covers_tasks (hk : WellFormed k) (hdeps : Collects k deps) (hu : u.Ok k)
    (henv : Solves (k.tasks u) env) : (k.links deps).Covers (k.tasks u) Key.keep k.settled env := by
  intro key hkeep hns key' hr
  rcases rests_asks hu hr with h | ⟨c, hc, h⟩
  · exact linked_asks hk hdeps hu henv hns h
  · have hl := linked_asks hk hdeps hu henv hns hc
    rcases List.mem_cons.mp h with rfl | h
    · exact hl
    · refine linked_modules ?_ h
      rcases hl with he | hdep
      · exact (show Item.choice c = key.item from he) ▸ mem_items_choice hk
      · exact (valid_links hdeps).mem_items (.choice c) _ hdep

/-- What a change may leave as it is. -/
theorem sound_of_same (hk : WellFormed k) (hdeps : Collects k deps) (hr : Acyclic k rank n)
    (hu : u.Ok k) (hu' : u'.Ok k) (hm : Sound (k.tasks u) Key.keep k.settled (valuesOf k n u) m)
    (hs : (k.links deps).Shrinks m m') (hcl : (k.links deps).Closed m m')
    (hsame : ∀ key, m' key ≠ none → ¬k.settled key → ∀ key', key' = key ∨
      Rests (k.tasks u) Key.keep (valuesOf k n u) key key' → k.tasks u' key' = k.tasks u key') :
    Sound (k.tasks u') Key.keep k.settled (valuesOf k n u') m' :=
  hm.shrinks (solves_valuesOf hr hu) (solves_valuesOf hr hu') (ranked_tasks hr hu)
    (valid_links hdeps) marks_tasks (covers_tasks hk hdeps hu (solves_valuesOf hr hu)) hs hcl
    (fun _ => settled_same (solves_valuesOf hr hu) (solves_valuesOf hr hu')) fun key hkey hns =>
      ⟨hsame key hkey hns key (.inl rfl), fun key' h => hsame key hkey hns key' (.inr h)⟩

/-- What is left by an invalidation. -/
theorem invalidate_gone (hdeps : Collects k deps) {i : Item ι γ} (hi : i ∈ k.items) :
    (k.links deps).Shrinks m ((k.links deps).invalidate (k.items.length + 1) i m) ∧
      (k.links deps).Closed m ((k.links deps).invalidate (k.items.length + 1) i m) ∧
      (k.links deps).Gone ((k.links deps).invalidate (k.items.length + 1) i m) i := by
  obtain ⟨hs, hcl, hquiet, hnone⟩ := Links.invalidate_spec (c := m) (i := i) (n := k.items.length + 1)
    (valid_links hdeps) (fun _ => hi) (Nat.lt_succ_of_le (List.length_filter_le _ _))
  exact ⟨hs, hcl, hnone, hquiet⟩

theorem kept_before (hs : (k.links deps).Shrinks m m') (h : m' key ≠ none) : m key ≠ none :=
  fun hnone => h (hs.gone hnone)

/-- The item that is concerned is invalidated. -/
theorem sound_invalidate (hk : WellFormed k) (hdeps : Collects k deps) (hr : Acyclic k rank n)
    (hu : u.Ok k) (hu' : u'.Ok k) (hm : Sound (k.tasks u) Key.keep k.settled (valuesOf k n u) m)
    {i : Item ι γ} (hi : i ∈ k.items)
    (hsame : ∀ key : Key ι γ, key.item ≠ i → k.tasks u' key = k.tasks u key) :
    Sound (k.tasks u') Key.keep k.settled (valuesOf k n u')
      ((k.links deps).invalidate (k.items.length + 1) i m) := by
  obtain ⟨hs, hcl, hgone⟩ := invalidate_gone (m := m) hdeps hi
  refine sound_of_same hk hdeps hr hu hu' hm hs hcl fun key hkey hns key' hor => hsame key' fun he => ?_
  rcases hor with rfl | hrest
  · exact hkey (hgone.1 key' he)
  · exact hkey (hgone.forgotten hm (ranked_tasks hr hu) (valid_links hdeps) marks_tasks
      (covers_tasks hk hdeps hu (solves_valuesOf hr hu)) hs (kept_before hs hkey) hns hrest he)

omit [DecidableEq ι] [DecidableEq γ] in
theorem ne_of_item (h : key.item ≠ key'.item) : key ≠ key' := fun he => h (congrArg Key.item he)

omit [DecidableEq γ] in
theorem tasks_withValue {v : Option UserValue} (h : key ≠ .userValue s) :
    k.tasks (Kconfig.withValue u s v) key = k.tasks u key := by
  cases key with
  | userValue t =>
    have hne : t ≠ s := fun he => h (he ▸ rfl)
    show (pure (Function.update u.value s v t) : Get ι γ (Option UserValue)) = pure (u.value t)
    rw [Function.update_of_ne hne]
  | visibility t => rfl
  | triValue t => rfl
  | strValue t => rfl
  | assignable t => rfl
  | choiceVisibility d => rfl
  | choiceTriValue d => rfl
  | choiceAssignable d => rfl
  | selection d => rfl

theorem tasks_withSelection {t : Option ι} (h : key ≠ .selection c) :
    k.tasks (Kconfig.withSelection u c t) key = k.tasks u key := by
  cases key with
  | selection d =>
    have hne : d ≠ c := fun he => h (he ▸ rfl)
    show k.selectionTask d (Function.update u.selection c t d) = k.selectionTask d (u.selection d)
    rw [Function.update_of_ne hne]
  | visibility t => rfl
  | triValue t => rfl
  | strValue t => rfl
  | assignable t => rfl
  | userValue t => rfl
  | choiceVisibility d => rfl
  | choiceTriValue d => rfl
  | choiceAssignable d => rfl

theorem tasks_withMode {v : Option Tri} (h : key ≠ .choiceTriValue c) :
    k.tasks (Kconfig.withMode u c v) key = k.tasks u key := by
  cases key with
  | choiceTriValue d =>
    have hne : d ≠ c := fun he => h (he ▸ rfl)
    show k.choiceTriTask d (Function.update u.mode c v d) = k.choiceTriTask d (u.mode d)
    rw [Function.update_of_ne hne]
  | visibility t => rfl
  | triValue t => rfl
  | strValue t => rfl
  | assignable t => rfl
  | userValue t => rfl
  | choiceVisibility d => rfl
  | choiceAssignable d => rfl
  | selection d => rfl

/-- A symbol is set to y, and its choice is invalidated. -/
theorem sound_select (hk : WellFormed k) (hdeps : Collects k deps) (hr : Acyclic k rank n)
    (hu : u.Ok k) (hm : Sound (k.tasks u) Key.keep k.settled (valuesOf k n u) m)
    (hc : (k.sym s).choice = some c)
    {v : Option UserValue} (hu' : (Kconfig.withSelection (Kconfig.withValue u s v) c (some s)).Ok k) :
    Sound (k.tasks (Kconfig.withSelection (Kconfig.withValue u s v) c (some s))) Key.keep
      k.settled (valuesOf k n (Kconfig.withSelection (Kconfig.withValue u s v) c (some s)))
      ((k.links deps).invalidate (k.items.length + 1) (.choice c) m) := by
  obtain ⟨hs, hcl, hgone⟩ := invalidate_gone (m := m) hdeps (mem_items_choice hk (c := c))
  refine sound_of_same hk hdeps hr hu hu' hm hs hcl fun key hkey hns key' hor => ?_
  by_cases hitem : key'.item = .choice c
  · -- the choice itself
    exfalso
    rcases hor with rfl | hrest
    · exact hkey (hgone.1 key' hitem)
    · exact hkey (hgone.forgotten hm (ranked_tasks hr hu) (valid_links hdeps) marks_tasks
        (covers_tasks hk hdeps hu (solves_valuesOf hr hu)) hs (kept_before hs hkey) hns hrest hitem)
  · rw [tasks_withSelection (ne_of_item hitem)]
    by_cases huser : key' = .userValue s
    · -- the value of the symbol, on which only values of the symbol rest
      exfalso
      subst huser
      have hkept := kept_before hs hkey
      rcases hor with rfl | hrest
      · exact absurd (hm.keeps _ hkept) (by simp [Key.keep])
      · have hown : key.item = .sym s := by
          rcases rests_userValue hu hrest with rfl | rfl <;> rfl
        refine hkey (hgone.of_linked hm (ranked_tasks hr hu) (valid_links hdeps) marks_tasks hs hkept
          hrest.exists_ask (.inr ?_))
        have hdefined : s ∈ k.uniqueDefinedSyms := by
          by_contra hundef
          rw [(hk.undefined s hundef).2.2] at hc
          exact absurd hc.symm (Option.some_ne_none c)
        have hwide : ¬ (k.links deps).wide (.choice c) = true := by simp [Kconfig.links]
        rw [if_neg hwide]
        show key.item ∈ deps (.choice c)
        rw [hown, hdeps]
        have hshown : k.Shown s := by_contra fun hs => not_rests_userValue hr hu hs hrest
        exact buildDep_sym hdefined (hk.choice_mentioned s c hc hshown)
    · exact tasks_withValue huser

/-! ## Symbols without a prompt -/

/-- A symbol without a prompt is set or unset, and nothing is invalidated. -/
theorem sound_promptless (hk : WellFormed k) (hdeps : Collects k deps) (hr : Acyclic k rank n)
    (hu : u.Ok k) (hm : Sound (k.tasks u) Key.keep k.settled (valuesOf k n u) m) (hp : (k.sym s).prompts = [])
    {v : Option UserValue} (hu' : (Kconfig.withValue u s v).Ok k) :
    Sound (k.tasks (Kconfig.withValue u s v)) Key.keep k.settled
      (valuesOf k n (Kconfig.withValue u s v)) m := by
  have hs : ¬k.Shown s := by
    rintro ⟨e, he, -⟩
    rw [hp] at he
    exact absurd he List.not_mem_nil
  refine sound_of_same hk hdeps hr hu hu' hm (Links.Shrinks.refl m) (Links.Closed.refl m)
    fun key hkey _ key' hor => tasks_withValue fun he => ?_
  subst he
  rcases hor with rfl | hrest
  · exact absurd (hm.keeps _ hkey) (by simp [Key.keep])
  · exact not_rests_userValue hr hu hs hrest

/-! ## Runs -/

/-- The state is that of the user's values, with values kept that are right. -/
structure Fits (k : Kconfig ι γ) (n : ℕ) (st : State ι γ) (u : User ι γ) : Prop where
  user : st.user = u
  ok : u.Ok k
  sound : Sound (k.tasks u) Key.keep k.settled (valuesOf k n u) st.cache

/-- What is invalidated covers what was changed. -/
def EffectFits (k : Kconfig ι γ) (deps : Item ι γ → List (Item ι γ)) (n : ℕ) (u : User ι γ)
    (e : Effect ι γ) : Prop :=
  ∀ m, Sound (k.tasks u) Key.keep k.settled (valuesOf k n u) m →
    e.user.Ok k ∧ Sound (k.tasks e.user) Key.keep k.settled (valuesOf k n e.user)
      (invalidated k deps e.invalidated m)

theorem effectFits_none (hu : u.Ok k) {ok : Bool} : EffectFits k deps n u ⟨ok, u, none⟩ :=
  fun _ hm => ⟨hu, hm⟩

/-- A symbol's value is set or unset, and the symbol invalidated if it has a prompt. -/
theorem effectFits_value (hk : WellFormed k) (hdeps : Collects k deps) (hr : Acyclic k rank n)
    (hu : u.Ok k) {ok : Bool} {v : Option UserValue} :
    EffectFits k deps n u ⟨ok, Kconfig.withValue u s v, k.ifHasPrompt s⟩ := by
  intro m hm
  have hu' : (Kconfig.withValue u s v).Ok k := hu
  refine ⟨hu', ?_⟩
  show Sound _ _ _ _ (invalidated k deps (k.ifHasPrompt s) m)
  unfold Kconfig.ifHasPrompt
  split
  · rename_i hp
    exact sound_promptless hk hdeps hr hu hm hp hu'
  · rename_i hp
    have hi : Item.sym s ∈ k.items := by
      refine mem_items_sym.mpr ?_
      by_contra hundef
      exact hp (hk.undefined s hundef).2.1
    exact sound_invalidate hk hdeps hr hu hu' hm hi fun key hne =>
      tasks_withValue (ne_of_item hne)

omit [DecidableEq ι] in
theorem ok_withSelection (hu : u.Ok k) {t : Option ι} (ht : ∀ s ∈ t, s ∈ (k.choice c).syms) :
    (Kconfig.withSelection u c t).Ok k := by
  intro d s hs
  by_cases hd : d = c
  · subst hd
    rw [show (Kconfig.withSelection u d t).selection d = t from Function.update_self ..] at hs
    exact ht s hs
  · rw [show (Kconfig.withSelection u c t).selection d = u.selection d from Function.update_of_ne hd ..] at hs
    exact hu d s hs

theorem effectFits_setValue (hk : WellFormed k) (hdeps : Collects k deps) (hr : Acyclic k rank n)
    (hu : u.Ok k) (value : UserValue) : EffectFits k deps n u (k.setValue u s value) := by
  unfold Kconfig.setValue Kconfig.setGiven
  generalize k.given s value = v
  split
  · exact effectFits_none hu
  · split
    · unfold Kconfig.assign
      split
      · rename_i c hc
        split
        · intro m hm
          have hu' : (Kconfig.withSelection (Kconfig.withValue u s (some v)) c (some s)).Ok k := by
            refine ok_withSelection hu fun t ht => ?_
            rw [← Option.some.inj ht]
            exact hk.choice_mem s c hc
          exact ⟨hu', sound_select hk hdeps hr hu hm hc hu'⟩
        · exact effectFits_value hk hdeps hr hu
      · exact effectFits_value hk hdeps hr hu
    · exact effectFits_none hu

theorem effectFits_unsetValue (hk : WellFormed k) (hdeps : Collects k deps) (hr : Acyclic k rank n)
    (hu : u.Ok k) : EffectFits k deps n u (k.unsetValue u s) := by
  unfold Kconfig.unsetValue
  split
  · exact effectFits_none hu
  · exact effectFits_value hk hdeps hr hu

theorem effectFits_setMode (hk : WellFormed k) (hdeps : Collects k deps) (hr : Acyclic k rank n)
    (hu : u.Ok k) (value : UserValue) : EffectFits k deps n u (k.setMode u c value) := by
  unfold Kconfig.setMode
  split
  · split
    · exact effectFits_none hu
    · split
      · rename_i v _ _ _
        intro m hm
        have hu' : (Kconfig.withMode u c (some v)).Ok k := hu
        exact ⟨hu', sound_invalidate hk hdeps hr hu hu' hm (mem_items_choice hk)
          fun key hne => tasks_withMode (ne_of_item hne)⟩
      · exact effectFits_none hu
  · exact effectFits_none hu

theorem effectFits_unsetMode (hk : WellFormed k) (hdeps : Collects k deps) (hr : Acyclic k rank n)
    (hu : u.Ok k) : EffectFits k deps n u (Kconfig.unsetMode u c) := by
  unfold Kconfig.unsetMode
  split
  · exact effectFits_none hu
  · intro m hm
    have hu' : (Kconfig.withSelection (Kconfig.withMode u c none) c none).Ok k :=
      ok_withSelection (u := Kconfig.withMode u c none) hu fun s hs => absurd hs.symm (Option.some_ne_none s)
    exact ⟨hu', sound_invalidate hk hdeps hr hu hu' hm (mem_items_choice hk) fun key hne =>
      (tasks_withSelection (ne_of_item hne)).trans (tasks_withMode (ne_of_item hne))⟩

/-- Each operation gives the answer of a computation from scratch, and keeps what is right. -/
theorem step_agrees (hk : WellFormed k) (hdeps : Collects k deps) (hr : Acyclic k rank n)
    {st : State ι γ} (hst : Fits k n st u) (op : Op ι γ) :
    ∃ st', stepCached k deps n st op = some ((stepPlain k n u op).1, st') ∧
      Fits k n st' (stepPlain k n u op).2 := by
  obtain ⟨user, cache⟩ := st
  obtain ⟨rfl, hu, hm⟩ := hst
  have hfits : ∀ e, EffectFits k deps n user e →
      Fits k n ⟨e.user, invalidated k deps e.invalidated cache⟩ e.user :=
    fun e he => ⟨rfl, (he cache hm).1, (he cache hm).2⟩
  cases op with
  | read key =>
    have htotal : ∃ r, fetch (k.tasks user) Key.keep n key cache = some r :=
      fetch_total (ranked_tasks hr hu) (hr.bounded key) cache
    obtain ⟨⟨v, m'⟩, hf⟩ := htotal
    obtain ⟨rfl, hm', -, -⟩ := fetch_spec (solves_valuesOf hr hu) hm hf
    exact ⟨⟨user, m'⟩, by simp only [stepCached, hf]; rfl, ⟨rfl, hu, hm'⟩⟩
  | setValue s v => exact ⟨_, rfl, hfits _ (effectFits_setValue hk hdeps hr hu v)⟩
  | unsetValue s => exact ⟨_, rfl, hfits _ (effectFits_unsetValue hk hdeps hr hu)⟩
  | setMode c v => exact ⟨_, rfl, hfits _ (effectFits_setMode hk hdeps hr hu v)⟩
  | unsetMode c => exact ⟨_, rfl, hfits _ (effectFits_unsetMode hk hdeps hr hu)⟩

theorem run_agrees (hk : WellFormed k) (hdeps : Collects k deps) (hr : Acyclic k rank n)
    {st : State ι γ} (hst : Fits k n st u) (ops : List (Op ι γ)) :
    runCached k deps n st ops = some (runPlain k n u ops) := by
  induction ops generalizing st u with
  | nil => rfl
  | cons op ops ih =>
    obtain ⟨st', hstep, hst'⟩ := step_agrees hk hdeps hr hst op
    rw [runCached, hstep]
    show (runCached k deps n st' ops).map _ = _
    rw [ih hst']
    rfl

/-- What the user has set before anything is. -/
def User.initial : User ι γ := ⟨fun _ => none, fun _ => none, fun _ => none⟩

/-- Whatever is set, unset and read, in any order: the answers are those of a computation of
every value from scratch. -/
theorem answers_agree (hk : WellFormed k) (hdeps : Collects k deps) (hr : Acyclic k rank n)
    (ops : List (Op ι γ)) :
    runCached k deps n ⟨.initial, fun _ => none⟩ ops = some (runPlain k n .initial ops) :=
  run_agrees hk hdeps hr ⟨rfl, fun _ _ h => absurd h.symm (Option.some_ne_none _), sound_empty⟩ ops

end

/-! A driver that may be a module, and a choice for what depends on it. -/

inductive DriverSym where
  | modules
  | driver
  | fast
  | small
  deriving DecidableEq

def plainSymbol (name : Line) (t : SymType) (prompt : Expr DriverSym Unit) (choice : Option Unit) :
    Symbol DriverSym Unit :=
  ⟨name, t, [prompt], [], [], .n, .n, prompt, choice, false⟩

/-- `MODULES`, a driver, and a choice of two backends if the driver is enabled. -/
def driverConfig : Kconfig DriverSym Unit where
  sym
    | .modules => plainSymbol "MODULES".toList .bool .y none
    | .driver => plainSymbol "DRIVER".toList .tristate .y none
    | .fast => plainSymbol "FAST".toList .bool (.choice ()) (some ())
    | .small => plainSymbol "SMALL".toList .bool (.choice ()) (some ())
  choice _ := ⟨.bool, [.sym .driver], [], [.fast, .small], false⟩
  modules := .modules
  uniqueDefinedSyms := [.modules, .driver, .fast, .small]
  uniqueChoices := [()]

def driverRank : Key DriverSym Unit → ℕ
  | .userValue _ => 0
  | .visibility .modules => 0
  | .triValue .modules => 1
  | .strValue .modules => 2
  | .visibility .driver => 4
  | .triValue .driver => 5
  | .strValue .driver => 6
  | .visibility _ => 10
  | .triValue _ => 12
  | .strValue _ => 13
  | .assignable _ => 11
  | .choiceVisibility _ => 8
  | .choiceTriValue _ => 9
  | .choiceAssignable _ => 9
  | .selection _ => 11

theorem wellFormed_driverConfig : WellFormed driverConfig where
  undefined s := by cases s <;> decide
  choices c := by cases c; decide
  choice_mem s c := by cases s <;> cases c <;> decide
  choice_mentioned s c h _ := by
    revert h
    cases s <;> cases c <;> decide
  defaults_mem c := by cases c; decide

theorem acyclic_driverConfig : Acyclic driverConfig driverRank 14 where
  descends key := by
    cases key with
    | visibility s => cases s <;> decide
    | triValue s => cases s <;> decide
    | strValue s => cases s <;> decide
    | assignable s => cases s <;> decide
    | userValue s => cases s <;> decide
    | choiceVisibility c => cases c; decide
    | choiceTriValue c => cases c; decide
    | choiceAssignable c => cases c; decide
    | selection c => cases c; decide
  bounded key := by
    cases key with
    | visibility s => cases s <;> decide
    | triValue s => cases s <;> decide
    | strValue s => cases s <;> decide
    | assignable s => exact of_decide_eq_true rfl
    | userValue s => exact of_decide_eq_true rfl
    | choiceVisibility c => exact of_decide_eq_true rfl
    | choiceTriValue c => exact of_decide_eq_true rfl
    | choiceAssignable c => exact of_decide_eq_true rfl
    | selection c => exact of_decide_eq_true rfl

/-- The driver is enabled, a backend selected and then the driver disabled again. -/
theorem answers_agree_driver :
    runCached driverConfig driverConfig.buildDep 14 ⟨.initial, fun _ => none⟩
        [.setValue .driver (.str ['y']), .setValue .small (.tri 2), .read (.strValue .small),
          .read (.selection ()), .unsetValue .driver, .read (.strValue .small)] =
      some (runPlain driverConfig 14 .initial
        [.setValue .driver (.str ['y']), .setValue .small (.tri 2), .read (.strValue .small),
          .read (.selection ()), .unsetValue .driver, .read (.strValue .small)]) :=
  answers_agree wellFormed_driverConfig (fun _ _ => Iff.rfl) acyclic_driverConfig _

end HassOS.Kconfiglib
