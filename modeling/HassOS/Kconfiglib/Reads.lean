import HassOS.Kconfiglib.Value

/-!
# What values are computed from (`kconfiglib.py`)

`reads` are the keys that the value of a key may be computed from, whatever the values are:
those of the symbols and choices in the expressions concerned, of the choice of a symbol, of
the symbols of a choice, and of `MODULES` for what is a tristate. No task asks for another
key (`below_tasks`).
-/

namespace HassOS.Kconfiglib

open Framework

variable {ι γ : Type}

def Operand.keys : Operand ι → List (Key ι γ)
  | sym s => [.triValue s, .strValue s]
  | _ => []

def Expr.keys : Expr ι γ → List (Key ι γ)
  | operand o => o.keys
  | choice c => [.choiceTriValue c]
  | and e₁ e₂ => e₁.keys ++ e₂.keys
  | or e₁ e₂ => e₁.keys ++ e₂.keys
  | not e => e.keys
  | rel _ o₁ o₂ => o₁.keys ++ o₂.keys

namespace Kconfig

variable (k : Kconfig ι γ)

def promptKeys (prompts : List (Expr ι γ)) : List (Key ι γ) := prompts.flatMap Expr.keys

def defaultKeys (s : ι) : List (Key ι γ) :=
  (k.sym s).defaults.flatMap fun d => d.1.keys ++ d.2.keys

def rangeKeys (s : ι) : List (Key ι γ) :=
  (k.sym s).ranges.flatMap fun r => r.1.keys ++ r.2.1.keys ++ r.2.2.keys

/-- `MODULES`, for a tristate -/
def typeKeys (t : SymType) : List (Key ι γ) := if t = .tristate then [.triValue k.modules] else []

/-- The choice of a symbol. -/
def modeKeys (s : ι) : List (Key ι γ) :=
  match (k.sym s).choice with
  | some c => [.choiceTriValue c]
  | none => []

/-- What the value of a bool or tristate symbol is computed from, but its visibility and
the user's value. -/
def triKeys (s : ι) : List (Key ι γ) :=
  match (k.sym s).choice with
  | some c => [.selection c]
  | none => k.defaultKeys s ++ (k.sym s).weakRevDep.keys ++ (k.sym s).directDep.keys ++
      (k.sym s).revDep.keys ++ k.typeKeys (k.sym s).origType

/-- The keys that a value may be computed from. -/
def reads : Key ι γ → List (Key ι γ)
  | .visibility s => promptKeys (k.sym s).prompts ++ k.modeKeys s ++ k.typeKeys (k.sym s).origType
  | .triValue s =>
    if (k.sym s).origType.isBoolTristate then .visibility s :: .userValue s :: k.triKeys s else []
  | .strValue s =>
    if (k.sym s).origType.isBoolTristate then [.triValue s]
    else if (k.sym s).origType = .unknown then []
    else .visibility s :: .userValue s :: (k.rangeKeys s ++ k.defaultKeys s)
  | .assignable s =>
    if (k.sym s).origType.isBoolTristate then
      .visibility s :: ((k.sym s).revDep.keys ++ (k.sym s).weakRevDep.keys ++ k.modeKeys s ++
        k.typeKeys (k.sym s).origType)
    else []
  | .userValue _ => []
  | .choiceVisibility c => promptKeys (k.choice c).prompts ++ k.typeKeys (k.choice c).origType
  | .choiceTriValue c => .choiceVisibility c :: k.typeKeys (k.choice c).origType
  | .choiceAssignable c => .choiceVisibility c :: k.typeKeys (k.choice c).origType
  | .selection c =>
    .choiceTriValue c :: ((k.choice c).syms.map .visibility ++
      (k.choice c).defaults.flatMap fun d => .visibility d.1 :: d.2.keys)

end Kconfig

/-! ## The parts of the tasks -/

section

variable {k : Kconfig ι γ} {p : Key ι γ → Prop} {s : ι} {c : γ} {vis : Tri}

theorem below_triValue {o : Operand ι} (h : ∀ key ∈ o.keys, p key) : (triValue o).Below p := by
  cases o with
  | tri v => trivial
  | const name => trivial
  | sym s => exact ⟨h _ List.mem_cons_self, fun _ => trivial⟩

theorem below_strValue {o : Operand ι} (h : ∀ key ∈ o.keys, p key) : (strValue o).Below p := by
  cases o with
  | tri v => trivial
  | const name => trivial
  | sym s => exact ⟨h _ (List.mem_cons_of_mem _ List.mem_cons_self), fun _ => trivial⟩

theorem below_symToNum {o : Operand ι} (h : ∀ key ∈ o.keys, p key) : (k.symToNum o).Below p := by
  unfold Kconfig.symToNum
  split
  · exact Task.below_bind (below_triValue h) fun _ => trivial
  · exact Task.below_bind (below_strValue h) fun _ => trivial

theorem below_compareStr {o₁ o₂ : Operand ι} (h₁ : ∀ key ∈ o₁.keys, p key)
    (h₂ : ∀ key ∈ o₂.keys, p key) : (Kconfig.compareStr o₁ o₂).Below p :=
  Task.below_bind (below_strValue h₁) fun _ => Task.below_bind (below_strValue h₂) fun _ => trivial

theorem below_compare {o₁ o₂ : Operand ι} (h₁ : ∀ key ∈ o₁.keys, p key)
    (h₂ : ∀ key ∈ o₂.keys, p key) : (k.compare o₁ o₂).Below p := by
  have hstr := below_compareStr h₁ h₂
  unfold Kconfig.compare
  split
  · exact hstr
  · refine Task.below_bind (below_symToNum h₁) fun n₁ => ?_
    cases n₁ with
    | none => exact hstr
    | some a =>
      refine Task.below_bind (below_symToNum h₂) fun n₂ => ?_
      cases n₂ with
      | none => exact hstr
      | some b => trivial

theorem below_exprValue {e : Expr ι γ} (h : ∀ key ∈ e.keys, p key) : (k.exprValue e).Below p := by
  induction e with
  | operand o => exact below_triValue h
  | choice c => exact ⟨h _ List.mem_cons_self, fun _ => trivial⟩
  | and e₁ e₂ ih₁ ih₂ =>
    refine Task.below_bind (ih₁ fun key hk => h key (List.mem_append_left _ hk)) fun v => ?_
    show Task.Below p (if v = 0 then _ else _)
    split
    · trivial
    · exact Task.below_bind (ih₂ fun key hk => h key (List.mem_append_right _ hk)) fun _ => trivial
  | or e₁ e₂ ih₁ ih₂ =>
    refine Task.below_bind (ih₁ fun key hk => h key (List.mem_append_left _ hk)) fun v => ?_
    show Task.Below p (if v = 2 then _ else _)
    split
    · trivial
    · exact Task.below_bind (ih₂ fun key hk => h key (List.mem_append_right _ hk)) fun _ => trivial
  | not e ih => exact Task.below_bind (ih h) fun _ => trivial
  | rel r o₁ o₂ =>
    exact Task.below_bind (below_compare (fun key hk => h key (List.mem_append_left _ hk))
      fun key hk => h key (List.mem_append_right _ hk)) fun _ => trivial

theorem below_typeByModules {t : SymType} (h : ∀ key ∈ k.typeKeys t, p key) :
    (k.typeByModules t).Below p := by
  unfold Kconfig.typeByModules
  unfold Kconfig.typeKeys at h
  split
  · rename_i ht
    rw [if_pos ht] at h
    exact ⟨h _ List.mem_cons_self, fun _ => trivial⟩
  · trivial

theorem below_choiceTriValue (hc : (k.sym s).choice = some c) (h : ∀ key ∈ k.modeKeys s, p key) :
    p (.choiceTriValue c) := by
  apply h
  rw [Kconfig.modeKeys, hc]
  exact List.mem_cons_self

theorem below_type (hm : ∀ key ∈ k.modeKeys s, p key)
    (ht : ∀ key ∈ k.typeKeys (k.sym s).origType, p key) : (k.type s).Below p := by
  unfold Kconfig.type
  split
  · rename_i hs
    rw [hs] at ht
    refine Task.below_bind ?_ fun inY => ?_
    · unfold Kconfig.inYMode
      split
      · trivial
      · rename_i c hc
        exact ⟨below_choiceTriValue hc hm, fun _ => trivial⟩
    · cases inY with
      | true => trivial
      | false => exact below_typeByModules ht
  · trivial

theorem below_promptVisibility {prompts : List (Expr ι γ)}
    (h : ∀ key ∈ Kconfig.promptKeys prompts, p key) : (k.promptVisibility vis prompts).Below p := by
  induction prompts generalizing vis with
  | nil => trivial
  | cons e es ih =>
    exact Task.below_bind (below_exprValue fun key hk => h key (List.mem_append_left _ hk))
      fun v => ih fun key hk => h key (List.mem_append_right _ hk)

theorem below_hidden (hm : ∀ key ∈ k.modeKeys s, p key) : (k.hidden s vis).Below p := by
  unfold Kconfig.hidden
  split
  · trivial
  · rename_i c hc
    have hp := below_choiceTriValue hc hm
    split
    · exact ⟨hp, fun _ => trivial⟩
    · split
      · exact ⟨hp, fun _ => trivial⟩
      · trivial

theorem below_promoted {type : Get ι γ SymType} (h : type.Below p) :
    (Kconfig.promoted vis type).Below p := by
  unfold Kconfig.promoted
  split
  · exact Task.below_bind h fun _ => trivial
  · trivial

theorem below_triDefault {ds : List (Expr ι γ × Expr ι γ)}
    (h : ∀ key ∈ ds.flatMap fun d => d.1.keys ++ d.2.keys, p key) : (k.triDefault ds).Below p := by
  induction ds with
  | nil => trivial
  | cons d ds ih =>
    have hd : ∀ key ∈ d.1.keys ++ d.2.keys, p key := fun key hk => h key (List.mem_append_left _ hk)
    refine Task.below_bind (below_exprValue fun key hk => hd key (List.mem_append_right _ hk))
      fun v => ?_
    show Task.Below p (if v = 0 then _ else _)
    split
    · exact ih fun key hk => h key (List.mem_append_right _ hk)
    · exact Task.below_bind (below_exprValue fun key hk => hd key (List.mem_append_left _ hk))
        fun _ => trivial

theorem below_strDefault {ds : List (Expr ι γ × Expr ι γ)}
    (h : ∀ key ∈ ds.flatMap fun d => d.1.keys ++ d.2.keys, p key) : (k.strDefault ds).Below p := by
  induction ds with
  | nil => trivial
  | cons d ds ih =>
    have hd : ∀ key ∈ d.1.keys ++ d.2.keys, p key := fun key hk => h key (List.mem_append_left _ hk)
    refine Task.below_bind (below_exprValue fun key hk => hd key (List.mem_append_right _ hk))
      fun v => ?_
    show Task.Below p (if v = 0 then _ else _)
    split
    · exact ih fun key hk => h key (List.mem_append_right _ hk)
    · refine Task.below_bind ?_ fun _ => trivial
      obtain ⟨e, cond⟩ := d
      show (Kconfig.defaultStr e).Below p
      cases e with
      | operand o => exact below_strValue fun key hk => hd key (List.mem_append_left _ hk)
      | choice c => trivial
      | and e₁ e₂ => trivial
      | or e₁ e₂ => trivial
      | not e => trivial
      | rel r o₁ o₂ => trivial

theorem below_activeRange {base : ℕ} {rs : List (Operand ι × Operand ι × Expr ι γ)}
    (h : ∀ key ∈ rs.flatMap fun r => r.1.keys ++ r.2.1.keys ++ r.2.2.keys, p key) :
    (k.activeRange base rs).Below p := by
  induction rs with
  | nil => trivial
  | cons r rs ih =>
    have hr : ∀ key ∈ r.1.keys ++ r.2.1.keys ++ r.2.2.keys, p key :=
      fun key hk => h key (List.mem_append_left _ hk)
    have hb : ∀ key ∈ r.1.keys ++ r.2.1.keys, p key := fun key hk => hr key (List.mem_append_left _ hk)
    refine Task.below_bind (below_exprValue fun key hk => hr key (List.mem_append_right _ hk))
      fun v => ?_
    show Task.Below p (if v = 0 then _ else _)
    split
    · exact ih fun key hk => h key (List.mem_append_right _ hk)
    · refine Task.below_bind (below_strValue fun key hk => hb key (List.mem_append_left _ hk)) fun l => ?_
      exact Task.below_bind (below_strValue fun key hk => hb key (List.mem_append_right _ hk))
        fun _ => trivial

theorem below_withImplies {val : Tri × Bool} (hw : ∀ key ∈ (k.sym s).weakRevDep.keys, p key)
    (hd : ∀ key ∈ (k.sym s).directDep.keys, p key) : (k.withImplies s val).Below p := by
  refine Task.below_bind (below_exprValue hw) fun v => ?_
  show Task.Below p (if v = 0 then _ else _)
  split
  · trivial
  · exact Task.below_bind (below_exprValue hd) fun _ => trivial

theorem below_withSelects {val : Tri × Bool} (hr : ∀ key ∈ (k.sym s).revDep.keys, p key)
    (hd : ∀ key ∈ (k.sym s).directDep.keys, p key) : (k.withSelects s val).Below p := by
  refine Task.below_bind (below_exprValue hr) fun v => ?_
  show Task.Below p (if v = 0 then _ else _)
  split
  · trivial
  · exact Task.below_bind (below_exprValue hd) fun _ => trivial

theorem below_promotedValue {val : Tri × Bool} (hw : ∀ key ∈ (k.sym s).weakRevDep.keys, p key)
    (ht : (k.type s).Below p) : (k.promotedValue s val).Below p := by
  unfold Kconfig.promotedValue
  split
  · refine Task.below_bind ht fun t => ?_
    show Task.Below p (if t = .bool then _ else _)
    split
    · trivial
    · exact Task.below_bind (below_exprValue hw) fun _ => trivial
  · trivial

/-- The user's value is only asked for what is visible. -/
theorem below_userTri (hu : vis ≠ 0 → p (.userValue s)) :
    (Kconfig.userTri s vis : Get ι γ (Option Tri)).Below p := by
  unfold Kconfig.userTri
  split
  · trivial
  · rename_i h
    exact ⟨hu h, fun _ => trivial⟩

theorem below_userStr (hu : vis ≠ 0 → p (.userValue s)) :
    (Kconfig.userStr s vis : Get ι γ (Option Line)).Below p := by
  unfold Kconfig.userStr
  split
  · trivial
  · rename_i h
    exact ⟨hu h, fun _ => trivial⟩

theorem below_userNum {range : Option (ℤ × ℤ)} (hu : vis ≠ 0 → p (.userValue s)) :
    (k.userNum s vis range).Below p := by
  unfold Kconfig.userNum
  split
  · trivial
  · rename_i h
    exact ⟨hu h, fun _ => trivial⟩

theorem triKeys_of_none (hc : (k.sym s).choice = none) : k.triKeys s =
    k.defaultKeys s ++ (k.sym s).weakRevDep.keys ++ (k.sym s).directDep.keys ++
      (k.sym s).revDep.keys ++ k.typeKeys (k.sym s).origType := by
  rw [Kconfig.triKeys, hc]

theorem below_plainTri (hc : (k.sym s).choice = none) (hu : vis ≠ 0 → p (.userValue s))
    (h : ∀ key ∈ k.triKeys s, p key) : (k.plainTri s vis).Below p := by
  rw [triKeys_of_none hc] at h
  simp only [List.forall_mem_append] at h
  obtain ⟨⟨⟨⟨hdef, hweak⟩, hdirect⟩, hrev⟩, htype⟩ := h
  have hmode : ∀ key ∈ k.modeKeys s, p key := by
    rw [Kconfig.modeKeys, hc]
    exact fun key hk => absurd hk List.not_mem_nil
  refine Task.below_bind ?_ fun own => Task.below_bind (below_withSelects hrev hdirect) fun val =>
    below_promotedValue hweak (below_type hmode htype)
  refine Task.below_bind (below_userTri hu) fun user => ?_
  cases user with
  | some v => trivial
  | none => exact Task.below_bind (below_triDefault hdef) fun v => below_withImplies hweak hdirect

theorem below_firstVisible {syms : List ι} (h : ∀ s ∈ syms, p (.visibility s)) :
    (Kconfig.firstVisible syms : Get ι γ (Option ι)).Below p := by
  induction syms with
  | nil => trivial
  | cons s ss ih =>
    refine ⟨h s List.mem_cons_self, fun (v : Tri) => ?_⟩
    show Task.Below p (if v = 0 then _ else _)
    split
    · exact ih fun s hs => h s (List.mem_cons_of_mem _ hs)
    · trivial

theorem below_selectionFromDefaults {syms : List ι} {ds : List (ι × Expr ι γ)}
    (h : ∀ s ∈ syms, p (.visibility s))
    (hd : ∀ key ∈ ds.flatMap fun d => .visibility d.1 :: d.2.keys, p key) :
    (k.selectionFromDefaults syms ds).Below p := by
  induction ds with
  | nil => exact below_firstVisible h
  | cons d ds ih =>
    have hds := ih fun key hk => hd key (List.mem_append_right _ hk)
    have hd' : ∀ key ∈ .visibility d.1 :: d.2.keys, p key :=
      fun key hk => hd key (List.mem_append_left _ hk)
    refine Task.below_bind (below_exprValue fun key hk => hd' key (List.mem_cons_of_mem _ hk)) fun v => ?_
    show Task.Below p (if v = 0 then _ else _)
    split
    · exact hds
    · refine ⟨hd' _ List.mem_cons_self, fun (v : Tri) => ?_⟩
      show Task.Below p (if v = 0 then _ else _)
      split
      · exact hds
      · trivial

end

/-! ## The tasks -/

section

variable {k : Kconfig ι γ} {u : User ι γ} {p : Key ι γ → Prop} {s : ι} {c : γ} {vis : Tri}

theorem below_visibilityTask (h : ∀ key ∈ k.reads (.visibility s), p key) :
    (k.visibilityTask s).Below p := by
  simp only [Kconfig.reads, List.forall_mem_append] at h
  obtain ⟨⟨hprompt, hmode⟩, htype⟩ := h
  refine Task.below_bind (below_promptVisibility hprompt) fun vis =>
    Task.below_bind (below_hidden hmode) fun hid => ?_
  cases hid with
  | true => trivial
  | false => exact below_promoted (below_type hmode htype)

theorem below_ownStr (hu : vis ≠ 0 → p (.userValue s))
    (h : ∀ key ∈ k.rangeKeys s ++ k.defaultKeys s, p key) : (k.ownStr s vis).Below p := by
  have hdef := below_strDefault (k := k) fun key hk => h key (List.mem_append_right _ hk)
  unfold Kconfig.ownStr
  split
  · refine Task.below_bind (below_activeRange fun key hk => h key (List.mem_append_left _ hk))
      fun range => Task.below_bind (below_userNum hu) fun user => ?_
    cases user with
    | some val => trivial
    | none =>
      refine Task.below_bind hdef fun default => ?_
      cases default with
      | some val => trivial
      | none => trivial
  · refine Task.below_bind (below_userStr hu) fun user => ?_
    cases user with
    | some val => trivial
    | none =>
      refine Task.below_bind hdef fun default => ?_
      cases default with
      | some val => trivial
      | none => trivial

theorem below_strTask (h : ∀ key ∈ k.reads (.strValue s), p key) : (k.strTask s).Below p := by
  unfold Kconfig.strTask
  simp only [Kconfig.reads] at h
  split
  · rename_i hs
    rw [if_pos hs] at h
    exact ⟨h _ List.mem_cons_self, fun _ => trivial⟩
  · rename_i hs
    rw [if_neg hs] at h
    split
    · trivial
    · rename_i hs
      rw [if_neg hs] at h
      have huser : p (.userValue s) := h _ (List.mem_cons_of_mem _ List.mem_cons_self)
      refine ⟨h _ List.mem_cons_self, fun (vis : Tri) => ?_⟩
      show Task.Below p (k.ownStr s vis >>= _)
      exact Task.below_bind (below_ownStr (fun _ => huser) fun key hk =>
        h key (List.mem_cons_of_mem _ (List.mem_cons_of_mem _ hk))) fun _ => trivial

theorem below_onlyBool (hw : ∀ key ∈ (k.sym s).weakRevDep.keys, p key) (ht : (k.type s).Below p) :
    (k.onlyBool s).Below p := by
  refine Task.below_bind ht fun t => ?_
  show Task.Below p (if t = .bool then _ else _)
  split
  · trivial
  · exact Task.below_bind (below_exprValue hw) fun _ => trivial

theorem below_assignableTask (h : ∀ key ∈ k.reads (.assignable s), p key) :
    (k.assignableTask s).Below p := by
  unfold Kconfig.assignableTask
  simp only [Kconfig.reads] at h
  split
  · rename_i hs
    rw [if_pos hs] at h
    have hvis : p (.visibility s) := h _ List.mem_cons_self
    have hrest := fun key hk => h key (List.mem_cons_of_mem _ hk)
    simp only [List.forall_mem_append] at hrest
    obtain ⟨⟨⟨hrev, hweak⟩, hmode⟩, htype⟩ := hrest
    have honly := below_onlyBool hweak (below_type hmode htype)
    refine ⟨hvis, fun (vis : Tri) => ?_⟩
    show Task.Below p (if vis = 0 then _ else _)
    split
    · trivial
    · refine Task.below_bind (below_exprValue hrev) fun revDep => ?_
      unfold Kconfig.assignableAt
      split
      · split
        · trivial
        · split
          · exact Task.below_bind honly fun _ => trivial
          · split
            · trivial
            · exact Task.below_bind honly fun _ => trivial
      · split
        · exact Task.below_bind (below_exprValue hweak) fun _ => trivial
        · split <;> trivial
  · trivial

theorem below_choiceTriTask {user : Option Tri} (h : ∀ key ∈ k.reads (.choiceTriValue c), p key) :
    (k.choiceTriTask c user).Below p := by
  refine ⟨h _ List.mem_cons_self, fun (vis : Tri) => ?_⟩
  show Task.Below p (if k.limitedMode c user vis = 1 then _ else _)
  split
  · exact Task.below_bind (below_typeByModules fun key hk => h key (List.mem_cons_of_mem _ hk))
      fun _ => trivial
  · trivial

theorem below_choiceAssignableTask (h : ∀ key ∈ k.reads (.choiceAssignable c), p key) :
    (k.choiceAssignableTask c).Below p := by
  refine ⟨h _ List.mem_cons_self, fun (vis : Tri) => ?_⟩
  show Task.Below p (if vis = 0 then _ else _)
  split
  · trivial
  · split
    · exact Task.below_bind (below_typeByModules fun key hk => h key (List.mem_cons_of_mem _ hk))
        fun _ => trivial
    · trivial

/-- The user's selection is one of the choice's symbols. -/
def User.Ok (k : Kconfig ι γ) (u : User ι γ) : Prop :=
  ∀ c s, u.selection c = some s → s ∈ (k.choice c).syms

theorem below_selectionTask (hu : u.Ok k) (h : ∀ key ∈ k.reads (.selection c), p key) :
    (k.selectionTask c (u.selection c)).Below p := by
  have hrest := fun key hk => h key (List.mem_cons_of_mem _ hk)
  simp only [List.forall_mem_append, List.forall_mem_map] at hrest
  have hdef := below_selectionFromDefaults (k := k) hrest.1 hrest.2
  refine ⟨h _ List.mem_cons_self, fun (v : Tri) => ?_⟩
  show Task.Below p (if v = 2 then _ else _)
  split
  · unfold Kconfig.selectionInY
    split
    · exact hdef
    · rename_i s hs
      refine ⟨hrest.1 s (hu c s hs), fun (vis : Tri) => ?_⟩
      show Task.Below p (if vis = 0 then _ else _)
      split
      · exact hdef
      · trivial
  · trivial

variable [DecidableEq ι]

theorem below_choiceSymTri (hc : (k.sym s).choice = some c) (hu : vis ≠ 0 → p (.userValue s))
    (h : ∀ key ∈ k.triKeys s, p key) : (Kconfig.choiceSymTri s c vis).Below p := by
  rw [Kconfig.triKeys, hc] at h
  unfold Kconfig.choiceSymTri
  split
  · exact ⟨h _ List.mem_cons_self, fun _ => trivial⟩
  · refine Task.below_bind (below_userTri hu) fun user => ?_
    cases user with
    | some v => trivial
    | none => trivial

theorem below_triTask (h : ∀ key ∈ k.reads (.triValue s), p key) : (k.triTask s).Below p := by
  unfold Kconfig.triTask
  simp only [Kconfig.reads] at h
  split
  · rename_i hs
    rw [if_pos hs] at h
    have hrest := fun key hk => h key (List.mem_cons_of_mem _ (List.mem_cons_of_mem _ hk))
    have huser : p (.userValue s) := h _ (List.mem_cons_of_mem _ List.mem_cons_self)
    refine ⟨h _ List.mem_cons_self, fun (vis : Tri) => ?_⟩
    split
    · rename_i hc
      exact below_plainTri hc (fun _ => huser) hrest
    · rename_i c hc
      exact below_choiceSymTri hc (fun _ => huser) hrest
  · trivial

/-- The tasks only ask for what they read. -/
theorem below_tasks (hu : u.Ok k) (key : Key ι γ) (h : ∀ key' ∈ k.reads key, p key') :
    (k.tasks u key).Below p := by
  cases key with
  | visibility s => exact below_visibilityTask h
  | triValue s => exact below_triTask h
  | strValue s => exact below_strTask h
  | assignable s => exact below_assignableTask h
  | userValue s => trivial
  | choiceVisibility c =>
    simp only [Kconfig.reads, List.forall_mem_append] at h
    exact Task.below_bind (below_promptVisibility h.1) fun vis => below_promoted (below_typeByModules h.2)
  | choiceTriValue c => exact below_choiceTriTask h
  | choiceAssignable c => exact below_choiceAssignableTask h
  | selection c => exact below_selectionTask hu h

end

end HassOS.Kconfiglib
