import HassOS.Kconfiglib.Agree

/-!
# What setting a value does (`kconfiglib.py`)

`assignable` tells which values of a symbol would be respected: those are the ones that it
has after they are set, unless the symbol is selected and visible with m and implied with y
(`assignable_iff`).

A choice in y mode has exactly one symbol that is y, if one is visible (`one_selected`), and
to set a visible symbol to y makes it that one (`set_y_selects`). An int or hex symbol is
within its active range, whatever the user and the defaults say (`within_range`).
-/

namespace HassOS.Kconfiglib

open Framework

variable {ι γ : Type} [DecidableEq ι]

section

variable (k : Kconfig ι γ) (n : ℕ) (u : User ι γ)

def visibilityOf (s : ι) : Tri := valuesOf k n u (.visibility s)

def triOf (s : ι) : Tri := Prod.fst (α := Tri) (β := Bool) (valuesOf k n u (.triValue s))

def strOf (s : ι) : Line := Prod.fst (α := Line) (β := Bool) (valuesOf k n u (.strValue s))

def assignableOf (s : ι) : List Tri := valuesOf k n u (.assignable s)

def modeOf (c : γ) : Tri := valuesOf k n u (.choiceTriValue c)

def selectionOf (c : γ) : Option ι := valuesOf k n u (.selection c)

/-- The value of an expression. -/
def valueOf (e : Expr ι γ) : Tri := (k.exprValue e).run (valuesOf k n u)

/-- The symbol's `type` -/
def typeOf (s : ι) : SymType := (k.type s).run (valuesOf k n u)

end

variable {k : Kconfig ι γ} {n : ℕ} {u u' : User ι γ} {s t : ι} {c : γ} {rank : Key ι γ → ℕ}

/-! ## What does not change -/

/-- What is computed before a symbol's value is. -/
def Earlier (rank : Key ι γ → ℕ) (bound : ℕ) (s : ι) (key : Key ι γ) : Prop :=
  rank key < bound ∧ key ≠ .userValue s

omit [DecidableEq ι] in
theorem tri_lt_str (hr : Acyclic k rank n) (hbool : (k.sym s).origType.isBoolTristate = true) :
    rank (.triValue s) < rank (.strValue s) := by
  apply hr.descends (.strValue s)
  rw [Kconfig.reads, if_pos hbool]
  exact List.mem_cons_self

theorem earlier_reads (hr : Acyclic k rank n) (hbool : (k.sym s).origType.isBoolTristate = true)
    {bound : ℕ} (hb : bound ≤ rank (.triValue s)) {key : Key ι γ} (hlt : rank key ≤ bound) :
    (∀ key' ∈ k.reads key, Earlier rank bound s key') ∨ key = .triValue s := by
  by_cases he : key = .triValue s
  · exact .inr he
  · refine .inl fun key' hk => ⟨Nat.lt_of_lt_of_le (hr.descends key key' hk) hlt, ?_⟩
    rintro rfl
    have hstr := tri_lt_str hr hbool
    rcases reads_userValue hk with rfl | rfl
    · exact he rfl
    · omega

/-- A change of what is set for a symbol leaves what is computed earlier. -/
theorem values_earlier (hr : Acyclic k rank n) (hu : u.Ok k)
    (hbool : (k.sym s).origType.isBoolTristate = true) {bound : ℕ} (hb : bound ≤ rank (.triValue s))
    (hsame : ∀ key, Earlier rank bound s key → k.tasks u' key = k.tasks u key) {key : Key ι γ}
    (hkey : Earlier rank bound s key) : valuesOf k n u' key = valuesOf k n u key := by
  refine plain_frame (p := Earlier rank bound s) (fun key hkey => ⟨hsame key hkey, ?_⟩) n hkey
  rcases earlier_reads hr hbool hb (Nat.le_of_lt hkey.1) with h | rfl
  · exact below_tasks hu key h
  · exact absurd hkey.1 (by omega)

/-- A computation that only asks for such values has the same result. -/
theorem run_earlier {α : Type} {p : Key ι γ → Prop} {t : Get ι γ α} (ht : t.Below p)
    (h : ∀ key, p key → valuesOf k n u' key = valuesOf k n u key) :
    t.run (valuesOf k n u') = t.run (valuesOf k n u) :=
  (Task.run_congr fun key hk => h key (ht.asks key hk)).1

/-! ## Values of symbols in no choice -/

theorem assignable_eq (hr : Acyclic k rank n) (hu : u.Ok k) :
    assignableOf k n u s = (k.assignableTask s).run (valuesOf k n u) :=
  (solves_valuesOf hr hu (.assignable s)).symm

theorem tri_eq (hr : Acyclic k rank n) (hu : u.Ok k) :
    triOf k n u s = ((k.triTask s).run (valuesOf k n u)).1 :=
  congrArg (Prod.fst (α := Tri) (β := Bool)) (solves_valuesOf hr hu (.triValue s)).symm

theorem visibility_eq (hr : Acyclic k rank n) (hu : u.Ok k) :
    visibilityOf k n u s = (k.visibilityTask s).run (valuesOf k n u) :=
  (solves_valuesOf hr hu (.visibility s)).symm

/-- A symbol that is visible with m is a tristate. -/
theorem type_of_visible_m (hr : Acyclic k rank n) (hu : u.Ok k) (h : visibilityOf k n u s = 1) :
    typeOf k n u s = .tristate := by
  rw [visibility_eq hr hu, Kconfig.visibilityTask, Task.run_bind, Task.run_bind] at h
  generalize (k.hidden s _).run _ = hid at h
  generalize (k.promptVisibility 0 _).run _ = vis at h
  cases hid with
  | true =>
    have h : (0 : Tri) = 1 := h
    exact absurd h (by decide)
  | false =>
    show (k.type s).run _ = _
    have h : (Kconfig.promoted vis (k.type s)).run (valuesOf k n u) = 1 := h
    unfold Kconfig.promoted at h
    split at h
    · rw [Task.run_bind, Task.run_pure] at h
      split at h
      · assumption
      · exact absurd h (by decide)
    · rename_i hvis
      exact absurd h hvis

/-- m is promoted to y for a bool, and for what is implied with y. -/
def promotedTri (weak : Tri) (isBool : Bool) (v : Tri) : Tri :=
  if v = 1 then (if isBool ∨ weak = 2 then 2 else 1) else v

/-- The value of a visible symbol that the user set, from its visibility, selects and implies. -/
def respectedTri (vis rev weak : Tri) (isBool : Bool) (v : Tri) : Tri :=
  promotedTri weak isBool (max rev (min v vis))

omit [DecidableEq ι] in
theorem run_promotedValue (env : ∀ key : Key ι γ, Val key) (val : Tri × Bool) :
    ((k.promotedValue s val).run env).1 =
      promotedTri ((k.exprValue (k.sym s).weakRevDep).run env) (decide ((k.type s).run env = .bool)) val.1 := by
  unfold Kconfig.promotedValue promotedTri
  by_cases h : val.1 = 1
  · rw [if_pos h, if_pos h, Task.run_bind]
    by_cases ht : (k.type s).run env = .bool
    · rw [if_pos ht, if_pos (.inl (decide_eq_true ht))]
      rfl
    · rw [if_neg ht, Task.run_bind, Task.run_pure]
      by_cases hw : (k.exprValue (k.sym s).weakRevDep).run env = 2
      · rw [if_pos hw, if_pos (.inr hw)]
      · rw [if_neg hw, if_neg]
        exact fun hor => hor.elim (fun h => ht (of_decide_eq_true h)) hw
  · rw [if_neg h, if_neg h]
    rfl

omit [DecidableEq ι] in
theorem run_plainTri (env : ∀ key : Key ι γ, Val key) {vis v : Tri} (hvis : vis ≠ 0)
    (huser : env (.userValue s) = (some (.tri v) : Option UserValue)) :
    ((k.plainTri s vis).run env).1 =
      respectedTri vis ((k.exprValue (k.sym s).revDep).run env)
        ((k.exprValue (k.sym s).weakRevDep).run env)
        (decide ((k.type s).run env = .bool)) v := by
  have hown : (k.ownTri s vis).run env = (min v vis, decide (vis ≠ 0)) := by
    unfold Kconfig.ownTri Kconfig.userTri
    rw [if_neg hvis, Task.run_bind, Task.run_bind]
    show (Task.run env _ : Tri × Bool) = _
    rw [show (userValue s).run env = some (.tri v) from huser]
    rfl
  unfold Kconfig.plainTri
  rw [Task.run_bind, Task.run_bind, hown]
  unfold Kconfig.withSelects
  rw [Task.run_bind]
  by_cases hrev : (k.exprValue (k.sym s).revDep).run env = 0
  · rw [if_pos hrev, hrev, run_promotedValue, respectedTri, (max_zero _).1]
    rfl
  · rw [if_neg hrev, Task.run_bind, run_promotedValue]
    rfl

omit [DecidableEq ι] in
theorem run_onlyBool (env : ∀ key : Key ι γ, Val key) : (k.onlyBool s).run env =
    decide ((k.type s).run env = .bool ∨ (k.exprValue (k.sym s).weakRevDep).run env = 2) := by
  unfold Kconfig.onlyBool
  rw [Task.run_bind]
  split
  · rename_i h
    simp [h]
  · rename_i h
    rw [Task.run_bind]
    simp [h]

/-- `_assignable` as a function of what it reads. -/
def assignableTris (vis rev weak : Tri) (isBool : Bool) : List Tri :=
  if vis = 0 then []
  else if vis = 2 then
    if rev = 0 then (if isBool ∨ weak = 2 then [0, 2] else [0, 1, 2])
    else if rev = 2 then [2]
    else if isBool ∨ weak = 2 then [2] else [1, 2]
  else if rev = 0 then (if weak ≠ 2 then [0, 1] else [0, 2])
  else if rev = 2 then [2]
  else [1]

omit [DecidableEq ι] in
theorem run_assignableTask (env : ∀ key : Key ι γ, Val key)
    (hbool : (k.sym s).origType.isBoolTristate = true) (hc : (k.sym s).choice = none) :
    (k.assignableTask s).run env =
      assignableTris ((visibility s).run env) ((k.exprValue (k.sym s).revDep).run env)
        ((k.exprValue (k.sym s).weakRevDep).run env) (decide ((k.type s).run env = .bool)) := by
  unfold Kconfig.assignableTask
  rw [if_pos hbool, Task.run_bind]
  generalize (visibility s).run env = vis
  unfold assignableTris
  split
  · rfl
  · rw [Task.run_bind]
    generalize (k.exprValue (k.sym s).revDep).run env = rev
    unfold Kconfig.assignableAt
    simp only [hc, Option.isSome_none, Bool.false_eq_true, if_false]
    split
    · split
      · rw [Task.run_bind, run_onlyBool]
        simp
      · split
        · rfl
        · rw [Task.run_bind, run_onlyBool]
          simp
    · split
      · rw [Task.run_bind]
        rfl
      · split <;> rfl

/-- The values that are assignable are those that are respected, but for a symbol that is
selected and visible with m and implied with y. -/
theorem assignableTris_iff {vis rev weak : Tri} {isBool : Bool} (h : vis = 1 → isBool = false) :
    (∀ v, v ∈ assignableTris vis rev weak isBool ↔ vis ≠ 0 ∧ respectedTri vis rev weak isBool v = v) ↔
      ¬ (vis = 1 ∧ rev = 1 ∧ weak = 2) := by
  revert vis rev weak isBool
  decide

variable [DecidableEq γ]

/-- The symbol is visible, and if it is set to the value it has it. -/
def Respected (k : Kconfig ι γ) (n : ℕ) (u : User ι γ) (s : ι) (v : Tri) : Prop :=
  visibilityOf k n u s ≠ 0 ∧ (k.setValue u s (.tri v)).ok = true ∧
    triOf k n (k.setValue u s (.tri v)).user s = v

theorem setValue_tri (hbool : (k.sym s).origType.isBoolTristate = true) (hc : (k.sym s).choice = none)
    (v : Tri) : k.setValue u s (.tri v) =
      if u.value s = some (.tri v) then ⟨true, u, none⟩
      else if isValid (k.sym s).origType (.tri v) then
        ⟨true, Kconfig.withValue u s (some (.tri v)), k.ifHasPrompt s⟩
      else ⟨false, u, none⟩ := by
  unfold Kconfig.setValue Kconfig.setGiven Kconfig.given Kconfig.assign
  simp only [hbool, hc, if_true, and_true]
  rfl

omit [DecidableEq γ] in
/-- The value of a visible symbol that is set. -/
theorem tri_withValue (hr : Acyclic k rank n) (hu : u.Ok k)
    (hbool : (k.sym s).origType.isBoolTristate = true) (hc : (k.sym s).choice = none) {v : Tri}
    (hvis : visibilityOf k n u s ≠ 0) :
    triOf k n (Kconfig.withValue u s (some (.tri v))) s =
      respectedTri (visibilityOf k n u s) (valueOf k n u (k.sym s).revDep)
        (valueOf k n u (k.sym s).weakRevDep) (decide (typeOf k n u s = .bool)) v := by
  have hu' : (Kconfig.withValue u s (some (.tri v))).Ok k := hu
  have hsame : ∀ key, Earlier rank (rank (.triValue s)) s key →
      valuesOf k n (Kconfig.withValue u s (some (.tri v))) key = valuesOf k n u key :=
    fun key hkey => values_earlier hr hu hbool (Nat.le_refl _) (fun key h => tasks_withValue h.2) hkey
  have hread : ∀ key ∈ k.reads (.triValue s), key ≠ .userValue s →
      Earlier rank (rank (.triValue s)) s key := fun key hk hne => ⟨hr.descends _ key hk, hne⟩
  rw [Kconfig.reads, if_pos hbool, triKeys_of_none hc] at hread
  have htri := fun key hk => hread key (List.mem_cons_of_mem _ (List.mem_cons_of_mem _ hk))
  have hv : (visibility s).run (valuesOf k n (Kconfig.withValue u s (some (.tri v)))) = visibilityOf k n u s :=
    hsame (.visibility s) (hread _ List.mem_cons_self (by simp))
  rw [tri_eq hr hu', Kconfig.triTask, if_pos hbool, Task.run_bind, hc, hv]
  have huser : valuesOf k n (Kconfig.withValue u s (some (.tri v))) (.userValue s) =
      (some (.tri v) : Option UserValue) := by
    rw [← solves_valuesOf hr hu' (.userValue s)]
    exact Function.update_self ..
  show (Task.run _ (k.plainTri s _)).1 = _
  rw [run_plainTri _ hvis huser]
  congr 1
  · refine run_earlier (below_exprValue fun key hk => htri key ?_ (keys_ne_userValue key hk)) hsame
    simp [hk]
  · refine run_earlier (below_exprValue fun key hk => htri key ?_ (keys_ne_userValue key hk)) hsame
    simp [hk]
  · have htype : (k.type s).run (valuesOf k n (Kconfig.withValue u s (some (.tri v)))) = typeOf k n u s := by
      refine run_earlier (below_type ?_ fun key hk => htri key ?_ (typeKeys_ne_userValue key hk)) hsame
      · rw [Kconfig.modeKeys, hc]
        exact fun key hk => absurd hk List.not_mem_nil
      · simp [hk]
    rw [htype]

/-- `assignable` tells the values that would be respected, unless the symbol is visible with m,
selected with m and implied with y. -/
theorem assignable_iff (hr : Acyclic k rank n) (hu : u.Ok k)
    (hbool : (k.sym s).origType.isBoolTristate = true) (hc : (k.sym s).choice = none) :
    (∀ v, v ∈ assignableOf k n u s ↔ Respected k n u s v) ↔
      ¬ (visibilityOf k n u s = 1 ∧ valueOf k n u (k.sym s).revDep = 1 ∧
        valueOf k n u (k.sym s).weakRevDep = 2) := by
  have htype : visibilityOf k n u s = 1 → decide (typeOf k n u s = .bool) = false := by
    intro h
    rw [type_of_visible_m hr hu h]
    decide
  rw [← assignableTris_iff htype, assignable_eq hr hu, run_assignableTask _ hbool hc]
  refine forall_congr' fun v => iff_congr Iff.rfl ?_
  unfold Respected
  refine and_congr_right fun hvis => ?_
  rw [setValue_tri hbool hc]
  have hset := tri_withValue (v := v) hr hu hbool hc hvis
  split
  · rename_i hold
    have hsame : Kconfig.withValue u s (some (.tri v)) = u := by
      unfold Kconfig.withValue
      rw [← hold, Function.update_eq_self]
    rw [hsame] at hset
    rw [hset]
    simp
  · split
    · rw [hset]
      simp
    · rename_i hvalid
      -- only m for a bool is not valid, and a bool is never m
      refine ⟨fun h => absurd h.1 Bool.false_ne_true, fun h => ?_⟩
      exfalso
      have hb : (k.sym s).origType = .bool ∧ v = 1 := by
        unfold SymType.isBoolTristate at hbool
        unfold isValid at hvalid
        simp only [Bool.or_eq_true, decide_eq_true_eq, Bool.and_eq_true, not_or, not_and] at hbool hvalid
        rcases hbool with hbool | hbool
        · exact ⟨hbool, not_not.mp (hvalid.2 hbool)⟩
        · exact absurd hbool hvalid.1
      have hty : typeOf k n u s = .bool := by
        unfold typeOf Kconfig.type
        rw [if_neg (by rw [hb.1]; decide), hb.1]
        rfl
      rw [hty, hb.2] at h
      revert h
      generalize visibilityOf k n u s = vis at hvis ⊢
      generalize valueOf k n u (k.sym s).revDep = rev
      generalize valueOf k n u (k.sym s).weakRevDep = weak
      revert vis rev weak
      decide

omit [DecidableEq ι] [DecidableEq γ] in
theorem ok_initial : (User.initial : User ι γ).Ok k := fun _ _ h => absurd h.symm (Option.some_ne_none _)

theorem assignable_iff_driver : (∀ v, v ∈ assignableOf driverConfig 14 .initial .driver ↔
      Respected driverConfig 14 .initial .driver v) ↔
    ¬ (visibilityOf driverConfig 14 .initial .driver = 1 ∧ valueOf driverConfig 14 .initial .n = 1 ∧
      valueOf driverConfig 14 .initial .n = 2) :=
  assignable_iff acyclic_driverConfig ok_initial rfl rfl

/-! ## Choices -/

omit [DecidableEq γ] in
theorem selection_eq (hr : Acyclic k rank n) (hu : u.Ok k) :
    selectionOf k n u c = (k.selectionTask c (u.selection c)).run (valuesOf k n u) :=
  (solves_valuesOf hr hu (.selection c)).symm

omit [DecidableEq γ] in
theorem firstVisible_spec (ss : List ι) (h : ∃ s ∈ ss, visibilityOf k n u s ≠ 0) :
    ∃ s ∈ ss, (Kconfig.firstVisible ss : Get ι γ (Option ι)).run (valuesOf k n u) = some s ∧
      visibilityOf k n u s ≠ 0 := by
  induction ss with
  | nil =>
    obtain ⟨s, hs, -⟩ := h
    exact absurd hs List.not_mem_nil
  | cons t ss ih =>
    have hrun : (Kconfig.firstVisible (t :: ss) : Get ι γ (Option ι)).run (valuesOf k n u) =
        (if visibilityOf k n u t = 0 then Kconfig.firstVisible ss else pure (some t) :
          Get ι γ (Option ι)).run (valuesOf k n u) := rfl
    rw [hrun]
    by_cases ht : visibilityOf k n u t = 0
    · rw [if_pos ht]
      obtain ⟨s, hs, hv⟩ := h
      rcases List.mem_cons.mp hs with rfl | hs
      · exact absurd ht hv
      · obtain ⟨s, hs, hsel⟩ := ih ⟨s, hs, hv⟩
        exact ⟨s, List.mem_cons_of_mem _ hs, hsel⟩
    · rw [if_neg ht]
      exact ⟨t, List.mem_cons_self, rfl, ht⟩

omit [DecidableEq γ] in
/-- The default selections are as good as the symbols of the choice. -/
theorem selectionFromDefaults_spec {ss : List ι} (ds : List (ι × Expr ι γ))
    (hds : ∀ d ∈ ds, d.1 ∈ ss) (h : ∃ s ∈ ss, visibilityOf k n u s ≠ 0) :
    ∃ s ∈ ss, (k.selectionFromDefaults ss ds).run (valuesOf k n u) = some s ∧
      visibilityOf k n u s ≠ 0 := by
  induction ds with
  | nil => exact firstVisible_spec ss h
  | cons d ds ih =>
    have hrest := ih fun d hd => hds d (List.mem_cons_of_mem _ hd)
    obtain ⟨t, cond⟩ := d
    rw [Kconfig.selectionFromDefaults, Task.run_bind]
    split
    · exact hrest
    · rw [Task.run_bind]
      show ∃ s ∈ ss, (if visibilityOf k n u t = 0 then _ else _ : Get ι γ (Option ι)).run _ = _ ∧ _
      split
      · exact hrest
      · rename_i ht
        exact ⟨t, hds _ List.mem_cons_self, rfl, ht⟩

omit [DecidableEq γ] in
/-- In y mode, the selection is a visible symbol of the choice, if there is one. -/
theorem selection_spec (hk : WellFormed k) (hr : Acyclic k rank n) (hu : u.Ok k)
    (hy : modeOf k n u c = 2) (h : ∃ s ∈ (k.choice c).syms, visibilityOf k n u s ≠ 0) :
    ∃ s ∈ (k.choice c).syms, selectionOf k n u c = some s ∧ visibilityOf k n u s ≠ 0 := by
  have hdef := selectionFromDefaults_spec (k.choice c).defaults (hk.defaults_mem c) h
  rw [selection_eq hr hu, Kconfig.selectionTask, Task.run_bind]
  rw [show (choiceTriValue c).run (valuesOf k n u) = 2 from hy, if_pos rfl]
  unfold Kconfig.selectionInY
  split
  · exact hdef
  · rename_i s hs
    rw [Task.run_bind]
    show ∃ s' ∈ _, (if visibilityOf k n u s = 0 then _ else _ : Get ι γ (Option ι)).run _ = _ ∧ _
    split
    · exact hdef
    · rename_i hv
      exact ⟨s, hu c s hs, rfl, hv⟩

omit [DecidableEq γ] in
/-- In y mode there are no symbols that are visible with m. -/
theorem visible_in_y (hr : Acyclic k rank n) (hu : u.Ok k) (hc : (k.sym s).choice = some c)
    (hy : modeOf k n u c = 2) (h : visibilityOf k n u s ≠ 0) : visibilityOf k n u s = 2 := by
  have hne : visibilityOf k n u s ≠ 1 := by
    intro h1
    have htype := type_of_visible_m hr hu h1
    unfold typeOf Kconfig.type at htype
    split at htype
    · rw [Task.run_bind] at htype
      have hin : (k.inYMode s).run (valuesOf k n u) = true := by
        unfold Kconfig.inYMode
        rw [hc]
        show decide (modeOf k n u c = 2) = true
        exact decide_eq_true hy
      rw [hin] at htype
      have htype : SymType.bool = SymType.tristate := htype
      exact absurd htype (by decide)
    · rename_i hs
      exact hs htype
  revert h hne
  generalize visibilityOf k n u s = vis
  revert vis
  decide

omit [DecidableEq γ] in
theorem choiceSym_eq (hr : Acyclic k rank n) (hu : u.Ok k)
    (hbool : (k.sym s).origType.isBoolTristate = true) (hc : (k.sym s).choice = some c) :
    triOf k n u s =
      ((Kconfig.choiceSymTri s c (visibilityOf k n u s)).run (valuesOf k n u)).1 := by
  rw [tri_eq hr hu, Kconfig.triTask, if_pos hbool, Task.run_bind, hc]
  rfl

omit [DecidableEq γ] in
/-- A symbol of a choice is y iff it is visible with y and selected. -/
theorem choiceSym_y (hr : Acyclic k rank n) (hu : u.Ok k)
    (hbool : (k.sym s).origType.isBoolTristate = true) (hc : (k.sym s).choice = some c) :
    triOf k n u s = 2 ↔ visibilityOf k n u s = 2 ∧ selectionOf k n u c = some s := by
  rw [choiceSym_eq hr hu hbool hc]
  unfold Kconfig.choiceSymTri
  by_cases hv : visibilityOf k n u s = 2
  · rw [if_pos hv, Task.run_bind]
    show (if selectionOf k n u c = some s then (2 : Tri) else 0) = 2 ↔ _
    split
    · rename_i hs
      exact ⟨fun _ => ⟨hv, hs⟩, fun _ => rfl⟩
    · rename_i hs
      exact ⟨fun h => absurd h (by decide), fun h => absurd h.2 hs⟩
  · rw [if_neg hv, Task.run_bind]
    refine ⟨fun h => ?_, fun h => absurd h.1 hv⟩
    exfalso
    split at h
    · rename_i v _
      have h : (if v = 0 then (0 : Tri) else 1) = 2 := h
      split at h <;> exact absurd h (by decide)
    · have h : (0 : Tri) = 2 := h
      exact absurd h (by decide)

omit [DecidableEq γ] in
/-- In y mode, a symbol that is not selected is n. -/
theorem choiceSym_n (hr : Acyclic k rank n) (hu : u.Ok k)
    (hbool : (k.sym s).origType.isBoolTristate = true) (hc : (k.sym s).choice = some c)
    (hy : modeOf k n u c = 2) (hs : selectionOf k n u c ≠ some s) : triOf k n u s = 0 := by
  rw [choiceSym_eq hr hu hbool hc]
  unfold Kconfig.choiceSymTri
  by_cases hv : visibilityOf k n u s = 0
  · rw [hv, if_neg (by decide), Task.run_bind]
    rfl
  · rw [visible_in_y hr hu hc hy hv, if_pos rfl, Task.run_bind]
    show (if selectionOf k n u c = some s then (2 : Tri) else 0) = 0
    rw [if_neg hs]

/-- The symbols of a choice are bool or tristate, and in no other choice. -/
def Proper (k : Kconfig ι γ) (c : γ) : Prop :=
  ∀ s ∈ (k.choice c).syms, (k.sym s).choice = some c ∧ (k.sym s).origType.isBoolTristate = true

omit [DecidableEq γ] in
/-- In y mode, exactly one symbol of a choice is y and the others are n, if one is visible; in
another mode no symbol is y. -/
theorem one_selected (hk : WellFormed k) (hr : Acyclic k rank n) (hu : u.Ok k) (hp : Proper k c) :
    (modeOf k n u c = 2 → (∃ s ∈ (k.choice c).syms, visibilityOf k n u s ≠ 0) →
      ∃ s ∈ (k.choice c).syms, triOf k n u s = 2 ∧ ∀ t ∈ (k.choice c).syms, t ≠ s → triOf k n u t = 0) ∧
    (modeOf k n u c ≠ 2 → ∀ t ∈ (k.choice c).syms, triOf k n u t ≠ 2) := by
  refine ⟨fun hy hvis => ?_, fun hy t ht h => ?_⟩
  · obtain ⟨s, hs, hsel, hv⟩ := selection_spec hk hr hu hy hvis
    obtain ⟨hc, hbool⟩ := hp s hs
    refine ⟨s, hs, (choiceSym_y hr hu hbool hc).mpr ⟨visible_in_y hr hu hc hy hv, hsel⟩, fun t ht hne => ?_⟩
    obtain ⟨hc', hbool'⟩ := hp t ht
    refine choiceSym_n hr hu hbool' hc' hy ?_
    rw [hsel]
    exact fun he => hne (Option.some.inj he).symm
  · obtain ⟨hc, hbool⟩ := hp t ht
    have hsel := ((choiceSym_y hr hu hbool hc).mp h).2
    rw [selection_eq hr hu, Kconfig.selectionTask, Task.run_bind] at hsel
    rw [show (choiceTriValue c).run (valuesOf k n u) = modeOf k n u c from rfl, if_neg hy] at hsel
    exact absurd hsel.symm (Option.some_ne_none t)

/-- The driver is enabled. -/
def driverEnabled : User DriverSym Unit := Kconfig.withValue .initial .driver (some (.tri 2))

theorem ok_driverEnabled : driverEnabled.Ok driverConfig := ok_initial (k := driverConfig)

theorem proper_driverConfig : Proper driverConfig () := by
  unfold Proper
  decide

theorem one_selected_driver :
    (modeOf driverConfig 14 driverEnabled () = 2 →
      (∃ s ∈ (driverConfig.choice ()).syms, visibilityOf driverConfig 14 driverEnabled s ≠ 0) →
      ∃ s ∈ (driverConfig.choice ()).syms, triOf driverConfig 14 driverEnabled s = 2 ∧
        ∀ t ∈ (driverConfig.choice ()).syms, t ≠ s → triOf driverConfig 14 driverEnabled t = 0) ∧
    (modeOf driverConfig 14 driverEnabled () ≠ 2 →
      ∀ t ∈ (driverConfig.choice ()).syms, triOf driverConfig 14 driverEnabled t ≠ 2) :=
  one_selected wellFormed_driverConfig acyclic_driverConfig ok_driverEnabled proper_driverConfig

/-- To set a visible symbol of a choice in y mode to y makes it y and all others n. -/
theorem set_y_selects (hr : Acyclic k rank n) (hu : u.Ok k) (hp : Proper k c)
    (hs : s ∈ (k.choice c).syms) (hy : modeOf k n u c = 2) (hv : visibilityOf k n u s ≠ 0) :
    (k.setValue u s (.tri 2)).ok = true ∧ triOf k n (k.setValue u s (.tri 2)).user s = 2 ∧
      ∀ t ∈ (k.choice c).syms, t ≠ s → triOf k n (k.setValue u s (.tri 2)).user t = 0 := by
  obtain ⟨hc, hbool⟩ := hp s hs
  have hset : k.setValue u s (.tri 2) =
      ⟨true, Kconfig.withSelection (Kconfig.withValue u s (some (.tri 2))) c (some s), some (.choice c)⟩ := by
    have hvalid : isValid (k.sym s).origType (.tri 2) = true := by
      unfold isValid
      unfold SymType.isBoolTristate at hbool
      simp only [Bool.or_eq_true, decide_eq_true_eq] at hbool
      rcases hbool with h | h <;> rw [h] <;> rfl
    unfold Kconfig.setValue Kconfig.setGiven Kconfig.given Kconfig.assign
    simp only [hbool, hc, if_true, reduceCtorEq, and_false, if_false]
    rw [show asTri (.tri 2) = .tri 2 from rfl, if_pos hvalid, if_pos rfl]
  rw [hset]
  refine ⟨rfl, ?_⟩
  show triOf k n (Kconfig.withSelection (Kconfig.withValue u s (some (.tri 2))) c (some s)) s = 2 ∧
    ∀ t ∈ (k.choice c).syms, t ≠ s →
      triOf k n (Kconfig.withSelection (Kconfig.withValue u s (some (.tri 2))) c (some s)) t = 0
  generalize hu₂ : Kconfig.withSelection (Kconfig.withValue u s (some (.tri 2))) c (some s) = u₂
  have hok : u₂.Ok k := by
    rw [← hu₂]
    refine ok_withSelection (u := Kconfig.withValue u s (some (.tri 2))) hu fun t ht => ?_
    rw [← Option.some.inj ht]
    exact hs
  -- what the selection is computed from does not change
  have hlt : rank (.selection c) < rank (.triValue s) := by
    apply hr.descends
    rw [Kconfig.reads, if_pos hbool, Kconfig.triKeys, hc]
    simp
  have hsame : ∀ key, Earlier rank (rank (.selection c)) s key →
      valuesOf k n u₂ key = valuesOf k n u key := by
    refine fun key hkey => values_earlier hr hu hbool (Nat.le_of_lt hlt) (fun key h => ?_) hkey
    have hne : key ≠ .selection c := by
      rintro rfl
      exact absurd h.1 (Nat.lt_irrefl _)
    rw [← hu₂, tasks_withSelection hne, tasks_withValue h.2]
  have hmode : modeOf k n u₂ c = 2 := by
    rw [← hy]
    exact hsame (.choiceTriValue c) ⟨hr.descends _ _ List.mem_cons_self, by simp⟩
  have hvis : visibilityOf k n u₂ s = visibilityOf k n u s := by
    refine hsame (.visibility s) ⟨hr.descends _ _ ?_, by simp⟩
    exact List.mem_cons_of_mem _ (List.mem_append_left _ (List.mem_map.mpr ⟨s, hs, rfl⟩))
  have hsel : selectionOf k n u₂ c = some s := by
    rw [selection_eq hr hok, Kconfig.selectionTask, Task.run_bind]
    rw [show (choiceTriValue c).run (valuesOf k n u₂) = 2 from hmode, if_pos rfl]
    rw [show u₂.selection c = some s by rw [← hu₂]; exact Function.update_self .., Kconfig.selectionInY,
      Task.run_bind, show (visibility s).run (valuesOf k n u₂) = visibilityOf k n u s from hvis, if_neg hv]
    rfl
  refine ⟨(choiceSym_y hr hok hbool hc).mpr ⟨visible_in_y hr hok hc hmode (hvis ▸ hv), hsel⟩,
    fun t ht hne => ?_⟩
  obtain ⟨hc', hbool'⟩ := hp t ht
  refine choiceSym_n hr hok hbool' hc' hmode ?_
  rw [hsel]
  exact fun he => hne (Option.some.inj he).symm

theorem set_y_selects_driver :
    (driverConfig.setValue driverEnabled .small (.tri 2)).ok = true ∧
      triOf driverConfig 14 (driverConfig.setValue driverEnabled .small (.tri 2)).user .small = 2 ∧
      ∀ t ∈ (driverConfig.choice ()).syms, t ≠ .small →
        triOf driverConfig 14 (driverConfig.setValue driverEnabled .small (.tri 2)).user t = 0 :=
  set_y_selects acyclic_driverConfig ok_driverEnabled proper_driverConfig (by decide) (by decide) (by decide)

/-! ## Ranges -/

/-- The active range of a symbol. -/
def rangeOf (k : Kconfig ι γ) (n : ℕ) (u : User ι γ) (s : ι) : Option (ℤ × ℤ) :=
  (k.activeRange (k.sym s).origType.base (k.sym s).ranges).run (valuesOf k n u)

theorem clamped_some (type : SymType) (low high : ℤ) (val : Line) :
    Kconfig.clamped type (some (low, high)) val =
      if Kconfig.toNum type.base val < low then (if type = .int then Python.str low else Python.hex low)
      else if Kconfig.toNum type.base val > high then (if type = .int then Python.str high else Python.hex high)
      else val := rfl

theorem int_written {type : SymType} (ht : type.isIntHex = true) (z : ℤ) :
    Python.int type.base (if type = .int then Python.str z else Python.hex z) = some z := by
  unfold SymType.isIntHex at ht
  simp only [Bool.or_eq_true, decide_eq_true_eq] at ht
  rcases ht with rfl | rfl
  · rw [if_pos rfl]
    exact Python.int_str z
  · rw [if_neg (by decide)]
    exact Python.int_hex z

/-- What is clamped is a number within the range, or a text that counts as 0. -/
theorem clamped_within {type : SymType} (ht : type.isIntHex = true) {low high : ℤ} (hle : low ≤ high)
    (val : Line) :
    (∀ z, Python.int type.base (Kconfig.clamped type (some (low, high)) val) = some z → low ≤ z ∧ z ≤ high) ∧
      (Python.int type.base (Kconfig.clamped type (some (low, high)) val) = none →
        low ≤ 0 ∧ 0 ≤ high ∧ Kconfig.clamped type (some (low, high)) val = val) := by
  rw [clamped_some]
  split
  · rw [int_written ht]
    refine ⟨fun z hz => ?_, fun h => absurd h (Option.some_ne_none low)⟩
    rw [← Option.some.inj hz]
    exact ⟨Int.le_refl _, hle⟩
  · split
    · rw [int_written ht]
      refine ⟨fun z hz => ?_, fun h => absurd h (Option.some_ne_none high)⟩
      rw [← Option.some.inj hz]
      exact ⟨hle, Int.le_refl _⟩
    · rename_i hlow hhigh
      refine ⟨fun z hz => ?_, fun h => ?_⟩
      · rw [Kconfig.toNum, hz, Option.getD_some] at hlow hhigh
        omega
      · rw [Kconfig.toNum, h, Option.getD_none] at hlow hhigh
        exact ⟨by omega, by omega, rfl⟩

omit [DecidableEq γ] in
/-- A number that an int or hex symbol with an active range has is within it. Where it has none, 0
is within the range, and its text is the default that applies, if one does. -/
theorem within_range (hr : Acyclic k rank n) (hu : u.Ok k) (ht : (k.sym s).origType.isIntHex = true)
    {low high : ℤ} (hrange : rangeOf k n u s = some (low, high)) (hle : low ≤ high) :
    (∀ z, Python.int (k.sym s).origType.base (strOf k n u s) = some z → low ≤ z ∧ z ≤ high) ∧
      (Python.int (k.sym s).origType.base (strOf k n u s) = none → low ≤ 0 ∧ 0 ≤ high ∧
        strOf k n u s = ((k.strDefault (k.sym s).defaults).run (valuesOf k n u)).getD []) := by
  have hclamped := clamped_within ht hle
  have hstr : strOf k n u s = ((k.strTask s).run (valuesOf k n u)).1 :=
    congrArg (Prod.fst (α := Line) (β := Bool)) (solves_valuesOf hr hu (.strValue s)).symm
  have hbool : ¬ (k.sym s).origType.isBoolTristate = true ∧ (k.sym s).origType ≠ .unknown := by
    revert ht
    generalize (k.sym s).origType = type
    cases type <;> decide
  have hown : ∃ vis, strOf k n u s = ((k.numValue s vis).run (valuesOf k n u)).1 := by
    refine ⟨(visibility s).run (valuesOf k n u), ?_⟩
    rw [hstr, Kconfig.strTask, if_neg hbool.1, if_neg hbool.2, Task.run_bind, Task.run_bind]
    unfold Kconfig.ownStr
    rw [if_pos ht]
    rfl
  obtain ⟨vis, hown⟩ := hown
  rw [Kconfig.numValue, Task.run_bind, Task.run_bind,
    show (k.activeRange (k.sym s).origType.base (k.sym s).ranges).run (valuesOf k n u) =
      some (low, high) from hrange] at hown
  cases huser : (k.userNum s vis (some (low, high))).run (valuesOf k n u) with
  | some val =>
    -- the user's value is a number within the range
    rw [huser] at hown
    have hval : strOf k n u s = val := hown
    unfold Kconfig.userNum at huser
    split at huser
    · exact absurd huser.symm (Option.some_ne_none _)
    · have hallowed := (Option.filter_eq_some_iff.mp huser).2
      rw [hval]
      unfold Kconfig.allowed at hallowed
      split at hallowed
      · rename_i z hz
        rw [hz]
        refine ⟨fun z' hz' => ?_, fun h => absurd h (Option.some_ne_none z)⟩
        rw [← Option.some.inj hz']
        exact of_decide_eq_true hallowed
      · exact absurd hallowed Bool.false_ne_true
  | none =>
    rw [huser] at hown
    have hdefault : strOf k n u s = Kconfig.clamped (k.sym s).origType (some (low, high))
        (((k.strDefault (k.sym s).defaults).run (valuesOf k n u)).getD []) := by
      refine hown.trans ?_
      show ((Task.run _ (k.strDefault _ >>= _)) : Line × Bool).1 = _
      rw [Task.run_bind]
      cases (k.strDefault (k.sym s).defaults).run (valuesOf k n u) with
      | some val => rfl
      | none => rfl
    rw [hdefault]
    exact hclamped _

inductive BufferSym where
  | modules
  | logBufShift
  deriving DecidableEq

/-- A buffer size from 12 to 25, which is 17 by default. -/
def bufferConfig : Kconfig BufferSym Empty where
  sym
    | .modules => ⟨"MODULES".toList, .bool, [.y], [], [], .n, .n, .y, none, false⟩
    | .logBufShift => ⟨"LOG_BUF_SHIFT".toList, .int, [.y], [(.operand (.const ['1', '7']), .y)],
        [(.const ['1', '2'], .const ['2', '5'], .y)], .n, .n, .y, none, false⟩
  choice c := c.elim
  modules := .modules
  uniqueDefinedSyms := [.modules, .logBufShift]
  uniqueChoices := []

def bufferRank : Key BufferSym Empty → ℕ
  | .visibility _ => 1
  | .triValue _ => 2
  | .strValue _ => 3
  | .assignable _ => 4
  | _ => 0

theorem acyclic_bufferConfig : Acyclic bufferConfig bufferRank 5 where
  descends key := by
    cases key with
    | visibility s => cases s <;> decide
    | triValue s => cases s <;> decide
    | strValue s => cases s <;> decide
    | assignable s => cases s <;> decide
    | userValue s => cases s <;> decide
    | choiceVisibility c => exact c.elim
    | choiceTriValue c => exact c.elim
    | choiceAssignable c => exact c.elim
    | selection c => exact c.elim
  bounded key := by cases key <;> exact of_decide_eq_true rfl

/-- The user asks for too large a buffer. -/
def bufferUser : User BufferSym Empty :=
  Kconfig.withValue .initial .logBufShift (some (.str ['3', '0']))

theorem range_buffer : rangeOf bufferConfig 5 bufferUser .logBufShift = some (12, 25) := by decide

theorem within_range_buffer :
    (∀ z, Python.int (bufferConfig.sym .logBufShift).origType.base
        (strOf bufferConfig 5 bufferUser .logBufShift) = some z → 12 ≤ z ∧ z ≤ 25) ∧
      (Python.int (bufferConfig.sym .logBufShift).origType.base
          (strOf bufferConfig 5 bufferUser .logBufShift) = none → (12 : ℤ) ≤ 0 ∧ (0 : ℤ) ≤ 25 ∧
        strOf bufferConfig 5 bufferUser .logBufShift =
          ((bufferConfig.strDefault (bufferConfig.sym .logBufShift).defaults).run
            (valuesOf bufferConfig 5 bufferUser)).getD []) :=
  within_range acyclic_bufferConfig (fun c => c.elim) rfl range_buffer (by decide)

end HassOS.Kconfiglib
