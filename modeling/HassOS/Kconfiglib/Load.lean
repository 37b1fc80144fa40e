import HassOS.Framework.Run
import HassOS.Kconfiglib.Agree

/-!
# Loading a configuration (`kconfiglib.py`)

The lines of a `.config` become assignments (`lineOps`). If the configuration is replaced,
what was set before is not unset first: the symbols and choices that get set are marked
(`_was_set`), and the others are unset in the end (`loadConfig`).

That comes to a load into a new `Kconfig`, but for choices that are set in part: where the
lines set the mode of a choice and select none of its symbols, an earlier selection stays,
and so does an earlier mode where they only select (`load_replaces_iff`).

The marks stay when values are unset. Loading into a configuration without replacing it
then ends in a `KeyError`, at the first bool or tristate symbol that has lost its value
(`lostValue`).
-/

namespace HassOS.Kconfiglib

open Framework

variable {ι γ : Type}

/-! ## Lines -/

/-- `CONFIG_([^=]+)=(.*)` -/
def setMatch (line : Line) : Option (Line × Line) :=
  match (Pat.ofRegex "CONFIG_".toList).rest line with
  | none => none
  | some r =>
    match r.dropWhile (· ≠ '=') with
    | _ :: val => if r.takeWhile (· ≠ '=') = [] then none else some (r.takeWhile (· ≠ '='), val)
    | [] => none

/-- `# CONFIG_([^ ]+) is not set` -/
def unsetMatch (line : Line) : Option Line :=
  match (Pat.ofRegex "# CONFIG_".toList).rest line with
  | none => none
  | some r =>
    if r.takeWhile (· ≠ ' ') = [] then none
    else ((Pat.ofRegex " is not set".toList).rest (r.dropWhile (· ≠ ' '))).map fun _ => r.takeWhile (· ≠ ' ')

/-- `((?:[^\\"]|\\.)*)"`, after the first quote: what is before the last. -/
def stringBody : Line → Option Line
  | [] => none
  | '"' :: _ => some []
  | '\\' :: c :: s => (stringBody s).map fun r => '\\' :: c :: r
  | '\\' :: [] => none
  | c :: s => (stringBody s).map (c :: ·)

/-- `_conf_string_match` -/
def confStringMatch (val : Line) : Option Line :=
  match val with
  | '"' :: s => stringBody s
  | _ => none

/-- `unescape` -/
def unescape : Line → Line
  | '\\' :: c :: s => c :: unescape s
  | c :: s => c :: unescape s
  | [] => []

variable (k : Kconfig ι γ) (syms : Line → Option ι)

/-- The first character of a value counts, if it is one for the type. -/
def triChar (t : SymType) (val : Line) : Option Line :=
  match val with
  | c :: _ => if c = 'y' ∨ c = 'n' ∨ (c = 'm' ∧ t = .tristate) then some [c] else none
  | [] => none

/-- The assignments of a value to a symbol. The values of its symbols tell the mode of a
choice. -/
def assignOps (s : ι) (val : Line) : List (Op ι γ) :=
  if (k.sym s).origType.isBoolTristate then
    match triChar (k.sym s).origType val with
    | none => []
    | some v =>
      match (k.sym s).choice with
      | some c =>
        if v ≠ ['n'] then [.setMode c (.str v), .setValue s (.str v)] else [.setValue s (.str v)]
      | none => [.setValue s (.str v)]
  else if (k.sym s).origType = .string then
    match confStringMatch val with
    | none => []
    | some r => [.setValue s (.str (unescape r))]
  else [.setValue s (.str val)]

variable [DecidableEq ι] [DecidableEq γ]

/-- The symbol of a name, if it is defined. -/
def lookup (name : Line) : Option ι := (syms name).filter fun s => decide (s ∈ k.uniqueDefinedSyms)

/-- The assignments of a line. -/
def lineOps (l : Line) : List (Op ι γ) :=
  match setMatch (Python.rstrip l) with
  | some (name, val) =>
    match lookup k syms name with
    | some s => assignOps k s val
    | none => []
  | none =>
    match unsetMatch (Python.rstrip l) with
    | some name =>
      match lookup k syms name with
      | some s => if (k.sym s).origType.isBoolTristate then [.setValue s (.str ['n'])] else []
      | none => []
    | none => []

/-! ## Replacing -/

/-- The `_was_set` attributes. -/
structure Flags (ι γ : Type) where
  sym : ι → Bool
  choice : γ → Bool

def Flags.none : Flags ι γ := ⟨fun _ => false, fun _ => false⟩

/-- What the user has set, and what is marked as set. -/
abbrev Marked (ι γ : Type) := User ι γ × Flags ι γ

/-- A `Kconfig` in which nothing was set. -/
def Marked.new : Marked ι γ := (.initial, .none)

/-- What an operation marks as set. -/
def mark (u : User ι γ) (f : Flags ι γ) : Op ι γ → Flags ι γ
  | .setValue s v =>
    if (k.setValue u s v).ok then
      { sym := Function.update f.sym s true
        choice := match (k.sym s).choice with
          | some c =>
            if (k.setValue u s v).user.value s = some (.tri 2) then Function.update f.choice c true
            else f.choice
          | none => f.choice }
    else f
  | .setMode c v =>
    if (k.setMode u c v).ok then { f with choice := Function.update f.choice c true } else f
  | _ => f

/-- The user's values and the marks after an operation. -/
def markedStep (st : Marked ι γ) (op : Op ι γ) : Marked ι γ :=
  ((effect k st.1 op).user, mark k st.1 st.2 op)

/-- No defined symbol and no choice is marked. -/
def unmarked (f : Flags ι γ) : Flags ι γ where
  sym s := f.sym s && decide (s ∉ k.uniqueDefinedSyms)
  choice c := f.choice c && decide (c ∉ k.uniqueChoices)

/-- What is not marked is unset. -/
def unsetOps (f : Flags ι γ) : List (Op ι γ) :=
  (k.uniqueDefinedSyms.filter fun s => !f.sym s).map .unsetValue ++
    (k.uniqueChoices.filter fun c => !f.choice c).map .unsetMode

/-- `_assigned_twice`, which is called for a symbol that is marked, looks up the value of a bool
or tristate symbol in `TRI_TO_STR` for a warning. Here it is not found. -/
def lostValue (st : Marked ι γ) (s : ι) : Bool :=
  st.2.sym s && (k.sym s).origType.isBoolTristate &&
    match st.1.value s with
    | some (.tri _) => false
    | _ => true

/-- An assignment of a line raises a `KeyError`. -/
def keyError (st : Marked ι γ) : Op ι γ → Bool
  | .setValue s _ => lostValue k st s
  | _ => false

/-- `_load_config`. The error is the `KeyError`, with what was set until then. -/
def loadConfig (st : Marked ι γ) (text : Text) (replace : Bool) : Except (Marked ι γ) (Marked ι γ) :=
  (attempt (keyError k) (markedStep k) (if replace then (st.1, unmarked k st.2) else st)
    (text.flatMap (lineOps k syms))).map fun st =>
      if replace then run (markedStep k) st (unsetOps k st.2) else st

/-- `unset_values` -/
def unsetValues (st : Marked ι γ) : Marked ι γ := run (markedStep k) st (unsetOps k .none)

/-- What a program does with a `Kconfig`. -/
inductive Call (ι γ : Type) where
  | op (op : Op ι γ)
  | load (text : Text) (replace : Bool)

/-- One call. A program can go on after a `KeyError`. -/
def callStep (st : Marked ι γ) : Call ι γ → Marked ι γ
  | .op op => markedStep k st op
  | .load text replace =>
    match loadConfig k syms st text replace with
    | .ok st => st
    | .error st => st

/-- After some calls. -/
def after (calls : List (Call ι γ)) : Marked ι γ := run (callStep k syms) .new calls

/-- What the user has set after some operations. -/
def userAfter (u : User ι γ) (ops : List (Op ι γ)) : User ι γ :=
  run (fun u op => (effect k u op).user) u ops

/-! ## What an assignment sets -/

/-- The value that is set, if it is valid. -/
def accepted (s : ι) (value : UserValue) : Option UserValue :=
  if isValid (k.sym s).origType (k.given s value) then some (k.given s value) else none

/-- The mode that is set, if it is valid. -/
def acceptedMode (c : γ) (value : UserValue) : Option Tri :=
  match asTri value with
  | .tri v => if isValid (k.choice c).origType (.tri v) then some v else none
  | .str _ => none

/-- The values that are set are valid. -/
structure User.Valid (k : Kconfig ι γ) (u : User ι γ) : Prop where
  value : ∀ s v, u.value s = some v → isValid (k.sym s).origType v = true
  mode : ∀ c v, u.mode c = some v → isValid (k.choice c).origType (.tri v) = true

section

variable {k : Kconfig ι γ} {u : User ι γ} {s : ι} {c : γ} {v : UserValue}

omit [DecidableEq ι] [DecidableEq γ] in
theorem accepted_valid {w : UserValue} (h : accepted k s v = some w) :
    isValid (k.sym s).origType w = true := by
  unfold accepted at h
  split at h
  · rename_i hv
    rw [← Option.some.inj h]
    exact hv
  · exact absurd h.symm (Option.some_ne_none w)

omit [DecidableEq ι] [DecidableEq γ] in
theorem acceptedMode_valid {t : Tri} (h : acceptedMode k c v = some t) :
    isValid (k.choice c).origType (.tri t) = true := by
  unfold acceptedMode at h
  split at h
  · split at h
    · rename_i hv
      rw [← Option.some.inj h]
      exact hv
    · exact absurd h.symm (Option.some_ne_none t)
  · exact absurd h.symm (Option.some_ne_none t)

/-- A value is set, and a symbol that is set to y becomes the selection of its choice. -/
def withAccepted (k : Kconfig ι γ) (u : User ι γ) (s : ι) (w : UserValue) : User ι γ :=
  match (k.sym s).choice with
  | some c =>
    if w = .tri 2 then Kconfig.withSelection (Kconfig.withValue u s (some w)) c (some s)
    else Kconfig.withValue u s (some w)
  | none => Kconfig.withValue u s (some w)

theorem assign_user (w : UserValue) :
    (k.assign u s w).ok = true ∧ (k.assign u s w).user = withAccepted k u s w := by
  unfold Kconfig.assign withAccepted
  cases (k.sym s).choice with
  | none => exact ⟨rfl, rfl⟩
  | some c =>
    by_cases hw : w = .tri 2
    · simp only [if_pos hw, and_self]
    · simp only [if_neg hw, and_self]

/-- What is set after `Symbol.set_value`. -/
theorem setValue_accepted (hu : u.Valid k) : (k.setValue u s v).ok = (accepted k s v).isSome ∧
    (k.setValue u s v).user = (accepted k s v).elim u (withAccepted k u s) := by
  unfold Kconfig.setValue Kconfig.setGiven accepted
  generalize k.given s v = w
  by_cases hold : u.value s = some w ∧ (k.sym s).choice = none
  · rw [if_pos hold, if_pos (hu.value s w hold.1)]
    refine ⟨rfl, ?_⟩
    show u = withAccepted k u s w
    rw [withAccepted, hold.2]
    show u = Kconfig.withValue u s (some w)
    unfold Kconfig.withValue
    rw [← hold.1, Function.update_eq_self]
  · rw [if_neg hold]
    by_cases hv : isValid (k.sym s).origType w = true
    · rw [if_pos hv, if_pos hv]
      exact assign_user w
    · rw [if_neg hv, if_neg hv]
      exact ⟨rfl, rfl⟩

omit [DecidableEq ι] in
/-- What is set after `Choice.set_value`. -/
theorem setMode_accepted (hu : u.Valid k) : (k.setMode u c v).ok = (acceptedMode k c v).isSome ∧
    (k.setMode u c v).user = (acceptedMode k c v).elim u fun t => Kconfig.withMode u c (some t) := by
  unfold Kconfig.setMode acceptedMode
  cases asTri v with
  | str w => exact ⟨rfl, rfl⟩
  | tri t =>
    by_cases hold : u.mode c = some t
    · simp only [if_pos hold, if_pos (hu.mode c t hold), Option.isSome_some, Option.elim_some, true_and]
      show u = Kconfig.withMode u c (some t)
      rw [Kconfig.withMode, ← hold, Function.update_eq_self]
    · by_cases hv : isValid (k.choice c).origType (.tri t) = true
      · simp only [if_neg hold, if_pos hv, Option.isSome_some, Option.elim_some, and_self]
      · simp only [if_neg hold, if_neg hv, Option.isSome_none, Option.elim_none, and_self]

theorem value_withAccepted (w : UserValue) (t : ι) :
    (withAccepted k u s w).value t = if t = s then some w else u.value t := by
  have h : (withAccepted k u s w).value = Function.update u.value s (some w) := by
    unfold withAccepted
    split
    · split <;> rfl
    · rfl
  rw [h, Function.update_apply]

theorem mode_withAccepted (w : UserValue) : (withAccepted k u s w).mode = u.mode := by
  unfold withAccepted
  split
  · split <;> rfl
  · rfl

theorem selection_withAccepted (w : UserValue) (c : γ) : (withAccepted k u s w).selection c =
    if (k.sym s).choice = some c ∧ w = .tri 2 then some s else u.selection c := by
  unfold withAccepted
  cases (k.sym s).choice with
  | none =>
    rw [if_neg fun h => absurd h.1.symm (Option.some_ne_none c)]
    rfl
  | some d =>
    by_cases hw : w = .tri 2
    · simp only [hw, if_true, Kconfig.withSelection, Kconfig.withValue, Function.update_apply, and_true,
        Option.some.injEq, eq_comm]
    · simp only [hw, if_false, and_false]
      rfl

/-! ## What is set stays valid -/

omit [DecidableEq ι] [DecidableEq γ] in
theorem valid_initial : (User.initial : User ι γ).Valid k :=
  ⟨fun _ v h => absurd h.symm (Option.some_ne_none v), fun _ v h => absurd h.symm (Option.some_ne_none v)⟩

theorem valid_withAccepted (hu : u.Valid k) {w : UserValue} (hw : isValid (k.sym s).origType w = true) :
    (withAccepted k u s w).Valid k := by
  refine ⟨fun t v hv => ?_, fun d v hv => hu.mode d v ?_⟩
  swap
  · rwa [mode_withAccepted] at hv
  rw [value_withAccepted] at hv
  split at hv
  · rename_i ht
    rw [ht, ← Option.some.inj hv]
    exact hw
  · exact hu.value t v hv

omit [DecidableEq ι] in
theorem valid_withMode (hu : u.Valid k) {t : Option Tri}
    (ht : ∀ v ∈ t, isValid (k.choice c).origType (.tri v) = true) : (Kconfig.withMode u c t).Valid k := by
  refine ⟨hu.value, fun d v hv => ?_⟩
  rw [show (Kconfig.withMode u c t).mode d = if d = c then t else u.mode d from
    Function.update_apply ..] at hv
  split at hv
  · rename_i hd
    rw [hd]
    exact ht v hv
  · exact hu.mode d v hv

omit [DecidableEq γ] in
theorem valid_unsetValue (hu : u.Valid k) : (Kconfig.withValue u s none).Valid k := by
  refine ⟨fun t v hv => ?_, hu.mode⟩
  rw [show (Kconfig.withValue u s none).value t = if t = s then none else u.value t from
    Function.update_apply ..] at hv
  split at hv
  · exact absurd hv.symm (Option.some_ne_none v)
  · exact hu.value t v hv

theorem valid_effect (hu : u.Valid k) (op : Op ι γ) : (effect k u op).user.Valid k := by
  cases op with
  | setValue s v =>
    show (k.setValue u s v).user.Valid k
    rw [(setValue_accepted hu).2]
    cases hw : accepted k s v with
    | some w => exact valid_withAccepted hu (accepted_valid hw)
    | none => exact hu
  | unsetValue s =>
    show (k.unsetValue u s).user.Valid k
    unfold Kconfig.unsetValue
    split
    · exact hu
    · exact valid_unsetValue hu
  | setMode c v =>
    show (k.setMode u c v).user.Valid k
    rw [(setMode_accepted hu).2]
    cases ht : acceptedMode k c v with
    | some t =>
      refine valid_withMode hu fun t h => ?_
      rw [← Option.some.inj h]
      exact acceptedMode_valid ht
    | none => exact hu
  | unsetMode c =>
    show (Kconfig.unsetMode u c).user.Valid k
    unfold Kconfig.unsetMode
    split
    · exact hu
    · have hmode := valid_withMode (c := c) hu (t := none) fun v h => absurd h (Option.not_mem_none v)
      exact ⟨hmode.value, hmode.mode⟩
  | read key => exact hu

theorem valid_userAfter (hu : u.Valid k) (ops : List (Op ι γ)) : (userAfter k u ops).Valid k :=
  run_keeps (I := User.Valid k) (fun _ op h => valid_effect h op) hu ops

/-! ## The marks -/

theorem mark_setValue (hu : u.Valid k) (f : Flags ι γ) {w : UserValue} (hw : accepted k s v = some w) :
    (∀ t, (mark k u f (.setValue s v)).sym t = if t = s then true else f.sym t) ∧
    ∀ c, (mark k u f (.setValue s v)).choice c =
      if (k.sym s).choice = some c ∧ w = .tri 2 then true else f.choice c := by
  have h := setValue_accepted (s := s) (v := v) hu
  rw [hw] at h
  have hval : (k.setValue u s v).user.value s = some w := by
    rw [h.2]
    exact (value_withAccepted w s).trans (if_pos rfl)
  have hok : (k.setValue u s v).ok = true := h.1
  simp only [mark]
  rw [if_pos hok, hval]
  refine ⟨fun t => Function.update_apply .., fun c => ?_⟩
  cases (k.sym s).choice with
  | none => rw [if_neg fun h => absurd h.1.symm (Option.some_ne_none c)]
  | some d =>
    by_cases hw : w = .tri 2
    · simp only [hw, if_true, Function.update_apply, and_true, Option.some.injEq, eq_comm]
    · simp only [hw, Option.some.injEq, if_false, and_false]

theorem mark_setMode (hu : u.Valid k) (f : Flags ι γ) {t : Tri} (ht : acceptedMode k c v = some t) :
    (mark k u f (.setMode c v)).sym = f.sym ∧
    ∀ d, (mark k u f (.setMode c v)).choice d = if d = c then true else f.choice d := by
  have h := setMode_accepted (c := c) (v := v) hu
  rw [ht] at h
  have hok : (k.setMode u c v).ok = true := h.1
  simp only [mark]
  rw [if_pos hok]
  exact ⟨rfl, fun d => Function.update_apply ..⟩

theorem mark_of_not_ok {op : Op ι γ} (f : Flags ι γ) (h : (effect k u op).ok = false) :
    mark k u f op = f := by
  cases op with
  | setValue s v => exact if_neg (ne_true_of_eq_false h)
  | setMode c v => exact if_neg (ne_true_of_eq_false h)
  | unsetValue s => rfl
  | unsetMode c => rfl
  | read key => rfl

/-- What lines of a configuration do. A line that names a bool or tristate symbol has a value for it. -/
def Sets (k : Kconfig ι γ) : Op ι γ → Prop
  | .setValue s v => (k.sym s).origType.isBoolTristate = true → accepted k s v ≠ none
  | .setMode _ _ => True
  | _ => False

/-- `u₁` is what is set over `base` where from nothing it is `u₂`, and what is set there is marked. -/
structure Overlay (k : Kconfig ι γ) (base u₁ : User ι γ) (f : Flags ι γ) (u₂ : User ι γ) : Prop where
  valid : u₁.Valid k ∧ u₂.Valid k
  value : ∀ s, u₁.value s = (u₂.value s).or (base.value s)
  mode : ∀ c, u₁.mode c = (u₂.mode c).or (base.mode c)
  selection : ∀ c, u₁.selection c = (u₂.selection c).or (base.selection c)
  sym : ∀ s, f.sym s = (u₂.value s).isSome
  choice : ∀ c, f.choice c = ((u₂.mode c).isSome || (u₂.selection c).isSome)

variable {base u₁ u₂ : User ι γ} {f : Flags ι γ}

theorem overlay_setValue (h : Overlay k base u₁ f u₂) (s : ι) (v : UserValue) :
    Overlay k base (k.setValue u₁ s v).user (mark k u₁ f (.setValue s v)) (k.setValue u₂ s v).user := by
  have h₁ := setValue_accepted (s := s) (v := v) h.valid.1
  have h₂ := setValue_accepted (s := s) (v := v) h.valid.2
  cases hw : accepted k s v with
  | none =>
    rw [hw] at h₁ h₂
    have hok : (effect k u₁ (.setValue s v)).ok = false := h₁.1
    rw [h₁.2, h₂.2, mark_of_not_ok f hok]
    exact h
  | some w =>
    rw [hw] at h₁ h₂
    obtain ⟨hsym, hchoice⟩ := mark_setValue h.valid.1 f hw
    have hvalid := accepted_valid hw
    rw [h₁.2, h₂.2]
    refine ⟨⟨valid_withAccepted h.valid.1 hvalid, valid_withAccepted h.valid.2 hvalid⟩, fun t => ?_,
      fun d => ?_, fun d => ?_, fun t => ?_, fun d => ?_⟩
    · show (withAccepted k u₁ s w).value t = ((withAccepted k u₂ s w).value t).or _
      rw [value_withAccepted, value_withAccepted, h.value t]
      split <;> rfl
    · show (withAccepted k u₁ s w).mode d = ((withAccepted k u₂ s w).mode d).or _
      rw [mode_withAccepted, mode_withAccepted, h.mode d]
    · show (withAccepted k u₁ s w).selection d = ((withAccepted k u₂ s w).selection d).or _
      rw [selection_withAccepted, selection_withAccepted, h.selection d]
      split <;> rfl
    · show _ = ((withAccepted k u₂ s w).value t).isSome
      rw [hsym, value_withAccepted, h.sym t]
      split <;> rfl
    · show _ = (((withAccepted k u₂ s w).mode d).isSome || ((withAccepted k u₂ s w).selection d).isSome)
      rw [hchoice, mode_withAccepted, selection_withAccepted, h.choice d]
      split
      · rw [Option.isSome_some, Bool.or_true]
      · rfl

theorem overlay_setMode (h : Overlay k base u₁ f u₂) (c : γ) (v : UserValue) :
    Overlay k base (k.setMode u₁ c v).user (mark k u₁ f (.setMode c v)) (k.setMode u₂ c v).user := by
  have h₁ := setMode_accepted (c := c) (v := v) h.valid.1
  have h₂ := setMode_accepted (c := c) (v := v) h.valid.2
  cases ht : acceptedMode k c v with
  | none =>
    rw [ht] at h₁ h₂
    have hok : (effect k u₁ (.setMode c v)).ok = false := h₁.1
    rw [h₁.2, h₂.2, mark_of_not_ok f hok]
    exact h
  | some t =>
    rw [ht] at h₁ h₂
    obtain ⟨hsym, hchoice⟩ := mark_setMode h.valid.1 f ht
    have hvalid : ∀ w ∈ some t, isValid (k.choice c).origType (.tri w) = true := by
      intro w hw
      rw [← Option.some.inj hw]
      exact acceptedMode_valid ht
    have hmode : ∀ (u : User ι γ) (d : γ),
        (Kconfig.withMode u c (some t)).mode d = if d = c then some t else u.mode d :=
      fun u d => Function.update_apply ..
    rw [h₁.2, h₂.2]
    refine ⟨⟨valid_withMode h.valid.1 hvalid, valid_withMode h.valid.2 hvalid⟩, h.value,
      fun d => ?_, h.selection, fun s => ?_, fun d => ?_⟩
    · show (Kconfig.withMode u₁ c (some t)).mode d = ((Kconfig.withMode u₂ c (some t)).mode d).or _
      rw [hmode, hmode, h.mode d]
      split <;> rfl
    · rw [hsym]
      exact h.sym s
    · show _ = (((Kconfig.withMode u₂ c (some t)).mode d).isSome || (u₂.selection d).isSome)
      rw [hchoice, hmode, h.choice d]
      split <;> rfl

theorem overlay_step (h : Overlay k base u₁ f u₂) {op : Op ι γ} (hop : Sets k op) :
    Overlay k base (markedStep k (u₁, f) op).1 (markedStep k (u₁, f) op).2 (effect k u₂ op).user := by
  cases op with
  | setValue s v => exact overlay_setValue h s v
  | setMode c v => exact overlay_setMode h c v
  | unsetValue s => exact absurd hop id
  | unsetMode c => exact absurd hop id
  | read key => exact absurd hop id

theorem overlay_run (h : Overlay k base u₁ f u₂) {ops : List (Op ι γ)} (hops : ∀ op ∈ ops, Sets k op) :
    Overlay k base (run (markedStep k) (u₁, f) ops).1 (run (markedStep k) (u₁, f) ops).2
      (userAfter k u₂ ops) := by
  induction ops generalizing u₁ u₂ f with
  | nil => exact h
  | cons op ops ih =>
    obtain ⟨hop, hrest⟩ := List.forall_mem_cons.mp hops
    exact ih (overlay_step h hop) hrest

omit [DecidableEq ι] [DecidableEq γ] in
theorem accepted_tri {t : Tri} (hbool : (k.sym s).origType.isBoolTristate = true)
    (hv : asTri v = .tri t) (ht : t ≠ 1 ∨ (k.sym s).origType = .tristate) : accepted k s v ≠ none := by
  have hvalid : isValid (k.sym s).origType (k.given s v) = true := by
    rw [Kconfig.given, if_pos hbool, hv]
    revert hbool ht
    generalize (k.sym s).origType = type
    intro hbool ht
    cases type with
    | bool =>
      unfold isValid
      simpa using ht
    | tristate => rfl
    | string => exact absurd hbool Bool.false_ne_true
    | int => exact absurd hbool Bool.false_ne_true
    | hex => exact absurd hbool Bool.false_ne_true
    | unknown => exact absurd hbool Bool.false_ne_true
  rw [accepted, if_pos hvalid]
  exact Option.some_ne_none _

omit [DecidableEq ι] [DecidableEq γ] in
theorem accepted_triChar {val w : Line} (hbool : (k.sym s).origType.isBoolTristate = true)
    (hw : triChar (k.sym s).origType val = some w) : accepted k s (.str w) ≠ none := by
  unfold triChar at hw
  split at hw
  · split at hw
    · rename_i c r hc
      rw [← Option.some.inj hw]
      rcases hc with rfl | rfl | ⟨rfl, ht⟩
      · exact accepted_tri (t := 2) hbool rfl (.inl (by decide))
      · exact accepted_tri (t := 0) hbool rfl (.inl (by decide))
      · exact accepted_tri (t := 1) hbool rfl (.inr ht)
    · exact absurd hw.symm (Option.some_ne_none w)
  · exact absurd hw.symm (Option.some_ne_none w)

omit [DecidableEq ι] [DecidableEq γ] in
theorem sets_assignOps {val : Line} {op : Op ι γ} (h : op ∈ assignOps k s val) :
    Sets k op := by
  unfold assignOps at h
  split at h
  · rename_i hbool
    split at h
    · exact absurd h List.not_mem_nil
    · rename_i w hw
      have hset : Sets k (.setValue s (.str w) : Op ι γ) := fun _ => accepted_triChar hbool hw
      split at h
      · split at h
        · rcases List.mem_cons.mp h with rfl | h
          · trivial
          · rw [List.mem_singleton.mp h]
            exact hset
        · rw [List.mem_singleton.mp h]
          exact hset
      · rw [List.mem_singleton.mp h]
        exact hset
  · rename_i hbool
    split at h
    · split at h
      · exact absurd h List.not_mem_nil
      · rw [List.mem_singleton.mp h]
        exact fun hb => absurd hb hbool
    · rw [List.mem_singleton.mp h]
      exact fun hb => absurd hb hbool

omit [DecidableEq γ] in
theorem sets_lineOps {syms : Line → Option ι} {l : Line} {op : Op ι γ} (h : op ∈ lineOps k syms l) :
    Sets k op := by
  unfold lineOps at h
  split at h
  · split at h
    · exact sets_assignOps h
    · exact absurd h List.not_mem_nil
  · split at h
    · split at h
      · split at h
        · rw [List.mem_singleton.mp h]
          exact fun hbool => accepted_tri (t := 0) hbool rfl (.inl (by decide))
        · exact absurd h List.not_mem_nil
      · exact absurd h List.not_mem_nil
    · exact absurd h List.not_mem_nil

omit [DecidableEq γ] in
theorem sets_lines (k : Kconfig ι γ) (syms : Line → Option ι) (text : Text) :
    ∀ op ∈ text.flatMap (lineOps k syms), Sets k op := by
  intro op hop
  obtain ⟨l, -, h⟩ := List.mem_flatMap.mp hop
  exact sets_lineOps h

/-! ## Unsetting what is not marked -/

theorem user_unsetValue (s : ι) : (effect k u (.unsetValue s)).user = Kconfig.withValue u s none := by
  show (k.unsetValue u s).user = _
  unfold Kconfig.unsetValue
  by_cases hs : u.value s = none
  · rw [if_pos hs, Kconfig.withValue, ← hs, Function.update_eq_self]
  · rw [if_neg hs]

theorem user_unsetMode (c : γ) : (effect k u (.unsetMode c)).user =
    Kconfig.withSelection (Kconfig.withMode u c none) c none := by
  show (Kconfig.unsetMode u c).user = _
  unfold Kconfig.unsetMode
  by_cases hc : u.mode c = none ∧ u.selection c = none
  · have hmode : Function.update u.mode c none = u.mode := by rw [← hc.1, Function.update_eq_self]
    have hselection : Function.update u.selection c none = u.selection := by
      rw [← hc.2, Function.update_eq_self]
    rw [if_pos hc]
    unfold Kconfig.withSelection Kconfig.withMode
    rw [hmode, hselection]
  · rw [if_neg hc]

theorem userAfter_unsetValues (ss : List ι) (u : User ι γ) : userAfter k u (ss.map .unsetValue) =
    { u with value := fun s => if s ∈ ss then none else u.value s } := by
  induction ss generalizing u with
  | nil => simp [userAfter]
  | cons s ss ih =>
    rw [List.map_cons]
    show userAfter k (effect k u (.unsetValue s)).user (ss.map .unsetValue) = _
    rw [ih, user_unsetValue]
    congr 1
    funext t
    show (if t ∈ ss then none else Function.update u.value s none t) = _
    rw [Function.update_apply]
    by_cases ht : t = s
    · simp [ht]
    · simp [ht]

theorem userAfter_unsetModes (cs : List γ) (u : User ι γ) : userAfter k u (cs.map .unsetMode) =
    { u with
      mode := fun c => if c ∈ cs then none else u.mode c
      selection := fun c => if c ∈ cs then none else u.selection c } := by
  induction cs generalizing u with
  | nil => simp [userAfter]
  | cons c cs ih =>
    rw [List.map_cons]
    show userAfter k (effect k u (.unsetMode c)).user (cs.map .unsetMode) = _
    rw [ih, user_unsetMode]
    show User.mk u.value (fun d => if d ∈ cs then none else Function.update u.mode c none d)
      (fun d => if d ∈ cs then none else Function.update u.selection c none d) = _
    simp only [Function.update_apply, List.mem_cons]
    congr 1
    · funext d
      by_cases hd : d = c
      · simp [hd]
      · simp [hd]
    · funext d
      by_cases hd : d = c
      · simp [hd]
      · simp [hd]

theorem userAfter_append (u : User ι γ) (ops ops' : List (Op ι γ)) :
    userAfter k u (ops ++ ops') = userAfter k (userAfter k u ops) ops' := run_append u ops ops'

omit [DecidableEq ι] [DecidableEq γ] in
/-- What has a value is defined. -/
theorem defined_of_value (hk : WellFormed k) (hu : u.Valid k) (h : u.value s ≠ none) :
    s ∈ k.uniqueDefinedSyms := by
  obtain ⟨v, hv⟩ := Option.ne_none_iff_exists'.mp h
  refine defined_of_type hk fun ht => ?_
  have hvalid := hu.value s v hv
  rw [ht] at hvalid
  cases v with
  | tri t => exact absurd hvalid Bool.false_ne_true
  | str l => exact absurd hvalid Bool.false_ne_true

/-- What is left after what is not marked was unset. -/
theorem userAfter_unsetOps (hk : WellFormed k) (hu : u.Valid k) (f : Flags ι γ) :
    userAfter k u (unsetOps k f) =
      { value := fun s => if f.sym s then u.value s else none
        mode := fun c => if f.choice c then u.mode c else none
        selection := fun c => if f.choice c then u.selection c else none } := by
  unfold unsetOps
  rw [userAfter_append, userAfter_unsetValues, userAfter_unsetModes]
  congr 1
  · funext s
    by_cases hs : s ∈ k.uniqueDefinedSyms
    · simp only [List.mem_filter, hs, true_and]
      cases f.sym s <;> rfl
    · have hnone : u.value s = none := by
        by_contra hne
        exact hs (defined_of_value hk hu hne)
      simp [hnone]
  · funext c
    simp only [List.mem_filter, hk.choices c, true_and]
    cases f.choice c <;> rfl
  · funext c
    simp only [List.mem_filter, hk.choices c, true_and]
    cases f.choice c <;> rfl

/-- A choice is set in part: it has a mode and no selection or the other way round. -/
def LeftOver (u loaded : User ι γ) (c : γ) : Prop :=
  (loaded.mode c ≠ none ∧ loaded.selection c = none ∧ u.selection c ≠ none) ∨
    (loaded.mode c = none ∧ loaded.selection c ≠ none ∧ u.mode c ≠ none)

omit [DecidableEq ι] [DecidableEq γ] in
theorem overlay_initial (hu : u.Valid k) : Overlay k u u .none .initial :=
  ⟨⟨hu, valid_initial⟩, fun _ => rfl, fun _ => rfl, fun _ => rfl, fun _ => rfl, fun _ => rfl⟩

theorem markedStep_user (st : Marked ι γ) (ops : List (Op ι γ)) :
    (run (markedStep k) st ops).1 = userAfter k st.1 ops := by
  induction ops generalizing st with
  | nil => rfl
  | cons op ops ih => exact ih (markedStep k st op)

omit [DecidableEq ι] [DecidableEq γ] in
/-- What is over a base is what is set alone, except where something marked comes from the base. -/
theorem overlay_eq_iff (h : Overlay k base u₁ f u₂) :
    ({ value := fun s => if f.sym s then u₁.value s else none
       mode := fun c => if f.choice c then u₁.mode c else none
       selection := fun c => if f.choice c then u₁.selection c else none } : User ι γ) = u₂ ↔
      ∀ c, ¬LeftOver base u₂ c := by
  have hvalue : (fun s => if f.sym s then u₁.value s else none) = u₂.value := by
    funext s
    rw [h.sym, h.value]
    cases u₂.value s <;> rfl
  have hpart : ∀ c, ((if f.choice c then u₁.mode c else none) = u₂.mode c ∧
      (if f.choice c then u₁.selection c else none) = u₂.selection c) ↔ ¬LeftOver base u₂ c := by
    intro c
    rw [h.choice, h.mode, h.selection, LeftOver]
    cases u₂.mode c with
    | none => cases u₂.selection c <;> simp
    | some m => cases u₂.selection c <;> simp
  rw [hvalue]
  constructor
  · intro heq c
    refine (hpart c).mp ⟨?_, ?_⟩
    · exact congrFun (congrArg User.mode heq) c
    · exact congrFun (congrArg User.selection heq) c
  · intro hleft
    have hmode := funext fun c => ((hpart c).mpr (hleft c)).1
    have hselection := funext fun c => ((hpart c).mpr (hleft c)).2
    rw [hmode, hselection]

/-! ## The marks of a run -/

variable {st : Marked ι γ} {syms : Line → Option ι}

/-- What is set is valid, and only what has a type is marked. -/
structure Marked.Valid (k : Kconfig ι γ) (st : Marked ι γ) : Prop where
  valid : st.1.Valid k
  typed : ∀ s, st.2.sym s = true → (k.sym s).origType ≠ .unknown

omit [DecidableEq ι] [DecidableEq γ] in
theorem valid_new : Marked.Valid k .new := ⟨valid_initial, fun _ h => absurd h Bool.false_ne_true⟩

omit [DecidableEq ι] [DecidableEq γ] in
theorem typed_of_accepted {w : UserValue} (hw : accepted k s v = some w) :
    (k.sym s).origType ≠ .unknown := by
  have hvalid := accepted_valid hw
  intro ht
  rw [ht] at hvalid
  cases w with
  | tri t => exact absurd hvalid Bool.false_ne_true
  | str l => exact absurd hvalid Bool.false_ne_true

/-- The marks and values of symbols after a value was set. -/
theorem markedStep_setValue (hu : st.1.Valid k) {w : UserValue} (hw : accepted k s v = some w) (t : ι) :
    (markedStep k st (.setValue s v)).1.value t = (if t = s then some w else st.1.value t) ∧
      (markedStep k st (.setValue s v)).2.sym t = if t = s then true else st.2.sym t := by
  have h := (setValue_accepted (s := s) (v := v) hu).2
  rw [hw] at h
  refine ⟨?_, (mark_setValue hu st.2 hw).1 t⟩
  show (k.setValue st.1 s v).user.value t = _
  rw [h]
  exact value_withAccepted w t

theorem markedStep_not_accepted (hu : st.1.Valid k) (hw : accepted k s v = none) :
    markedStep k st (.setValue s v) = st := by
  have h := setValue_accepted (s := s) (v := v) hu
  rw [hw] at h
  have hok : (effect k st.1 (.setValue s v)).ok = false := h.1
  show ((k.setValue st.1 s v).user, mark k st.1 st.2 (.setValue s v)) = st
  rw [h.2, mark_of_not_ok st.2 hok]
  rfl

theorem markedStep_setMode (hu : st.1.Valid k) :
    (markedStep k st (.setMode c v)).1.value = st.1.value ∧
      (markedStep k st (.setMode c v)).2.sym = st.2.sym := by
  have h := setMode_accepted (c := c) (v := v) hu
  cases ht : acceptedMode k c v with
  | none =>
    rw [ht] at h
    have hok : (effect k st.1 (.setMode c v)).ok = false := h.1
    refine ⟨congrArg User.value h.2, ?_⟩
    show (mark k st.1 st.2 (.setMode c v)).sym = _
    rw [mark_of_not_ok st.2 hok]
  | some t =>
    rw [ht] at h
    refine ⟨?_, (mark_setMode hu st.2 ht).1⟩
    show (k.setMode st.1 c v).user.value = _
    rw [h.2]
    rfl

theorem valid_markedStep (h : Marked.Valid k st) (op : Op ι γ) : Marked.Valid k (markedStep k st op) := by
  refine ⟨valid_effect h.valid op, fun t ht => ?_⟩
  cases op with
  | setValue s v =>
    cases hw : accepted k s v with
    | none =>
      rw [markedStep_not_accepted h.valid hw] at ht
      exact h.typed t ht
    | some w =>
      rw [(markedStep_setValue h.valid hw t).2] at ht
      split at ht
      · rename_i hts
        rw [hts]
        exact typed_of_accepted hw
      · exact h.typed t ht
  | setMode c v =>
    rw [(markedStep_setMode h.valid).2] at ht
    exact h.typed t ht
  | unsetValue s => exact h.typed t ht
  | unsetMode c => exact h.typed t ht
  | read key => exact h.typed t ht

theorem valid_markedRun (h : Marked.Valid k st) (ops : List (Op ι γ)) :
    Marked.Valid k (run (markedStep k) st ops) :=
  run_keeps (I := Marked.Valid k) (fun _ op hst => valid_markedStep hst op) h ops

theorem unmarked_eq (hk : WellFormed k) (h : Marked.Valid k st) : unmarked k st.2 = .none := by
  unfold unmarked Flags.none
  congr 1
  · funext s
    cases hs : st.2.sym s with
    | false => rfl
    | true => simp [defined_of_type hk (h.typed s hs)]
  · funext c
    simp [hk.choices c]

/-- A load is some operations, also one that fails. -/
theorem loadConfig_ops (syms : Line → Option ι) (text : Text) (replace : Bool) {st' : Marked ι γ}
    (hst : Marked.Valid k st)
    (h : loadConfig k syms st text replace = .ok st' ∨ loadConfig k syms st text replace = .error st') :
    Marked.Valid k st' ∧ ∃ ops, st'.1 = userAfter k st.1 ops := by
  unfold loadConfig at h
  have hstart : ∀ start : Marked ι γ, start = (if replace then (st.1, unmarked k st.2) else st) →
      Marked.Valid k start ∧ start.1 = st.1 := by
    intro start hs
    cases replace with
    | false => rw [hs]; exact ⟨hst, rfl⟩
    | true =>
      rw [hs]
      refine ⟨⟨hst.valid, fun s hm => hst.typed s ?_⟩, rfl⟩
      exact (Bool.and_eq_true_iff.mp hm).1
  generalize (if replace then (st.1, unmarked k st.2) else st) = start at h hstart
  obtain ⟨hsound, huser⟩ := hstart start rfl
  cases ha : attempt (keyError k) (markedStep k) start (text.flatMap (lineOps k syms)) with
  | error t =>
    obtain ⟨ops, rfl⟩ := attempt_reaches (.inr ha)
    rw [ha] at h
    rcases h with h | h
    · cases h
    · rw [← Except.error.inj h, ← huser]
      exact ⟨valid_markedRun hsound ops, ops, markedStep_user start ops⟩
  | ok t =>
    obtain ⟨ops, rfl⟩ := attempt_reaches (.inl ha)
    rw [ha] at h
    rcases h with h | h
    · rw [← Except.ok.inj h, ← huser]
      cases replace with
      | false => exact ⟨valid_markedRun hsound ops, ops, markedStep_user start ops⟩
      | true =>
        refine ⟨valid_markedRun (valid_markedRun hsound ops) _,
          ops ++ unsetOps k (run (markedStep k) start ops).2, ?_⟩
        rw [userAfter_append, ← markedStep_user start ops]
        exact markedStep_user _ _
    · cases h

theorem callStep_ops (syms : Line → Option ι) (hst : Marked.Valid k st) (call : Call ι γ) :
    Marked.Valid k (callStep k syms st call) ∧
      ∃ ops, (callStep k syms st call).1 = userAfter k st.1 ops := by
  cases call with
  | op op => exact ⟨valid_markedStep hst op, [op], rfl⟩
  | load text replace =>
    refine loadConfig_ops syms text replace hst ?_
    show _ = Except.ok (callStep k syms st (.load text replace)) ∨
      _ = Except.error (callStep k syms st (.load text replace))
    simp only [callStep]
    cases loadConfig k syms st text replace with
    | ok st' => exact .inl rfl
    | error st' => exact .inr rfl

/-- What the user has set after some calls comes from operations. -/
theorem after_ops (k : Kconfig ι γ) (syms : Line → Option ι) (calls : List (Call ι γ)) :
    Marked.Valid k (after k syms calls) ∧ ∃ ops, (after k syms calls).1 = userAfter k .initial ops := by
  refine run_keeps (I := fun st => Marked.Valid k st ∧ ∃ ops, st.1 = userAfter k .initial ops)
    (fun st call h => ?_) ⟨valid_new, [], rfl⟩ calls
  obtain ⟨hst, ops, hops⟩ := h
  obtain ⟨hst', more, hmore⟩ := callStep_ops syms hst call
  exact ⟨hst', ops ++ more, by rw [hmore, hops, userAfter_append]⟩

/-! ## When a load fails -/

/-- No text is valid for a bool or tristate symbol. -/
theorem text_of_valid {type : SymType} {l : Line} (h : isValid type (.str l) = true) :
    type.isBoolTristate = false := by
  cases type with
  | bool => exact absurd h Bool.false_ne_true
  | tristate => exact absurd h Bool.false_ne_true
  | unknown => rfl
  | string => rfl
  | int => rfl
  | hex => rfl

/-- An assignment that raises nothing does not change which others would. -/
theorem keyError_step (hu : st.1.Valid k) {op : Op ι γ} (hop : Sets k op)
    (hok : keyError k st op = false) (op' : Op ι γ) :
    keyError k (markedStep k st op) op' = keyError k st op' := by
  have hlost : ∀ t, lostValue k (markedStep k st op) t = lostValue k st t := by
    intro t
    cases op with
    | setValue s v =>
      cases hw : accepted k s v with
      | none => rw [markedStep_not_accepted hu hw]
      | some w =>
        obtain ⟨hvalue, hsym⟩ := markedStep_setValue hu hw t
        unfold lostValue
        rw [hvalue, hsym]
        by_cases ht : t = s
        · -- its value is there now, and was not missed
          rw [ht, if_pos rfl, if_pos rfl]
          refine Eq.trans ?_ (Eq.symm hok)
          cases w with
          | tri x => rw [Bool.and_false]
          | str l => rw [text_of_valid (accepted_valid hw), Bool.and_false, Bool.false_and]
        · rw [if_neg ht, if_neg ht]
    | setMode c v =>
      obtain ⟨hvalue, hsym⟩ := markedStep_setMode (c := c) (v := v) hu
      unfold lostValue
      rw [hvalue, hsym]
    | unsetValue s => exact absurd hop id
    | unsetMode c => exact absurd hop id
    | read key => exact absurd hop id
  cases op' with
  | setValue t v => exact hlost t
  | setMode c v => rfl
  | unsetValue s => rfl
  | unsetMode c => rfl
  | read key => rfl

/-- The assignments get through if none of them would raise anything at the start. -/
theorem assignments_iff (hst : Marked.Valid k st) {ops : List (Op ι γ)} (hops : ∀ op ∈ ops, Sets k op) :
    attempt (keyError k) (markedStep k) st ops = .ok (run (markedStep k) st ops) ↔
      ∀ op ∈ ops, keyError k st op = false := by
  rw [attempt_ok_iff, and_iff_left rfl]
  induction ops generalizing st with
  | nil => simp
  | cons op ops ih =>
    obtain ⟨hop, hrest⟩ := List.forall_mem_cons.mp hops
    rw [along_cons, List.forall_mem_cons, ih (valid_markedStep hst op) hrest]
    refine and_congr_right fun hok => forall₂_congr fun op' _ => ?_
    rw [keyError_step hst.valid hop hok]

omit [DecidableEq ι] [DecidableEq γ] in
theorem keyError_none (u : User ι γ) (op : Op ι γ) : keyError k (u, .none) op = false := by
  cases op <;> rfl

/-- A load that replaces what was set does not fail. -/
theorem load_replacing (syms : Line → Option ι) (hk : WellFormed k) (hst : Marked.Valid k st) (text : Text) :
    ∃ loaded, loadConfig k syms st text true = .ok loaded ∧ loaded.1 =
      userAfter k (userAfter k st.1 (text.flatMap (lineOps k syms)))
        (unsetOps k (run (markedStep k) (st.1, .none) (text.flatMap (lineOps k syms))).2) := by
  have hnone : Marked.Valid k (st.1, .none) := ⟨hst.valid, fun _ h => absurd h Bool.false_ne_true⟩
  have hlines := (assignments_iff hnone (sets_lines k syms text)).mpr fun op _ => keyError_none st.1 op
  unfold loadConfig
  rw [if_pos rfl, unmarked_eq hk hst, hlines]
  refine ⟨_, rfl, ?_⟩
  show (run (markedStep k) (run (markedStep k) _ _) _).1 = _
  rw [markedStep_user, markedStep_user]

/-! ## Unsetting everything before -/

theorem marks_unset (st : Marked ι γ) (f : Flags ι γ) :
    (run (markedStep k) st (unsetOps k f)).2 = st.2 := by
  have hkeep : ∀ op ∈ unsetOps k f, ∀ (u : User ι γ) (g : Flags ι γ), mark k u g op = g := by
    intro op hop u g
    rcases List.mem_append.mp hop with hop | hop
    · obtain ⟨s, -, rfl⟩ := List.mem_map.mp hop
      rfl
    · obtain ⟨c, -, rfl⟩ := List.mem_map.mp hop
      rfl
  generalize unsetOps k f = ops at hkeep
  induction ops generalizing st with
  | nil => rfl
  | cons op ops ih =>
    obtain ⟨hop, hrest⟩ := List.forall_mem_cons.mp hkeep
    rw [run_cons, ih (markedStep k st op) hrest]
    exact hop st.1 st.2

/-- `unset_values` unsets everything, and the marks stay. -/
theorem unsetValues_eq (hk : WellFormed k) (hu : st.1.Valid k) : unsetValues k st = (.initial, st.2) := by
  refine Prod.ext ?_ (marks_unset st .none)
  show (run (markedStep k) st (unsetOps k .none)).1 = _
  rw [markedStep_user, userAfter_unsetOps hk hu]
  rfl

/-- The lines set a bool or tristate symbol that is marked. -/
def Remembered (k : Kconfig ι γ) (syms : Line → Option ι) (f : Flags ι γ) (text : Text) : Prop :=
  ∃ s v, (.setValue s v : Op ι γ) ∈ text.flatMap (lineOps k syms) ∧
    (k.sym s).origType.isBoolTristate = true ∧ f.sym s = true

omit [DecidableEq γ] in
theorem not_remembered_iff {f : Flags ι γ} {text : Text} : ¬Remembered k syms f text ↔
    ∀ op ∈ text.flatMap (lineOps k syms), keyError k (.initial, f) op = false := by
  have hlost : ∀ s, lostValue k (.initial, f) s = (f.sym s && (k.sym s).origType.isBoolTristate) :=
    fun s => Bool.and_true _
  constructor
  · intro h op hop
    cases op with
    | setValue s v =>
      show lostValue k (.initial, f) s = false
      rw [hlost]
      by_contra hne
      obtain ⟨hs, hbool⟩ := Bool.and_eq_true_iff.mp (Bool.eq_true_of_not_eq_false hne)
      exact h ⟨s, v, hop, hbool, hs⟩
    | setMode c v => rfl
    | unsetValue s => rfl
    | unsetMode c => rfl
    | read key => rfl
  · rintro h ⟨s, v, hop, hbool, hs⟩
    have hkey : lostValue k (.initial, f) s = false := h _ hop
    rw [hlost, hs, hbool] at hkey
    exact absurd hkey Bool.noConfusion

/-- A load that only sets, where no value is set. -/
theorem load_merging (syms : Line → Option ι) {f : Flags ι γ} (hst : Marked.Valid k (.initial, f)) (text : Text) :
    ((∃ merged, loadConfig k syms (.initial, f) text false = .ok merged) ↔ ¬Remembered k syms f text) ∧
      ∀ merged, loadConfig k syms (.initial, f) text false = .ok merged →
        merged.1 = userAfter k .initial (text.flatMap (lineOps k syms)) := by
  have hload : ∀ merged, loadConfig k syms (.initial, f) text false = .ok merged ↔
      attempt (keyError k) (markedStep k) (.initial, f) (text.flatMap (lineOps k syms)) = .ok merged := by
    intro merged
    unfold loadConfig
    rw [if_neg Bool.false_ne_true]
    cases attempt (keyError k) (markedStep k) (.initial, f) (text.flatMap (lineOps k syms)) with
    | ok t => exact Iff.rfl
    | error t =>
      constructor
      · intro h
        cases h
      · intro h
        cases h
  rw [not_remembered_iff, ← assignments_iff hst (sets_lines k syms text)]
  refine ⟨⟨fun ⟨merged, h⟩ => ?_, fun h => ⟨_, (hload _).mpr h⟩⟩, fun merged h => ?_⟩
  · have hok := (hload merged).mp h
    rw [hok, (attempt_ok_iff.mp hok).2]
  · rw [← (attempt_ok_iff.mp ((hload merged).mp h)).2, markedStep_user]

/-- Loading in place of what was set does not fail, and comes to a load into a new `Kconfig`,
except where the lines set a choice in part and the rest of it was set before. Unsetting
everything and then loading comes to that too, unless it fails at a symbol that is marked. -/
theorem load_replaces_iff (hk : WellFormed k) (calls : List (Call ι γ)) (text : Text) :
    ∃ loaded new, loadConfig k syms (after k syms calls) text true = .ok loaded ∧
      loadConfig k syms .new text false = .ok new ∧
      (loaded.1 = new.1 ↔ ∀ c, ¬LeftOver (after k syms calls).1 new.1 c) ∧
      ((∃ merged, loadConfig k syms (unsetValues k (after k syms calls)) text false = .ok merged) ↔
        ¬Remembered k syms (after k syms calls).2 text) ∧
      ∀ merged, loadConfig k syms (unsetValues k (after k syms calls)) text false = .ok merged →
        merged.1 = new.1 := by
  have hst : Marked.Valid k (after k syms calls) := (after_ops k syms calls).1
  generalize after k syms calls = st at hst
  obtain ⟨loaded, hloaded, huser⟩ := load_replacing syms hk hst text
  have hnew := load_merging (k := k) syms (f := .none) valid_new text
  obtain ⟨new, hnew'⟩ := hnew.1.mpr fun ⟨s, v, _, _, h⟩ => absurd h Bool.false_ne_true
  have hover := overlay_run (overlay_initial hst.valid) (sets_lines k syms text)
  have hmerge := load_merging syms (f := st.2) ⟨valid_initial, hst.typed⟩ text
  rw [unsetValues_eq hk hst.valid]
  refine ⟨loaded, new, hloaded, hnew', ?_, hmerge.1, fun merged h => ?_⟩
  · rw [hnew.2 new hnew', huser, ← overlay_eq_iff hover,
      userAfter_unsetOps hk (valid_userAfter hst.valid _), markedStep_user]
  · rw [hmerge.2 merged h, hnew.2 new hnew']

end

def driverSyms (name : Line) : Option DriverSym :=
  driverConfig.uniqueDefinedSyms.find? fun s => decide ((driverConfig.sym s).name = name)

def fastLines : Text :=
  ["CONFIG_DRIVER=y".toList, "CONFIG_FAST=y".toList, "# CONFIG_SMALL is not set".toList]

/-- One backend was selected and the other is loaded. -/
def smallCalls : List (Call DriverSym Unit) := [.op (.setValue .small (.tri 2))]

theorem load_replaces_iff_driver :
    ∃ loaded new, loadConfig driverConfig driverSyms (after driverConfig driverSyms smallCalls) fastLines true =
        .ok loaded ∧
      loadConfig driverConfig driverSyms .new fastLines false = .ok new ∧
      (loaded.1 = new.1 ↔ ∀ c, ¬LeftOver (after driverConfig driverSyms smallCalls).1 new.1 c) ∧
      ((∃ merged, loadConfig driverConfig driverSyms
          (unsetValues driverConfig (after driverConfig driverSyms smallCalls)) fastLines false = .ok merged) ↔
        ¬Remembered driverConfig driverSyms (after driverConfig driverSyms smallCalls).2 fastLines) ∧
      ∀ merged, loadConfig driverConfig driverSyms
          (unsetValues driverConfig (after driverConfig driverSyms smallCalls)) fastLines false = .ok merged →
        merged.1 = new.1 :=
  load_replaces_iff wellFormed_driverConfig smallCalls fastLines

/-- `SMALL` is still marked when everything was unset, and the lines set it to n. -/
example : Remembered driverConfig driverSyms (after driverConfig driverSyms smallCalls).2 fastLines :=
  ⟨.small, .str ['n'],
    List.mem_flatMap.mpr ⟨"# CONFIG_SMALL is not set".toList, by decide, List.mem_cons_self⟩, rfl, rfl⟩

end HassOS.Kconfiglib
