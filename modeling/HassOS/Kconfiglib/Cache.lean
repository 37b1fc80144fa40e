import HassOS.Kconfiglib.Reads

/-!
# Values that are kept (`kconfiglib.py`)

The values are kept in `_cached_` attributes. When the user sets or unsets something, the
symbol or choice is invalidated, and what depends on it (`_rec_invalidate`); the
dependents of an item were collected from the expressions (`_build_dep`), and as those
are sets, nothing is known of their order. `MODULES` invalidates everything.

Whatever is set, unset and read, in any order: what is read is what a computation from
scratch gives (`answers_agree`).
-/

namespace HassOS.Kconfiglib

open Framework

variable {ι γ : Type}

def Key.item : Key ι γ → Item ι γ
  | visibility s => .sym s
  | triValue s => .sym s
  | strValue s => .sym s
  | assignable s => .sym s
  | userValue s => .sym s
  | choiceVisibility c => .choice c
  | choiceTriValue c => .choice c
  | choiceAssignable c => .choice c
  | selection c => .choice c

/-- `_cached_vis`, which tells whether there are cached values. -/
def Item.mark : Item ι γ → Key ι γ
  | sym s => .visibility s
  | choice c => .choiceVisibility c

namespace Kconfig

variable (k : Kconfig ι γ)

/-- What the properties of a symbol mention. -/
def symItems (s : ι) : List (Item ι γ) :=
  (k.sym s).prompts.flatMap exprItems ++
    ((k.sym s).defaults.flatMap fun d => exprItems d.1 ++ exprItems d.2) ++
    exprItems (k.sym s).revDep ++ exprItems (k.sym s).weakRevDep ++
    ((k.sym s).ranges.flatMap fun r => r.1.items ++ r.2.1.items ++ exprItems r.2.2) ++
    exprItems (k.sym s).directDep

/-- What the properties of a choice mention. -/
def choiceItems (c : γ) : List (Item ι γ) :=
  (k.choice c).prompts.flatMap exprItems ++ (k.choice c).defaults.flatMap fun d => exprItems d.2

def items : List (Item ι γ) :=
  k.uniqueDefinedSyms.map .sym ++ k.uniqueChoices.map .choice

variable [DecidableEq ι] [DecidableEq γ]

/-- `_build_dep` and `_add_choice_deps`: the `_dependents` of an item -/
def buildDep (i : Item ι γ) : List (Item ι γ) :=
  (k.uniqueDefinedSyms.filter fun s => decide (i ∈ k.symItems s)).map .sym ++
    (k.uniqueChoices.filter fun c =>
      decide (i ∈ k.choiceItems c ∨ i ∈ (k.choice c).syms.map .sym)).map .choice

/-- The items and their dependents, in some order. -/
def links (deps : Item ι γ → List (Item ι γ)) : Links (Key ι γ) (Item ι γ) where
  item := Key.item
  mark := Item.mark
  items := k.items
  dependents := deps
  wide i := decide (i = .sym k.modules)

end Kconfig

/-- A prompt of the symbol has a condition that is not the constant n. -/
def Kconfig.Shown (k : Kconfig ι γ) (s : ι) : Prop := ∃ e ∈ (k.sym s).prompts, e ≠ .n

/-- What the parser and the checks after it see to, where they do not warn. -/
structure WellFormed (k : Kconfig ι γ) : Prop where
  undefined : ∀ s, s ∉ k.uniqueDefinedSyms →
    (k.sym s).origType = .unknown ∧ (k.sym s).prompts = [] ∧ (k.sym s).choice = none
  choices : ∀ c, c ∈ k.uniqueChoices
  /-- `_finalize_choice` -/
  choice_mem : ∀ s c, (k.sym s).choice = some c → s ∈ (k.choice c).syms
  /-- The choice is propagated to the conditions of the properties (`_propagate_deps`), where
  `_make_and` does not make them n. -/
  choice_mentioned : ∀ s c, (k.sym s).choice = some c → k.Shown s → .choice c ∈ k.symItems s
  /-- The default selections are contained in the choice (`_check_choice_sanity`). -/
  defaults_mem : ∀ c, ∀ d ∈ (k.choice c).defaults, d.1 ∈ (k.choice c).syms

/-! ## What the user does -/

/-- `STR_TO_TRI` -/
def strToTri (s : Line) : Option Tri :=
  if s = ['n'] then some 0 else if s = ['m'] then some 1 else if s = ['y'] then some 2 else none

/-- A value that is given as a text, for what has tristate values. -/
def asTri (v : UserValue) : UserValue :=
  match v with
  | .str s =>
    match strToTri s with
    | some t => .tri t
    | none => .str s
  | .tri t => .tri t

/-- The value is valid for the type. -/
def isValid (t : SymType) : UserValue → Bool
  | .tri v => t = .tristate || (t = .bool && v ≠ 1)
  | .str s => t = .string || (t = .int && (Python.int 10 s).isSome) ||
      (t = .hex && match Python.int 16 s with
        | some z => decide (z ≥ 0)
        | none => false)

/-- What setting or unsetting something does: whether the value was valid, what the user has
set then, and what is invalidated. -/
structure Effect (ι γ : Type) where
  ok : Bool
  user : User ι γ
  invalidated : Option (Item ι γ)

namespace Kconfig

variable (k : Kconfig ι γ) [DecidableEq ι] [DecidableEq γ] (u : User ι γ)

/-- `_rec_invalidate_if_has_prompt` -/
def ifHasPrompt (s : ι) : Option (Item ι γ) := if (k.sym s).prompts = [] then none else some (.sym s)

def withValue (s : ι) (v : Option UserValue) : User ι γ := { u with value := Function.update u.value s v }

def withSelection (c : γ) (s : Option ι) : User ι γ :=
  { u with selection := Function.update u.selection c s }

def withMode (c : γ) (v : Option Tri) : User ι γ := { u with mode := Function.update u.mode c v }

/-- An assignment of a value that is valid. -/
def assign (s : ι) (v : UserValue) : Effect ι γ :=
  match (k.sym s).choice with
  | some c =>
    if v = .tri 2 then ⟨true, withSelection (withValue u s (some v)) c (some s), some (.choice c)⟩
    else ⟨true, withValue u s (some v), k.ifHasPrompt s⟩
  | none => ⟨true, withValue u s (some v), k.ifHasPrompt s⟩

/-- The value that is to be set. -/
def given (s : ι) (value : UserValue) : UserValue :=
  if (k.sym s).origType.isBoolTristate then asTri value else value

/-- The part of `Symbol.set_value` after texts for n, m and y were replaced. -/
def setGiven (s : ι) (v : UserValue) : Effect ι γ :=
  if u.value s = some v ∧ (k.sym s).choice = none then ⟨true, u, none⟩
  else if isValid (k.sym s).origType v then k.assign u s v
  else ⟨false, u, none⟩

/-- `Symbol.set_value` -/
def setValue (s : ι) (value : UserValue) : Effect ι γ := k.setGiven u s (k.given s value)

/-- `Symbol.unset_value` -/
def unsetValue (s : ι) : Effect ι γ :=
  if u.value s = none then ⟨true, u, none⟩ else ⟨true, withValue u s none, k.ifHasPrompt s⟩

/-- `Choice.set_value` -/
def setMode (c : γ) (value : UserValue) : Effect ι γ :=
  match asTri value with
  | .tri v =>
    if u.mode c = some v then ⟨true, u, none⟩
    else if isValid (k.choice c).origType (.tri v) then ⟨true, withMode u c (some v), some (.choice c)⟩
    else ⟨false, u, none⟩
  | .str _ => ⟨false, u, none⟩

/-- `Choice.unset_value` -/
def unsetMode (c : γ) : Effect ι γ :=
  if u.mode c = none ∧ u.selection c = none then ⟨true, u, none⟩
  else ⟨true, withSelection (withMode u c none) c none, some (.choice c)⟩

end Kconfig

/-- What a client does. -/
inductive Op (ι γ : Type) where
  | setValue (s : ι) (value : UserValue)
  | unsetValue (s : ι)
  | setMode (c : γ) (value : UserValue)
  | unsetMode (c : γ)
  | read (key : Key ι γ)

/-- What it gets back. -/
inductive Answer (ι γ : Type) where
  | done (ok : Bool)
  | value (key : Key ι γ) (v : Val key)

instance Val.instInhabited (key : Key ι γ) : Inhabited (Val key) :=
  match key with
  | .visibility _ => ⟨(0 : Tri)⟩
  | .triValue _ => ⟨((0, false) : Tri × Bool)⟩
  | .strValue _ => ⟨(([], false) : Line × Bool)⟩
  | .assignable _ => ⟨([] : List Tri)⟩
  | .userValue _ => ⟨(none : Option UserValue)⟩
  | .choiceVisibility _ => ⟨(0 : Tri)⟩
  | .choiceTriValue _ => ⟨(0 : Tri)⟩
  | .choiceAssignable _ => ⟨([] : List Tri)⟩
  | .selection _ => ⟨(none : Option ι)⟩

/-- What the user set, and the `_cached_` attributes. -/
structure State (ι γ : Type) where
  user : User ι γ
  cache : Memo (Val (ι := ι) (γ := γ))

section

variable (k : Kconfig ι γ) [DecidableEq ι] [DecidableEq γ]

/-- The effect of what is no read. -/
def effect (u : User ι γ) : Op ι γ → Effect ι γ
  | .setValue s v => k.setValue u s v
  | .unsetValue s => k.unsetValue u s
  | .setMode c v => k.setMode u c v
  | .unsetMode c => Kconfig.unsetMode u c
  | .read _ => ⟨true, u, none⟩

/-- `_rec_invalidate`, where something is -/
def invalidated (deps : Item ι γ → List (Item ι γ)) (i : Option (Item ι γ))
    (c : Memo (Val (ι := ι) (γ := γ))) : Memo (Val (ι := ι) (γ := γ)) :=
  match i with
  | some i => (k.links deps).invalidate (k.items.length + 1) i c
  | none => c

/-- One operation, with values that are kept. `n` bounds the depth of a computation. -/
def stepCached (deps : Item ι γ → List (Item ι γ)) (n : ℕ) (st : State ι γ) (op : Op ι γ) :
    Option (Answer ι γ × State ι γ) :=
  match op with
  | .read key => (fetch (k.tasks st.user) Key.keep n key st.cache).map fun r =>
      (.value key r.1, { st with cache := r.2 })
  | op => some (.done (effect k st.user op).ok,
      ⟨(effect k st.user op).user, invalidated k deps (effect k st.user op).invalidated st.cache⟩)

/-- The answers to a list of operations, with values that are kept. -/
def runCached (deps : Item ι γ → List (Item ι γ)) (n : ℕ) :
    State ι γ → List (Op ι γ) → Option (List (Answer ι γ))
  | _, [] => some []
  | st, op :: ops =>
    match stepCached k deps n st op with
    | some (a, st) => (runCached deps n st ops).map (a :: ·)
    | none => none

/-- One operation, where every value is computed from scratch. -/
def stepPlain (n : ℕ) (u : User ι γ) (op : Op ι γ) : Answer ι γ × User ι γ :=
  match op with
  | .read key => (.value key (plain (k.tasks u) n key), u)
  | op => (.done (effect k u op).ok, (effect k u op).user)

/-- The answers to a list of operations, where every value is computed from scratch. -/
def runPlain (n : ℕ) : User ι γ → List (Op ι γ) → List (Answer ι γ)
  | _, [] => []
  | u, op :: ops => (stepPlain k n u op).1 :: runPlain n (stepPlain k n u op).2 ops

end

/-! ## The links -/

section

variable {k : Kconfig ι γ} {s : ι} {c : γ} {key key' : Key ι γ}

theorem item_of_mem_operandKeys {o : Operand ι} (h : key' ∈ o.keys) : key'.item ∈ o.items := by
  cases o with
  | tri v => exact absurd h List.not_mem_nil
  | const name => exact absurd h List.not_mem_nil
  | sym s =>
    rcases List.mem_cons.mp h with rfl | h
    · exact List.mem_cons_self
    · rw [List.mem_singleton.mp h]
      exact List.mem_cons_self

theorem item_of_mem_keys {e : Expr ι γ} (h : key' ∈ e.keys) : key'.item ∈ exprItems e := by
  induction e with
  | operand o => exact item_of_mem_operandKeys h
  | choice c =>
    rw [List.mem_singleton.mp h]
    exact List.mem_cons_self
  | and e₁ e₂ ih₁ ih₂ => exact List.mem_append.mpr ((List.mem_append.mp h).imp ih₁ ih₂)
  | or e₁ e₂ ih₁ ih₂ => exact List.mem_append.mpr ((List.mem_append.mp h).imp ih₁ ih₂)
  | not e ih => exact ih h
  | rel r o₁ o₂ =>
    exact List.mem_append.mpr ((List.mem_append.mp h).imp item_of_mem_operandKeys item_of_mem_operandKeys)

theorem item_of_mem_promptKeys {es : List (Expr ι γ)} (h : key' ∈ Kconfig.promptKeys es) :
    key'.item ∈ es.flatMap exprItems := by
  obtain ⟨e, he, hk⟩ := List.mem_flatMap.mp h
  exact List.mem_flatMap.mpr ⟨e, he, item_of_mem_keys hk⟩

theorem item_of_mem_defaultKeys (h : key' ∈ k.defaultKeys s) :
    key'.item ∈ (k.sym s).defaults.flatMap fun d => exprItems d.1 ++ exprItems d.2 := by
  obtain ⟨d, hd, hk⟩ := List.mem_flatMap.mp h
  exact List.mem_flatMap.mpr ⟨d, hd,
    List.mem_append.mpr ((List.mem_append.mp hk).imp item_of_mem_keys item_of_mem_keys)⟩

theorem item_of_mem_rangeKeys (h : key' ∈ k.rangeKeys s) : key'.item ∈
    (k.sym s).ranges.flatMap fun r => r.1.items ++ r.2.1.items ++ exprItems r.2.2 := by
  obtain ⟨r, hr, hk⟩ := List.mem_flatMap.mp h
  refine List.mem_flatMap.mpr ⟨r, hr, List.mem_append.mpr ((List.mem_append.mp hk).imp (fun hk => ?_)
    item_of_mem_keys)⟩
  exact List.mem_append.mpr ((List.mem_append.mp hk).imp item_of_mem_operandKeys item_of_mem_operandKeys)

end

section

variable {k : Kconfig ι γ} {s : ι} {c : γ}

theorem mem_symItems {i : Item ι γ} : i ∈ k.symItems s ↔
    i ∈ (k.sym s).prompts.flatMap exprItems ∨
      (i ∈ (k.sym s).defaults.flatMap fun d => exprItems d.1 ++ exprItems d.2) ∨
      i ∈ exprItems (k.sym s).revDep ∨ i ∈ exprItems (k.sym s).weakRevDep ∨
      (i ∈ (k.sym s).ranges.flatMap fun r => r.1.items ++ r.2.1.items ++ exprItems r.2.2) ∨
      i ∈ exprItems (k.sym s).directDep := by
  simp only [Kconfig.symItems, List.mem_append, or_assoc]

theorem mem_items_sym : .sym s ∈ k.items ↔ s ∈ k.uniqueDefinedSyms := by
  simp [Kconfig.items]

theorem mem_items_choice (hk : WellFormed k) : .choice c ∈ k.items :=
  List.mem_append_right _ (List.mem_map.mpr ⟨c, hk.choices c, rfl⟩)

/-- What has a type is defined. -/
theorem defined_of_type (hk : WellFormed k) (h : (k.sym s).origType ≠ .unknown) :
    s ∈ k.uniqueDefinedSyms := by
  by_contra hs
  exact h (hk.undefined s hs).1

theorem isBoolTristate_ne {t : SymType} (h : t.isBoolTristate = true) : t ≠ .unknown := by
  rintro rfl
  exact absurd h (by decide)

end

section

variable [DecidableEq ι] [DecidableEq γ] {k : Kconfig ι γ} {deps : Item ι γ → List (Item ι γ)}
  {s : ι} {c : γ} {key key' : Key ι γ}

/-- The dependents are those that were collected. -/
def Collects (k : Kconfig ι γ) (deps : Item ι γ → List (Item ι γ)) : Prop :=
  ∀ i d, d ∈ deps i ↔ d ∈ k.buildDep i

theorem buildDep_sym {i : Item ι γ} (hs : s ∈ k.uniqueDefinedSyms) (hi : i ∈ k.symItems s) :
    .sym s ∈ k.buildDep i :=
  List.mem_append_left _ (List.mem_map.mpr ⟨s, List.mem_filter.mpr ⟨hs, decide_eq_true hi⟩, rfl⟩)

theorem buildDep_choice {i : Item ι γ} (hk : WellFormed k)
    (hi : i ∈ k.choiceItems c ∨ i ∈ (k.choice c).syms.map .sym) : .choice c ∈ k.buildDep i :=
  List.mem_append_right _
    (List.mem_map.mpr ⟨c, List.mem_filter.mpr ⟨hk.choices c, decide_eq_true hi⟩, rfl⟩)

theorem valid_links (hdeps : Collects k deps) : (k.links deps).Valid := by
  refine ⟨fun i => ?_, fun i d hd => ?_⟩
  · cases i with
    | sym s => rfl
    | choice c => rfl
  · rcases List.mem_append.mp ((hdeps i d).mp hd) with h | h
    · obtain ⟨s, hs, rfl⟩ := List.mem_map.mp h
      exact mem_items_sym.mpr (List.mem_filter.mp hs).1
    · obtain ⟨c, hc, rfl⟩ := List.mem_map.mp h
      exact List.mem_append_right _ (List.mem_map.mpr ⟨c, (List.mem_filter.mp hc).1, rfl⟩)

/-- A key is linked with what its item was collected for. -/
theorem linked_of_buildDep (hdeps : Collects k deps) (hi : key.item ∈ k.items)
    (h : key.item ∈ k.buildDep key'.item) : (k.links deps).Linked key key' := by
  refine .inr ?_
  split
  · exact hi
  · exact (hdeps _ _).mpr h

theorem linked_modules (hi : key.item ∈ k.items) {t : SymType} (h : key' ∈ k.typeKeys t) :
    (k.links deps).Linked key key' := by
  unfold Kconfig.typeKeys at h
  split at h
  · obtain rfl := List.mem_singleton.mp h
    refine .inr ?_
    split
    · exact hi
    · rename_i hw
      exact absurd (decide_eq_true rfl) hw
  · exact absurd h List.not_mem_nil

theorem linked_sym (hdeps : Collects k deps) (hs : s ∈ k.uniqueDefinedSyms) (hkey : key.item = .sym s)
    (h : key'.item ∈ k.symItems s) : (k.links deps).Linked key key' :=
  linked_of_buildDep hdeps (hkey ▸ mem_items_sym.mpr hs) (hkey ▸ buildDep_sym hs h)

theorem linked_choice (hk : WellFormed k) (hdeps : Collects k deps) (hkey : key.item = .choice c)
    (h : key'.item ∈ k.choiceItems c ∨ key'.item ∈ (k.choice c).syms.map .sym) :
    (k.links deps).Linked key key' :=
  linked_of_buildDep hdeps (hkey ▸ mem_items_choice hk) (hkey ▸ buildDep_choice hk h)

theorem linked_mode (hk : WellFormed k) (hdeps : Collects k deps) (hs : s ∈ k.uniqueDefinedSyms)
    (hkey : key.item = .sym s) (hshown : (k.sym s).choice ≠ none → k.Shown s) (h : key' ∈ k.modeKeys s) :
    (k.links deps).Linked key key' := by
  unfold Kconfig.modeKeys at h
  split at h
  · rename_i c hc
    obtain rfl := List.mem_singleton.mp h
    exact linked_sym hdeps hs hkey (hk.choice_mentioned s c hc (hshown (hc ▸ Option.some_ne_none c)))
  · exact absurd h List.not_mem_nil

/-- What is read to compute a value is linked with it, but for the mode and the selection of the
choice of a symbol that is not shown. -/
theorem linked_reads (hk : WellFormed k) (hdeps : Collects k deps)
    (hshown : ∀ s, key = .visibility s ∨ key = .triValue s ∨ key = .assignable s →
      (k.sym s).choice ≠ none → k.Shown s)
    (h : key' ∈ k.reads key) : (k.links deps).Linked key key' := by
  cases key with
  | visibility s =>
    by_cases hs : s ∈ k.uniqueDefinedSyms
    · rcases List.mem_append.mp h with h | h
      · rcases List.mem_append.mp h with h | h
        · exact linked_sym hdeps hs rfl (mem_symItems.mpr (.inl (item_of_mem_promptKeys h)))
        · exact linked_mode hk hdeps hs rfl (hshown s (.inl rfl)) h
      · exact linked_modules (mem_items_sym.mpr hs) h
    · obtain ⟨ht, hp, hc⟩ := hk.undefined s hs
      simp [Kconfig.reads, hp, hc, ht, Kconfig.promptKeys, Kconfig.modeKeys, Kconfig.typeKeys] at h
  | triValue s =>
    simp only [Kconfig.reads] at h
    split at h
    · rename_i hbool
      have hs := defined_of_type hk (isBoolTristate_ne hbool)
      rcases List.mem_cons.mp h with rfl | h
      · exact .inl rfl
      rcases List.mem_cons.mp h with rfl | h
      · exact .inl rfl
      unfold Kconfig.triKeys at h
      split at h
      · rename_i c hc
        obtain rfl := List.mem_singleton.mp h
        have hs' := hshown s (.inr (.inl rfl)) (hc ▸ Option.some_ne_none c)
        exact linked_sym hdeps hs rfl (hk.choice_mentioned s c hc hs')
      · rcases List.mem_append.mp h with h | h
        · refine linked_sym hdeps hs rfl (mem_symItems.mpr ?_)
          simp only [List.mem_append, or_assoc] at h
          rcases h with h | h | h | h
          · exact .inr (.inl (item_of_mem_defaultKeys h))
          · exact .inr (.inr (.inr (.inl (item_of_mem_keys h))))
          · exact .inr (.inr (.inr (.inr (.inr (item_of_mem_keys h)))))
          · exact .inr (.inr (.inl (item_of_mem_keys h)))
        · exact linked_modules (mem_items_sym.mpr hs) h
    · exact absurd h List.not_mem_nil
  | strValue s =>
    simp only [Kconfig.reads] at h
    split at h
    · rw [List.mem_singleton.mp h]
      exact .inl rfl
    split at h
    · exact absurd h List.not_mem_nil
    · rename_i hunknown
      have hs := defined_of_type hk hunknown
      rcases List.mem_cons.mp h with rfl | h
      · exact .inl rfl
      rcases List.mem_cons.mp h with rfl | h
      · exact .inl rfl
      refine linked_sym hdeps hs rfl (mem_symItems.mpr ?_)
      rcases List.mem_append.mp h with h | h
      · exact .inr (.inr (.inr (.inr (.inl (item_of_mem_rangeKeys h)))))
      · exact .inr (.inl (item_of_mem_defaultKeys h))
  | assignable s =>
    simp only [Kconfig.reads] at h
    split at h
    · rename_i hbool
      have hs := defined_of_type hk (isBoolTristate_ne hbool)
      rcases List.mem_cons.mp h with rfl | h
      · exact .inl rfl
      simp only [List.mem_append, or_assoc] at h
      rcases h with h | h | h | h
      · exact linked_sym hdeps hs rfl (mem_symItems.mpr (.inr (.inr (.inl (item_of_mem_keys h)))))
      · exact linked_sym hdeps hs rfl (mem_symItems.mpr (.inr (.inr (.inr (.inl (item_of_mem_keys h))))))
      · exact linked_mode hk hdeps hs rfl (hshown s (.inr (.inr rfl))) h
      · exact linked_modules (mem_items_sym.mpr hs) h
    · exact absurd h List.not_mem_nil
  | userValue s => exact absurd h List.not_mem_nil
  | choiceVisibility c =>
    rcases List.mem_append.mp h with h | h
    · exact linked_choice hk hdeps rfl (.inl (List.mem_append_left _ (item_of_mem_promptKeys h)))
    · exact linked_modules (mem_items_choice hk) h
  | choiceTriValue c =>
    rcases List.mem_cons.mp h with rfl | h
    · exact .inl rfl
    · exact linked_modules (mem_items_choice hk) h
  | choiceAssignable c =>
    rcases List.mem_cons.mp h with rfl | h
    · exact .inl rfl
    · exact linked_modules (mem_items_choice hk) h
  | selection c =>
    rcases List.mem_cons.mp h with rfl | h
    · exact .inl rfl
    rcases List.mem_append.mp h with h | h
    · obtain ⟨s, hs, rfl⟩ := List.mem_map.mp h
      exact linked_choice hk hdeps rfl (.inr (List.mem_map.mpr ⟨s, hs, rfl⟩))
    · obtain ⟨d, hd, h⟩ := List.mem_flatMap.mp h
      rcases List.mem_cons.mp h with rfl | h
      · exact linked_choice hk hdeps rfl (.inr (List.mem_map.mpr ⟨d.1, hk.defaults_mem c d hd, rfl⟩))
      · refine linked_choice hk hdeps rfl (.inl ?_)
        exact List.mem_append_right _ (List.mem_flatMap.mpr ⟨d, hd, item_of_mem_keys h⟩)

end

end HassOS.Kconfiglib
