import HassOS.Framework.Memo
import HassOS.Kconfiglib.Expr

/-!
# Values (`kconfiglib.py`)

The values of symbols and choices as the properties `visibility`, `tri_value`, `str_value`,
`assignable` and `selection` compute them from each other and from what the user set: each
is the task of a key, which reads the values of other keys as the property reads other
properties.

With the values of a symbol goes `_write_to_conf`, which is assigned whenever they are
computed. The warnings on the way are left out, with what is only read for them.
-/

namespace HassOS.Kconfiglib

open Framework

variable {ι γ : Type}

structure Symbol (ι γ : Type) where
  name : Line
  origType : SymType
  /-- The conditions of the prompts of its nodes. -/
  prompts : List (Expr ι γ)
  defaults : List (Expr ι γ × Expr ι γ)
  ranges : List (Operand ι × Operand ι × Expr ι γ)
  revDep : Expr ι γ
  weakRevDep : Expr ι γ
  directDep : Expr ι γ
  choice : Option γ
  /-- It has an `env_var`, or is the `defconfig_list`. -/
  auto : Bool

structure Choice (ι γ : Type) where
  origType : SymType
  prompts : List (Expr ι γ)
  defaults : List (ι × Expr ι γ)
  syms : List ι
  isOptional : Bool

/-- The symbols and choices of a configuration. -/
structure Kconfig (ι γ : Type) where
  sym : ι → Symbol ι γ
  choice : γ → Choice ι γ
  modules : ι
  uniqueDefinedSyms : List ι
  uniqueChoices : List γ

/-- `Symbol.user_value` -/
inductive UserValue where
  | tri (v : Tri)
  | str (s : Line)
  deriving DecidableEq

/-- A tristate value that the user set. -/
def triSet : Option UserValue → Option Tri
  | some (.tri v) => some v
  | _ => none

/-- A text that the user set. -/
def strSet : Option UserValue → Option Line
  | some (.str s) => some s
  | _ => none

/-- What the user set: values of symbols, and modes and selections of choices. -/
structure User (ι γ : Type) where
  value : ι → Option UserValue
  mode : γ → Option Tri
  selection : γ → Option ι

/-- What has a value. -/
inductive Key (ι γ : Type) where
  | visibility (s : ι)
  | triValue (s : ι)
  | strValue (s : ι)
  | assignable (s : ι)
  | userValue (s : ι)
  | choiceVisibility (c : γ)
  | choiceTriValue (c : γ)
  | choiceAssignable (c : γ)
  | selection (c : γ)
  deriving DecidableEq

/-- The values of a symbol come with its `_write_to_conf`. -/
def Val : Key ι γ → Type
  | .visibility _ => Tri
  | .triValue _ => Tri × Bool
  | .strValue _ => Line × Bool
  | .assignable _ => List Tri
  | .userValue _ => Option UserValue
  | .choiceVisibility _ => Tri
  | .choiceTriValue _ => Tri
  | .choiceAssignable _ => List Tri
  | .selection _ => Option ι

/-- The values with a `_cached_` attribute. -/
def Key.keep : Key ι γ → Bool
  | userValue _ => false
  | choiceTriValue _ => false
  | _ => true

abbrev Get (ι γ α : Type) := Task (Val (ι := ι) (γ := γ)) α

/-! ## What is read -/

def visibility (s : ι) : Get ι γ Tri := .value (V := Val) (.visibility s)

def triAndWrite (s : ι) : Get ι γ (Tri × Bool) := .value (V := Val) (.triValue s)

def strAndWrite (s : ι) : Get ι γ (Line × Bool) := .value (V := Val) (.strValue s)

def userValue (s : ι) : Get ι γ (Option UserValue) := .value (V := Val) (.userValue s)

def choiceVisibility (c : γ) : Get ι γ Tri := .value (V := Val) (.choiceVisibility c)

def choiceTriValue (c : γ) : Get ι γ Tri := .value (V := Val) (.choiceTriValue c)

def selection (c : γ) : Get ι γ (Option ι) := .value (V := Val) (.selection c)

def triValue : Operand ι → Get ι γ Tri
  | .tri v => pure v
  | .const _ => pure 0
  | .sym s => do
    let v ← triAndWrite s
    pure v.1

def strValue : Operand ι → Get ι γ Line
  | .tri v => pure (triToStr v)
  | .const name => pure name
  | .sym s => do
    let v ← strAndWrite s
    pure v.1

namespace Kconfig

variable (k : Kconfig ι γ)

def origType : Operand ι → SymType
  | .tri _ => .tristate
  | .const _ => .unknown
  | .sym s => (k.sym s).origType

/-! ## Expressions -/

/-- `_sym_to_num` -/
def symToNum (o : Operand ι) : Get ι γ (Option ℤ) :=
  if (k.origType o).isBoolTristate then do
    let v ← triValue o
    pure (some (v.val : ℤ))
  else do
    let s ← strValue o
    pure (Python.int (k.origType o).base s)

def compareStr (o₁ o₂ : Operand ι) : Get ι γ ℤ := do
  let s₁ ← strValue o₁
  let s₂ ← strValue o₂
  pure (strcmp s₁ s₂)

/-- The comparison in `expr_value`, which falls back on the strings where one operand is no
number. -/
def compare (o₁ o₂ : Operand ι) : Get ι γ ℤ :=
  if k.origType o₁ = .string ∧ k.origType o₂ = .string then compareStr o₁ o₂
  else do
    let n₁ ← k.symToNum o₁
    match n₁ with
    | none => compareStr o₁ o₂
    | some a => do
      let n₂ ← k.symToNum o₂
      match n₂ with
      | none => compareStr o₁ o₂
      | some b => pure (a - b)

/-- `expr_value`, which stops where the first operand tells the value. -/
def exprValue : Expr ι γ → Get ι γ Tri
  | .operand o => triValue o
  | .choice c => choiceTriValue c
  | .and e₁ e₂ => do
    let v₁ ← exprValue e₁
    if v₁ = 0 then pure 0
    else do
      let v₂ ← exprValue e₂
      pure (min v₁ v₂)
  | .or e₁ e₂ => do
    let v₁ ← exprValue e₁
    if v₁ = 2 then pure 2
    else do
      let v₂ ← exprValue e₂
      pure (max v₁ v₂)
  | .not e => do
    let v ← exprValue e
    pure (2 - v)
  | .rel r o₁ o₂ => do
    let comp ← k.compare o₁ o₂
    pure (ofBool (r.holds comp))

/-! ## Visibility -/

/-- The choice of a symbol is in y mode. -/
def inYMode (s : ι) : Get ι γ Bool :=
  match (k.sym s).choice with
  | none => pure false
  | some c => do
    let v ← choiceTriValue c
    pure (decide (v = 2))

/-- Without modules, a tristate is a bool. -/
def typeByModules (t : SymType) : Get ι γ SymType :=
  if t = .tristate then do
    let v ← triAndWrite k.modules
    pure (if v.1 = 0 then .bool else .tristate)
  else pure t

/-- `Symbol.type` -/
def type (s : ι) : Get ι γ SymType :=
  if (k.sym s).origType = .tristate then do
    let inY ← k.inYMode s
    if inY then pure .bool else k.typeByModules .tristate
  else pure (k.sym s).origType

/-- The greatest visibility of a prompt. -/
def promptVisibility : Tri → List (Expr ι γ) → Get ι γ Tri
  | vis, [] => pure vis
  | vis, e :: es => do
    let v ← k.exprValue e
    promptVisibility (max vis v) es

/-- Choice symbols that the mode of their choice makes invisible. -/
def hidden (s : ι) (vis : Tri) : Get ι γ Bool :=
  match (k.sym s).choice with
  | none => pure false
  | some c =>
    if (k.choice c).origType = .tristate ∧ (k.sym s).origType ≠ .tristate then do
      let v ← choiceTriValue c
      pure (decide (v ≠ 2))
    else if (k.sym s).origType = .tristate ∧ vis = 1 then do
      let v ← choiceTriValue c
      pure (decide (v = 2))
    else pure false

/-- m is promoted to y for what is no tristate. -/
def promoted (vis : Tri) (type : Get ι γ SymType) : Get ι γ Tri :=
  if vis = 1 then do
    let t ← type
    pure (if t = .tristate then 1 else 2)
  else pure vis

/-- `_visibility` of a symbol -/
def visibilityTask (s : ι) : Get ι γ Tri := do
  let vis ← k.promptVisibility 0 (k.sym s).prompts
  let hid ← k.hidden s vis
  if hid then pure 0 else promoted vis (k.type s)

/-- `_visibility` of a choice -/
def choiceVisibilityTask (c : γ) : Get ι γ Tri := do
  let vis ← k.promptVisibility 0 (k.choice c).prompts
  promoted vis (k.typeByModules (k.choice c).origType)

/-! ## Tristate values -/

/-- The first default whose condition is not n. -/
def triDefault : List (Expr ι γ × Expr ι γ) → Get ι γ Tri
  | [] => pure 0
  | (default, cond) :: ds => do
    let depVal ← k.exprValue cond
    if depVal = 0 then triDefault ds
    else do
      let v ← k.exprValue default
      pure (min v depVal)

/-- The implies, which only count where the direct dependencies are met. -/
def withImplies (s : ι) (val : Tri × Bool) : Get ι γ (Tri × Bool) := do
  let depVal ← k.exprValue (k.sym s).weakRevDep
  if depVal = 0 then pure val
  else do
    let direct ← k.exprValue (k.sym s).directDep
    pure (if direct = 0 then val else (max depVal val.1, true))

/-- The selects. The direct dependencies are read for a warning. -/
def withSelects (s : ι) (val : Tri × Bool) : Get ι γ (Tri × Bool) := do
  let depVal ← k.exprValue (k.sym s).revDep
  if depVal = 0 then pure val
  else do
    let _ ← k.exprValue (k.sym s).directDep
    pure (max depVal val.1, true)

/-- m is promoted to y for a bool, and for what is implied with y. -/
def promotedValue (s : ι) (val : Tri × Bool) : Get ι γ (Tri × Bool) :=
  if val.1 = 1 then do
    let t ← k.type s
    if t = .bool then pure (2, val.2)
    else do
      let weak ← k.exprValue (k.sym s).weakRevDep
      pure (if weak = 2 then 2 else 1, val.2)
  else pure val

/-- The value that the user set, if it counts. -/
def userTri (s : ι) (vis : Tri) : Get ι γ (Option Tri) :=
  if vis = 0 then pure none
  else do
    let user ← userValue s
    pure (triSet user)

/-- The value from the user, or else from the defaults and the implies. -/
def ownTri (s : ι) (vis : Tri) : Get ι γ (Tri × Bool) := do
  let user ← userTri s vis
  match user with
  | some v => pure (min v vis, decide (vis ≠ 0))
  | none => do
    let v ← k.triDefault (k.sym s).defaults
    k.withImplies s (v, decide (vis ≠ 0) || decide (v ≠ 0))

/-- A symbol that is in no choice. -/
def plainTri (s : ι) (vis : Tri) : Get ι γ (Tri × Bool) := do
  let own ← k.ownTri s vis
  let selected ← k.withSelects s own
  k.promotedValue s selected

section

variable [DecidableEq ι]

/-- A symbol of a choice: in y mode only the selection is y, and in m mode what the user
set is m. -/
def choiceSymTri (s : ι) (c : γ) (vis : Tri) : Get ι γ (Tri × Bool) :=
  if vis = 2 then do
    let sel ← selection c
    pure (if sel = some s then 2 else 0, true)
  else do
    let user ← userTri s vis
    match user with
    | some v => pure (if v = 0 then 0 else 1, decide (vis ≠ 0))
    | none => pure (0, decide (vis ≠ 0))

/-- `Symbol.tri_value` -/
def triTask (s : ι) : Get ι γ (Tri × Bool) :=
  if (k.sym s).origType.isBoolTristate then do
    let vis ← visibility s
    match (k.sym s).choice with
    | none => k.plainTri s vis
    | some c => choiceSymTri s c vis
  else pure (0, false)

end

/-! ## Other values -/

/-- A text as a number, where one that is none counts as 0. -/
def toNum (base : ℕ) (s : Line) : ℤ := (Python.int base s).getD 0

/-- The first range whose condition is not n. -/
def activeRange (base : ℕ) : List (Operand ι × Operand ι × Expr ι γ) → Get ι γ (Option (ℤ × ℤ))
  | [] => pure none
  | (low, high, cond) :: rs => do
    let v ← k.exprValue cond
    if v = 0 then activeRange base rs
    else do
      let l ← strValue low
      let h ← strValue high
      pure (some (toNum base l, toNum base h))

/-- The string value of a default, which is a symbol for all but the bool and tristate
ones (`_check_sym_sanity`). -/
def defaultStr : Expr ι γ → Get ι γ Line
  | .operand o => strValue o
  | _ => pure []

/-- The first default whose condition is not n. -/
def strDefault : List (Expr ι γ × Expr ι γ) → Get ι γ (Option Line)
  | [] => pure none
  | (default, cond) :: ds => do
    let v ← k.exprValue cond
    if v = 0 then strDefault ds
    else do
      let s ← defaultStr default
      pure (some s)

def inRange (range : Option (ℤ × ℤ)) (z : ℤ) : Bool :=
  match range with
  | some (low, high) => decide (low ≤ z ∧ z ≤ high)
  | none => true

/-- A text that is a number within the range. -/
def allowed (base : ℕ) (range : Option (ℤ × ℤ)) (val : Line) : Bool :=
  match Python.int base val with
  | some z => inRange range z
  | none => false

/-- A default, which is rewritten if the range clamps it. -/
def clamped (t : SymType) (range : Option (ℤ × ℤ)) (val : Line) : Line :=
  let num := toNum t.base val
  match range with
  | none => val
  | some (low, high) =>
    if num < low then (if t = .int then Python.str low else Python.hex low)
    else if num > high then (if t = .int then Python.str high else Python.hex high)
    else val

/-- The value that the user set, if it counts: a number within the range. -/
def userNum (s : ι) (vis : Tri) (range : Option (ℤ × ℤ)) : Get ι γ (Option Line) :=
  if vis = 0 then pure none
  else do
    let user ← userValue s
    pure ((strSet user).filter (allowed (k.sym s).origType.base range))

/-- The value of an int or hex symbol. -/
def numValue (s : ι) (vis : Tri) : Get ι γ (Line × Bool) := do
  let range ← k.activeRange (k.sym s).origType.base (k.sym s).ranges
  let user ← k.userNum s vis range
  match user with
  | some val => pure (val, decide (vis ≠ 0))
  | none => do
    let default ← k.strDefault (k.sym s).defaults
    match default with
    | some val => pure (clamped (k.sym s).origType range val, true)
    | none => pure (clamped (k.sym s).origType range [], decide (vis ≠ 0))

/-- The value that the user set, if it counts. -/
def userStr (s : ι) (vis : Tri) : Get ι γ (Option Line) :=
  if vis = 0 then pure none
  else do
    let user ← userValue s
    pure (strSet user)

/-- The value of a string symbol. -/
def stringValue (s : ι) (vis : Tri) : Get ι γ (Line × Bool) := do
  let user ← userStr s vis
  match user with
  | some val => pure (val, decide (vis ≠ 0))
  | none => do
    let default ← k.strDefault (k.sym s).defaults
    match default with
    | some val => pure (val, true)
    | none => pure ([], decide (vis ≠ 0))

/-- The value of a symbol that is not bool or tristate. -/
def ownStr (s : ι) (vis : Tri) : Get ι γ (Line × Bool) :=
  if (k.sym s).origType.isIntHex then k.numValue s vis else k.stringValue s vis

/-- `Symbol.str_value` -/
def strTask (s : ι) : Get ι γ (Line × Bool) :=
  if (k.sym s).origType.isBoolTristate then do
    let v ← triAndWrite s
    pure (triToStr v.1, v.2)
  else if (k.sym s).origType = .unknown then pure ((k.sym s).name, false)
  else do
    let vis ← visibility s
    let v ← k.ownStr s vis
    pure (v.1, if (k.sym s).auto then false else v.2)

/-! ## Assignable values -/

/-- `self.type is BOOL or expr_value(self.weak_rev_dep) == 2` -/
def onlyBool (s : ι) : Get ι γ Bool := do
  let t ← k.type s
  if t = .bool then pure true
  else do
    let weak ← k.exprValue (k.sym s).weakRevDep
    pure (decide (weak = 2))

/-- `Symbol._assignable`, where the symbol is visible -/
def assignableAt (s : ι) (vis revDep : Tri) : Get ι γ (List Tri) :=
  if vis = 2 then
    if (k.sym s).choice.isSome then pure [2]
    else if revDep = 0 then do
      let b ← k.onlyBool s
      pure (if b then [0, 2] else [0, 1, 2])
    else if revDep = 2 then pure [2]
    else do
      let b ← k.onlyBool s
      pure (if b then [2] else [1, 2])
  else if revDep = 0 then do
    let weak ← k.exprValue (k.sym s).weakRevDep
    pure (if weak ≠ 2 then [0, 1] else [0, 2])
  else if revDep = 2 then pure [2]
  else pure [1]

/-- `Symbol._assignable` -/
def assignableTask (s : ι) : Get ι γ (List Tri) :=
  if (k.sym s).origType.isBoolTristate then do
    let vis ← visibility s
    if vis = 0 then pure []
    else do
      let revDep ← k.exprValue (k.sym s).revDep
      k.assignableAt s vis revDep
  else pure []

/-! ## Choices -/

/-- The mode that the user set, not below m unless the choice is optional, and limited by the
visibility. -/
def limitedMode (c : γ) (user : Option Tri) (vis : Tri) : Tri :=
  min (max (if (k.choice c).isOptional then 0 else 1) (user.getD 0)) vis

/-- `Choice.tri_value`, with the mode that the user set -/
def choiceTriTask (c : γ) (user : Option Tri) : Get ι γ Tri := do
  let vis ← choiceVisibility c
  if k.limitedMode c user vis = 1 then do
    let t ← k.typeByModules (k.choice c).origType
    pure (if t = .bool then 2 else 1)
  else pure (k.limitedMode c user vis)

/-- `Choice._assignable` -/
def choiceAssignableTask (c : γ) : Get ι γ (List Tri) := do
  let vis ← choiceVisibility c
  if vis = 0 then pure []
  else if vis = 2 then do
    let t ← k.typeByModules (k.choice c).origType
    pure (if (k.choice c).isOptional then (if t = .bool then [0, 2] else [0, 1, 2])
      else if t = .bool then [2] else [1, 2])
  else pure (if (k.choice c).isOptional then [0, 1] else [1])

/-- The first visible symbol. -/
def firstVisible : List ι → Get ι γ (Option ι)
  | [] => pure none
  | s :: ss => do
    let vis ← visibility s
    if vis = 0 then firstVisible ss else pure (some s)

/-- `_selection_from_defaults` -/
def selectionFromDefaults (syms : List ι) : List (ι × Expr ι γ) → Get ι γ (Option ι)
  | [] => firstVisible syms
  | (s, cond) :: ds => do
    let v ← k.exprValue cond
    if v = 0 then selectionFromDefaults syms ds
    else do
      let vis ← visibility s
      if vis = 0 then selectionFromDefaults syms ds else pure (some s)

/-- The selection in y mode. -/
def selectionInY (c : γ) (user : Option ι) : Get ι γ (Option ι) :=
  match user with
  | none => k.selectionFromDefaults (k.choice c).syms (k.choice c).defaults
  | some s => do
    let vis ← visibility s
    if vis = 0 then k.selectionFromDefaults (k.choice c).syms (k.choice c).defaults
    else pure (some s)

/-- `Choice._selection`, with the symbol that the user selected -/
def selectionTask (c : γ) (user : Option ι) : Get ι γ (Option ι) := do
  let v ← choiceTriValue c
  if v = 2 then k.selectionInY c user else pure none

/-! ## All values -/

variable [DecidableEq ι]

/-- How each value is computed. -/
def tasks (u : User ι γ) : (key : Key ι γ) → Get ι γ (Val key)
  | .visibility s => k.visibilityTask s
  | .triValue s => k.triTask s
  | .strValue s => k.strTask s
  | .assignable s => k.assignableTask s
  | .userValue s => (pure (u.value s) : Get ι γ (Option UserValue))
  | .choiceVisibility c => k.choiceVisibilityTask c
  | .choiceTriValue c => k.choiceTriTask c (u.mode c)
  | .choiceAssignable c => k.choiceAssignableTask c
  | .selection c => k.selectionTask c (u.selection c)

end Kconfig

/-! ## Short circuits -/

/-- What an assignment of values tells about the symbols and choices. -/
def Kconfig.reading (k : Kconfig ι γ) (env : ∀ key : Key ι γ, Val key) : Reading ι γ where
  origType s := (k.sym s).origType
  triValue s := Prod.fst (β := Bool) (env (.triValue s))
  strValue s := Prod.fst (β := Bool) (env (.strValue s))
  choice c := env (.choiceTriValue c)

section

variable (k : Kconfig ι γ) (env : ∀ key : Key ι γ, Val key)

theorem run_triValue (o : Operand ι) : (triValue o).run env = (k.reading env).triOf o := by
  cases o with
  | tri v => rfl
  | const name => rfl
  | sym s => rfl

theorem run_strValue (o : Operand ι) : (strValue o).run env = (k.reading env).strOf o := by
  cases o with
  | tri v => rfl
  | const name => rfl
  | sym s => rfl

theorem typeOf_reading (o : Operand ι) : (k.reading env).typeOf o = k.origType o := by
  cases o with
  | tri v => rfl
  | const name => rfl
  | sym s => rfl

theorem run_symToNum (o : Operand ι) : (k.symToNum o).run env = (k.reading env).numOf o := by
  unfold Kconfig.symToNum Reading.numOf
  rw [typeOf_reading]
  split
  · rw [Task.run_bind, run_triValue k]
    rfl
  · rw [Task.run_bind, run_strValue k]
    rfl

theorem run_compareStr (o₁ o₂ : Operand ι) : (Kconfig.compareStr o₁ o₂).run env =
    strcmp ((k.reading env).strOf o₁) ((k.reading env).strOf o₂) := by
  unfold Kconfig.compareStr
  rw [Task.run_bind, Task.run_bind, run_strValue k, run_strValue k]
  rfl

theorem run_compare (o₁ o₂ : Operand ι) :
    (k.compare o₁ o₂).run env = (k.reading env).compare o₁ o₂ := by
  unfold Kconfig.compare Reading.compare
  rw [typeOf_reading, typeOf_reading]
  split
  · exact run_compareStr k env o₁ o₂
  · rw [Task.run_bind, run_symToNum]
    cases (k.reading env).numOf o₁ with
    | none => exact run_compareStr k env o₁ o₂
    | some a =>
      show Task.run env (k.symToNum o₂ >>= _) = _
      rw [Task.run_bind, run_symToNum]
      cases (k.reading env).numOf o₂ with
      | none => exact run_compareStr k env o₁ o₂
      | some b => rfl

/-- The value that the short circuits find is what the expression means. -/
theorem run_exprValue (e : Expr ι γ) : (k.exprValue e).run env = e.meaning (k.reading env) := by
  induction e with
  | operand o => exact run_triValue k env o
  | choice c => rfl
  | and e₁ e₂ ih₁ ih₂ =>
    simp only [Kconfig.exprValue, Expr.meaning, Task.run_bind, ih₁]
    split
    · rename_i h
      rw [h, (min_zero _).1]
      rfl
    · rw [Task.run_bind, ih₂]
      rfl
  | or e₁ e₂ ih₁ ih₂ =>
    simp only [Kconfig.exprValue, Expr.meaning, Task.run_bind, ih₁]
    split
    · rename_i h
      rw [h, (max_two _).1]
      rfl
    · rw [Task.run_bind, ih₂]
      rfl
  | not e ih =>
    simp only [Kconfig.exprValue, Expr.meaning, Task.run_bind, ih]
    rfl
  | rel r o₁ o₂ =>
    simp only [Kconfig.exprValue, Expr.meaning, Task.run_bind, run_compare]
    rfl

end

end HassOS.Kconfiglib
