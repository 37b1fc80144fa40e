import HassOS.Framework.Python
import Mathlib.Algebra.GroupWithZero.Nat
import Mathlib.Data.Fin.Basic
import Mathlib.Order.Fin.Basic

/-!
# Expressions (`kconfiglib.py`)

Symbols, choices and constants under `&&`, `||`, `!` and comparisons, over the values n, m
and y (0, 1 and 2). `Expr.meaning` is what an expression means, given the values of what
appears in it.

The parser and the propagation of dependencies build expressions with `makeAnd` and
`makeOr`, which simplify them and keep the meaning (`meaning_makeAnd`, `meaning_makeOr`).
-/

namespace HassOS.Kconfiglib

open Framework

abbrev Tri := Fin 3

instance Tri.instNeZero : NeZero 3 := ⟨Nat.succ_ne_zero 2⟩

/-- `TRI_TO_STR` -/
def triToStr (v : Tri) : Line := if v = 0 then ['n'] else if v = 1 then ['m'] else ['y']

inductive SymType where
  | unknown
  | bool
  | tristate
  | string
  | int
  | hex
  deriving DecidableEq

namespace SymType

/-- `_BOOL_TRISTATE` -/
def isBoolTristate (t : SymType) : Bool := t = bool || t = tristate

/-- `_INT_HEX` -/
def isIntHex (t : SymType) : Bool := t = int || t = hex

/-- `_TYPE_TO_BASE` -/
def base : SymType → ℕ
  | hex => 16
  | int => 10
  | _ => 0

end SymType

variable {ι γ : Type}

/-- What stands for a symbol in an expression: `n`, `m` or `y`, another constant symbol, or
a symbol. -/
inductive Operand (ι : Type) where
  | tri (v : Tri)
  | const (name : Line)
  | sym (s : ι)
  deriving DecidableEq

inductive Rel where
  | equal
  | unequal
  | less
  | lessEqual
  | greater
  | greaterEqual
  deriving DecidableEq

inductive Expr (ι γ : Type) where
  | operand (o : Operand ι)
  | choice (c : γ)
  | and (e₁ e₂ : Expr ι γ)
  | or (e₁ e₂ : Expr ι γ)
  | not (e : Expr ι γ)
  | rel (r : Rel) (o₁ o₂ : Operand ι)
  deriving DecidableEq

namespace Expr

def n : Expr ι γ := operand (.tri 0)

def m : Expr ι γ := operand (.tri 1)

def y : Expr ι γ := operand (.tri 2)

def sym (s : ι) : Expr ι γ := operand (.sym s)

end Expr

/-- A symbol or a choice. -/
inductive Item (ι γ : Type) where
  | sym (s : ι)
  | choice (c : γ)
  deriving DecidableEq

def Operand.items : Operand ι → List (Item ι γ)
  | sym s => [.sym s]
  | _ => []

/-- `expr_items`, without the constant symbols -/
def exprItems : Expr ι γ → List (Item ι γ)
  | .operand o => o.items
  | .choice c => [.choice c]
  | .and e₁ e₂ => exprItems e₁ ++ exprItems e₂
  | .or e₁ e₂ => exprItems e₁ ++ exprItems e₂
  | .not e => exprItems e
  | .rel _ o₁ o₂ => o₁.items ++ o₂.items

section

variable [DecidableEq ι] [DecidableEq γ]

/-- `_make_and` -/
def makeAnd (e₁ e₂ : Expr ι γ) : Expr ι γ :=
  if e₁ = .y then e₂
  else if e₂ = .y then e₁
  else if e₁ = .n ∨ e₂ = .n then .n
  else .and e₁ e₂

/-- `_make_or` -/
def makeOr (e₁ e₂ : Expr ι γ) : Expr ι γ :=
  if e₁ = .n then e₂
  else if e₂ = .n then e₁
  else if e₁ = .y ∨ e₂ = .y then .y
  else .or e₁ e₂

end

/-- `split_expr(expr, OR)` -/
def splitOr : Expr ι γ → List (Expr ι γ)
  | .or e₁ e₂ => splitOr e₁ ++ splitOr e₂
  | e => [e]

/-- `split_expr(expr, AND)` -/
def splitAnd : Expr ι γ → List (Expr ι γ)
  | .and e₁ e₂ => splitAnd e₁ ++ splitAnd e₂
  | e => [e]

/-- `_strcmp` -/
def strcmp (s₁ s₂ : Line) : ℤ := (if s₂ < s₁ then 1 else 0) - (if s₁ < s₂ then 1 else 0)

/-- The result of a relation. -/
def Rel.holds (r : Rel) (comp : ℤ) : Bool :=
  match r with
  | equal => comp = 0
  | unequal => comp ≠ 0
  | less => comp < 0
  | lessEqual => comp ≤ 0
  | greater => comp > 0
  | greaterEqual => comp ≥ 0

def ofBool (b : Bool) : Tri := if b then 2 else 0

/-! ## Meaning -/

/-- What is known of the symbols and choices. -/
structure Reading (ι γ : Type) where
  origType : ι → SymType
  triValue : ι → Tri
  strValue : ι → Line
  choice : γ → Tri

namespace Reading

variable (ρ : Reading ι γ)

def typeOf : Operand ι → SymType
  | .tri _ => .tristate
  | .const _ => .unknown
  | .sym s => ρ.origType s

def triOf : Operand ι → Tri
  | .tri v => v
  | .const _ => 0
  | .sym s => ρ.triValue s

def strOf : Operand ι → Line
  | .tri v => triToStr v
  | .const name => name
  | .sym s => ρ.strValue s

/-- `_sym_to_num` -/
def numOf (o : Operand ι) : Option ℤ :=
  if (ρ.typeOf o).isBoolTristate then some ((ρ.triOf o).val : ℤ)
  else Python.int (ρ.typeOf o).base (ρ.strOf o)

/-- Two operands compare as numbers, unless both are strings or one is no number. -/
def compare (o₁ o₂ : Operand ι) : ℤ :=
  if ρ.typeOf o₁ = .string ∧ ρ.typeOf o₂ = .string then strcmp (ρ.strOf o₁) (ρ.strOf o₂)
  else
    match ρ.numOf o₁, ρ.numOf o₂ with
    | some a, some b => a - b
    | _, _ => strcmp (ρ.strOf o₁) (ρ.strOf o₂)

end Reading

/-- The value of an expression. -/
def Expr.meaning (ρ : Reading ι γ) : Expr ι γ → Tri
  | operand o => ρ.triOf o
  | choice c => ρ.choice c
  | and e₁ e₂ => min (e₁.meaning ρ) (e₂.meaning ρ)
  | or e₁ e₂ => max (e₁.meaning ρ) (e₂.meaning ρ)
  | not e => 2 - e.meaning ρ
  | rel r o₁ o₂ => ofBool (r.holds (ρ.compare o₁ o₂))

section

variable [DecidableEq ι] [DecidableEq γ] (ρ : Reading ι γ) (e₁ e₂ : Expr ι γ)

omit [DecidableEq ι] [DecidableEq γ] in
theorem meaning_n : (Expr.n : Expr ι γ).meaning ρ = 0 := rfl

omit [DecidableEq ι] [DecidableEq γ] in
theorem meaning_y : (Expr.y : Expr ι γ).meaning ρ = 2 := rfl

theorem min_two (v : Tri) : min 2 v = v ∧ min v 2 = v := by
  revert v
  decide

theorem max_two (v : Tri) : max 2 v = 2 ∧ max v 2 = 2 := by
  revert v
  decide

theorem min_zero (v : Tri) : min 0 v = 0 ∧ min v 0 = 0 := by
  revert v
  decide

theorem max_zero (v : Tri) : max 0 v = v ∧ max v 0 = v := by
  revert v
  decide

theorem meaning_makeAnd : (makeAnd e₁ e₂).meaning ρ = min (e₁.meaning ρ) (e₂.meaning ρ) := by
  unfold makeAnd
  split
  · rename_i h
    rw [h, meaning_y, (min_two _).1]
  · split
    · rename_i h
      rw [h, meaning_y, (min_two _).2]
    · split
      · rename_i h
        rcases h with h | h
        · rw [h, meaning_n, (min_zero _).1]
        · rw [h, meaning_n, (min_zero _).2]
      · rfl

theorem meaning_makeOr : (makeOr e₁ e₂).meaning ρ = max (e₁.meaning ρ) (e₂.meaning ρ) := by
  unfold makeOr
  split
  · rename_i h
    rw [h, meaning_n, (max_zero _).1]
  · split
    · rename_i h
      rw [h, meaning_n, (max_zero _).2]
    · split
      · rename_i h
        rcases h with h | h
        · rw [h, meaning_y, (max_two _).1]
        · rw [h, meaning_y, (max_two _).2]
      · rfl

end

end HassOS.Kconfiglib
