import HassOS.Framework.Run
import Mathlib.Logic.Function.Basic

/-!
# Variables of a shell

The values of variables (a function of their names), the settings of a file that
is imported (`assign`: the last one counts), and what two valuations have in
common (`Agree`), which is kept when both are set alike, or elsewhere.
-/

namespace HassOS.Framework

variable {X V : Type} [DecidableEq X]

/-- The settings, first to last. -/
def assign (v : X → V) (es : List (X × V)) : X → V := run (fun v e => Function.update v e.1 e.2) v es

/-- What the settings leave a variable with, if they set it. -/
def lastSet (es : List (X × V)) (x : X) : Option V := (es.filter (·.1 = x)).getLast?.map Prod.snd

/-- The variables `xs` have the same values. -/
def Agree (xs : List X) (v w : X → V) : Prop := ∀ x ∈ xs, v x = w x

theorem assign_apply (v : X → V) (es : List (X × V)) (x : X) :
    assign v es x = (lastSet es x).getD (v x) :=
  run_last (fun v : X → V => v x) (fun e : X × V => decide (e.1 = x))
    (fun v e => by simp [Function.update_apply, eq_comm]) v es

section

variable {xs : List X} {v w : X → V} {x : X}

theorem Agree.set (h : Agree xs v w) (x : X) (l : V) :
    Agree xs (Function.update v x l) (Function.update w x l) := by
  intro y hy
  by_cases hx : y = x
  · rw [hx, Function.update_self, Function.update_self]
  · rw [Function.update_of_ne hx, Function.update_of_ne hx, h y hy]

theorem Agree.set_other (h : Agree xs v w) (hx : x ∉ xs) (l m : V) :
    Agree xs (Function.update v x l) (Function.update w x m) := by
  intro y hy
  have hne : y ≠ x := fun e => hx (e ▸ hy)
  rw [Function.update_of_ne hne, Function.update_of_ne hne, h y hy]

theorem Agree.assign {es es' : List (X × V)} (h : Agree xs v w)
    (hes : ∀ x ∈ xs, lastSet es x = lastSet es' x) :
    Agree xs (Framework.assign v es) (Framework.assign w es') := by
  intro x hx
  rw [assign_apply, assign_apply, hes x hx, h x hx]

end

end HassOS.Framework
