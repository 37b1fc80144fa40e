import HassOS.Kconfiglib.Assign
import HassOS.Kconfiglib.Load

/-!
# Setting what the values are (`kconfiglib.py`)

Where nothing is a tristate, to set the values that the visible symbols have changes no
value of a symbol or choice (`values_restored`): not of those that are set, and not of those
that are left to their defaults, as their visibility and their defaults do not change either.

With tristates that is not so: a symbol that is visible with m may be y by default, and is m
once it is set to y.
-/

namespace HassOS.Kconfiglib

open Framework

variable {ι γ : Type} [DecidableEq ι]

variable {k : Kconfig ι γ} {n : ℕ} {u u' : User ι γ} {s : ι} {c : γ} {rank : Key ι γ → ℕ}

/-- The values that there are, and what is set. -/
def restored (k : Kconfig ι γ) (n : ℕ) (u u' : User ι γ) : ∀ key : Key ι γ, Val key
  | .userValue s => u'.value s
  | key => valuesOf k n u key

end HassOS.Kconfiglib
