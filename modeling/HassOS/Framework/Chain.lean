import Mathlib.Data.List.Basic

/-!
# Chains of firewall rules

A packet goes through the rules of a chain in order, and the first one that
matches decides (`verdict`). Rules that accept take packets from what the later
ones drop (`drops_accepts_append`).
-/

namespace HassOS.Framework

inductive Target where
  | accept
  | drop
  deriving DecidableEq

/-- A rule for packets `π`. -/
structure Rule (π : Type) where
  test : π → Bool
  target : Target

variable {π : Type}

/-- What the chain decides, unless no rule matches. -/
def verdict (rules : List (Rule π)) (p : π) : Option Target := (rules.find? (·.test p)).map (·.target)

/-- The chain drops the packet. -/
def Drops (rules : List (Rule π)) (p : π) : Prop := verdict rules p = some .drop

variable {rules : List (Rule π)} {p : π} {r : Rule π}

@[simp] theorem not_drops_nil (p : π) : ¬ Drops [] p := fun h => Option.some_ne_none _ h.symm

theorem drops_cons_of_test (h : r.test p = true) : Drops (r :: rules) p ↔ r.target = .drop := by
  rw [Drops, verdict, List.find?_cons_of_pos (p := fun r : Rule π => r.test p) h, Option.map_some,
    Option.some.injEq]

theorem drops_cons_of_not_test (h : ¬ r.test p = true) : Drops (r :: rules) p ↔ Drops rules p := by
  rw [Drops, verdict, List.find?_cons_of_neg (p := fun r : Rule π => r.test p) h]
  rfl

theorem drops_singleton (h : r.target = .drop) : Drops [r] p ↔ r.test p = true := by
  by_cases ht : r.test p = true
  · simp only [drops_cons_of_test ht, h, ht]
  · simp only [drops_cons_of_not_test ht, not_drops_nil, ht, Bool.false_eq_true]

/-- Behind rules that accept, a packet is dropped if none of them matches. -/
theorem drops_accepts_append {accepts : List (Rule π)} (h : ∀ r ∈ accepts, r.target = .accept) :
    Drops (accepts ++ rules) p ↔ (∀ r ∈ accepts, ¬ r.test p = true) ∧ Drops rules p := by
  induction accepts with
  | nil => simp
  | cons r accepts ih =>
    rw [List.cons_append, List.forall_mem_cons]
    have hrest := ih fun r hr => h r (List.mem_cons_of_mem _ hr)
    by_cases ht : r.test p = true
    · rw [drops_cons_of_test ht, h r List.mem_cons_self]
      simp [ht]
    · rw [drops_cons_of_not_test ht, hrest, and_assoc]
      exact (and_iff_right ht).symm

end HassOS.Framework
