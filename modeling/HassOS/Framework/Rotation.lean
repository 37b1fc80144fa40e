import Mathlib.Algebra.BigOperators.Group.Finset.Piecewise
import Mathlib.Algebra.Group.Action.Defs
import Mathlib.Algebra.Order.BigOperators.Group.Finset
import Mathlib.Data.Nat.Count
import Mathlib.Logic.Function.Basic

/-!
# Rotations with a limited number of attempts

Candidates in an order of preference, each with a number of attempts left:
every turn goes to the first candidate that has one (`pick`), and uses it up
(`spend`). Over any number of turns a candidate gets what it had at the start
and no more (`count_add_leftAfter`), the turns go down the order and never
back (`moved_on`, `contiguous`), and they end after the sum of all attempts
(`pickAt_eq_none_iff`).
-/

namespace HassOS.Framework.Rotation

variable {α : Type}

/-- The first candidate with attempts left. -/
def pick (order : List α) (left : α → Nat) : Option α := order.find? fun a => 0 < left a

/-- `a` stands in the order, and no `b` before it. -/
def Precedes (order : List α) (a b : α) : Prop := ∃ pre post, order = pre ++ a :: post ∧ b ∉ pre

variable {order : List α} {left : α → Nat} {a b : α}

theorem pick_eq_some : pick order left = some a ↔
    0 < left a ∧ ∃ pre post, order = pre ++ a :: post ∧ ∀ b ∈ pre, left b = 0 := by
  simp only [pick, List.find?_eq_some_iff_append, decide_eq_true_eq, Bool.not_eq_eq_eq_not,
    Bool.not_true, decide_eq_false_iff_not, Nat.pos_iff_ne_zero, not_not]

theorem pick_eq_none : pick order left = none ↔ ∀ a ∈ order, left a = 0 := by
  simp [pick]

theorem left_pos (h : pick order left = some a) : 0 < left a := (pick_eq_some.mp h).1

theorem mem_order (h : pick order left = some a) : a ∈ order := by
  obtain ⟨-, pre, post, rfl, -⟩ := pick_eq_some.mp h
  simp

variable [DecidableEq α]

/-- One turn. -/
def spend (order : List α) (left : α → Nat) : α → Nat :=
  match pick order left with
  | some a => Function.update left a (left a - 1)
  | none => left

/-- The attempts left after `n` turns. -/
def leftAfter (order : List α) (left : α → Nat) : Nat → α → Nat
  | 0 => left
  | n + 1 => spend order (leftAfter order left n)

/-- The candidate of turn `n`. -/
def pickAt (order : List α) (left : α → Nat) (n : Nat) : Option α :=
  pick order (leftAfter order left n)

theorem spend_of_some (h : pick order left = some a) :
    spend order left = Function.update left a (left a - 1) := by
  rw [spend, h]

theorem spend_of_none (h : pick order left = none) : spend order left = left := by
  rw [spend, h]

theorem spend_le (order : List α) (left : α → Nat) (a : α) : spend order left a ≤ left a := by
  cases h : pick order left with
  | none => rw [spend_of_none h]
  | some b =>
    rw [spend_of_some h]
    by_cases e : a = b
    · rw [e, Function.update_self]
      omega
    · rw [Function.update_of_ne e]

theorem leftAfter_anti {m n : Nat} (h : m ≤ n) (a : α) :
    leftAfter order left n a ≤ leftAfter order left m a := by
  induction n, h using Nat.le_induction with
  | base => exact le_refl _
  | succ n _ ih => exact (spend_le _ _ a).trans ih

/-! ## How often -/

/-- What a candidate got and what it has left are what it had. -/
theorem count_add_leftAfter (order : List α) (left : α → Nat) (a : α) (n : Nat) :
    Nat.count (fun k => pickAt order left k = some a) n + leftAfter order left n a = left a := by
  induction n with
  | zero => simp [leftAfter]
  | succ n ih =>
    rw [Nat.count_succ, leftAfter]
    by_cases h : pickAt order left n = some a
    · have hp := left_pos h
      rw [if_pos h, spend_of_some h, Function.update_self]
      omega
    · have hs : spend order (leftAfter order left n) a = leftAfter order left n a := by
        cases hb : pickAt order left n with
        | none => rw [spend_of_none hb]
        | some b => rw [spend_of_some hb, Function.update_of_ne fun e => h (by rw [hb, e])]
      rw [if_neg h, hs]
      omega

theorem count_le (order : List α) (left : α → Nat) (a : α) (n : Nat) :
    Nat.count (fun k => pickAt order left k = some a) n ≤ left a := by
  have := count_add_leftAfter order left a n
  omega

/-! ## In which order -/

/-- Once the turns have moved on from a candidate, it has no attempts left. -/
theorem moved_on {i j : Nat} (hij : i ≤ j) (hi : pickAt order left i = some a)
    (hj : pickAt order left j = some b) (hab : a ≠ b) :
    leftAfter order left j a = 0 ∧ Precedes order a b := by
  obtain ⟨-, pre, post, ho, hpre⟩ := pick_eq_some.mp hi
  have hz : ∀ c ∈ pre, leftAfter order left j c = 0 := fun c hc => by
    have h1 := hpre c hc
    have h2 : leftAfter order left j c ≤ leftAfter order left i c := leftAfter_anti hij c
    omega
  have hb := left_pos hj
  refine ⟨?_, pre, post, ho, fun hm => ?_⟩
  · by_contra hne
    have : pickAt order left j = some a :=
      pick_eq_some.mpr ⟨Nat.pos_of_ne_zero hne, pre, post, ho, hz⟩
    exact hab (Option.some.inj (this.symm.trans hj))
  · have := hz b hm
    omega

theorem no_return {i j k : Nat} (hij : i ≤ j) (hjk : j ≤ k) (hi : pickAt order left i = some a)
    (hj : pickAt order left j = some b) (hab : a ≠ b) : pickAt order left k ≠ some a := by
  intro hk
  have h1 := (moved_on hij hi hj hab).1
  have h2 : leftAfter order left k a ≤ leftAfter order left j a := leftAfter_anti hjk a
  have h3 := left_pos hk
  omega

/-- The turns of a candidate follow each other. -/
theorem contiguous {i j k : Nat} (hij : i ≤ j) (hjk : j ≤ k) (hi : pickAt order left i = some a)
    (hk : pickAt order left k = some a) : pickAt order left j = some a := by
  have hpos : 0 < leftAfter order left j a := by
    have h1 : leftAfter order left k a ≤ leftAfter order left j a := leftAfter_anti hjk a
    have h2 := left_pos hk
    omega
  cases hj : pickAt order left j with
  | none =>
    have h0 := pick_eq_none.mp hj a (mem_order hi)
    omega
  | some b =>
    by_contra hne
    have h0 := (moved_on hij hi hj fun e => hne (by rw [e])).1
    omega

/-! ## How long -/

/-- All attempts in the order. -/
def total (order : List α) (left : α → Nat) : Nat := ∑ a ∈ order.toFinset, left a

theorem total_eq_zero : total order left = 0 ↔ pick order left = none := by
  simp only [total, Finset.sum_eq_zero_iff, List.mem_toFinset, pick_eq_none]

theorem total_spend (order : List α) (left : α → Nat) :
    total order (spend order left) = total order left - 1 := by
  cases ha : pick order left with
  | none => rw [spend_of_none ha, total_eq_zero.mpr ha]
  | some a =>
    have hm : a ∈ order.toFinset := List.mem_toFinset.mpr (mem_order ha)
    have hp := left_pos ha
    have h1 := Finset.sum_update_of_mem hm left (left a - 1)
    have h2 := Finset.add_sum_erase order.toFinset left hm
    rw [← Finset.sdiff_singleton_eq_erase] at h2
    rw [spend_of_some ha]
    unfold total
    omega

theorem total_leftAfter (order : List α) (left : α → Nat) (n : Nat) :
    total order (leftAfter order left n) = total order left - n := by
  induction n with
  | zero => rfl
  | succ n ih =>
    rw [leftAfter, total_spend, ih]
    omega

/-- The turns end after the sum of all attempts. -/
theorem pickAt_eq_none_iff {n : Nat} : pickAt order left n = none ↔ total order left ≤ n := by
  rw [pickAt, ← total_eq_zero, total_leftAfter]
  omega

theorem total_le {m : Nat} (hm : ∀ a, left a ≤ m) : total order left ≤ order.toFinset.card * m := by
  rw [total, ← smul_eq_mul]
  exact Finset.sum_le_card_nsmul _ _ _ fun a _ => hm a

end HassOS.Framework.Rotation
