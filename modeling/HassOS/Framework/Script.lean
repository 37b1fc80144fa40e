import Mathlib.Logic.Basic

/-!
# Shell scripts as sequences of atomic operations

A script that no other writer interferes with, over a state `σ`: it looks at
the state, applies one atomic operation after another, and ends with a result
(`Script`). `Script.run` is an undisturbed run. `Script.cut n` is the state
found after a power loss that struck once `n` operations were done.

Two rules carry every proof about a script: `Script.Keeps` (each operation
keeps an invariant, so that every cut and the whole run do) and `Script.Sim`
(two scripts in lockstep keep a relation at every cut and give the same
result).
-/

namespace HassOS.Framework

/-- A script over the states `σ` with results in `α`. -/
inductive Script (σ α : Type) where
  /-- The script ends. -/
  | ret (a : α)
  /-- One atomic operation, then the rest. -/
  | act (f : σ → σ) (next : Script σ α)
  /-- The rest depends on the state found. -/
  | look (k : σ → Script σ α)

namespace Script

variable {σ τ α : Type}

/-- An undisturbed run: the state it leaves and its result. -/
def run : Script σ α → σ → σ × α
  | ret a, s => (s, a)
  | act f p, s => p.run (f s)
  | look k, s => (k s).run s

/-- The state after a power loss once `n` operations were done. -/
def cut : Script σ α → Nat → σ → σ
  | ret _, _, s => s
  | act _ _, 0, s => s
  | act f p, n + 1, s => p.cut n (f s)
  | look k, n, s => (k s).cut n s

@[simp] theorem run_ret (a : α) (s : σ) : (ret a : Script σ α).run s = (s, a) := rfl

@[simp] theorem run_act (f : σ → σ) (p : Script σ α) (s : σ) :
    (act f p).run s = p.run (f s) := rfl

@[simp] theorem run_look (k : σ → Script σ α) (s : σ) : (look k).run s = (k s).run s := rfl

@[simp] theorem cut_ret (a : α) (n : Nat) (s : σ) : (ret a : Script σ α).cut n s = s := rfl

@[simp] theorem cut_act_zero (f : σ → σ) (p : Script σ α) (s : σ) : (act f p).cut 0 s = s := rfl

@[simp] theorem cut_act_succ (f : σ → σ) (p : Script σ α) (n : Nat) (s : σ) :
    (act f p).cut (n + 1) s = p.cut n (f s) := rfl

@[simp] theorem cut_look (k : σ → Script σ α) (n : Nat) (s : σ) :
    (look k).cut n s = (k s).cut n s := rfl

/-! ## Invariants -/

/-- Run from `s`, every operation of the script keeps `I`. -/
def Keeps (I : σ → Prop) : Script σ α → σ → Prop
  | ret _, _ => True
  | act f p, s => I (f s) ∧ p.Keeps I (f s)
  | look k, s => (k s).Keeps I s

variable {I : σ → Prop}

@[simp] theorem keeps_ret (a : α) (s : σ) : (ret a : Script σ α).Keeps I s := trivial

@[simp] theorem keeps_act (f : σ → σ) (p : Script σ α) (s : σ) :
    (act f p).Keeps I s ↔ I (f s) ∧ p.Keeps I (f s) := Iff.rfl

@[simp] theorem keeps_look (k : σ → Script σ α) (s : σ) :
    (look k).Keeps I s ↔ (k s).Keeps I s := Iff.rfl

theorem Keeps.cut {p : Script σ α} {s : σ} (h : p.Keeps I s) (hs : I s) (n : Nat) :
    I (p.cut n s) := by
  induction p generalizing s n with
  | ret a => exact hs
  | act f p ih =>
    cases n with
    | zero => exact hs
    | succ n => exact ih h.2 h.1 n
  | look k ih => exact ih s h hs n

theorem Keeps.run {p : Script σ α} {s : σ} (h : p.Keeps I s) (hs : I s) : I (p.run s).1 := by
  induction p generalizing s with
  | ret a => exact hs
  | act f p ih => exact ih h.2 h.1
  | look k ih => exact ih s h hs

theorem Keeps.mono {J : σ → Prop} (hIJ : ∀ s, I s → J s) {p : Script σ α} {s : σ}
    (h : p.Keeps I s) : p.Keeps J s := by
  induction p generalizing s with
  | ret a => trivial
  | act f p ih => exact ⟨hIJ _ h.1, ih h.2⟩
  | look k ih => exact ih s h

/-! ## Simulation -/

/-- From `s` and `t`, the two scripts take their operations in lockstep, keep
`R` throughout and end with the same result. -/
inductive Sim (R : σ → τ → Prop) : Script σ α → Script τ α → σ → τ → Prop
  | ret {s : σ} {t : τ} (a : α) (h : R s t) : Sim R (.ret a) (.ret a) s t
  | act {f : σ → σ} {g : τ → τ} {p : Script σ α} {q : Script τ α} {s : σ} {t : τ} (h : R s t)
      (hn : Sim R p q (f s) (g t)) : Sim R (.act f p) (.act g q) s t
  | lookL {k : σ → Script σ α} {q : Script τ α} {s : σ} {t : τ} (h : Sim R (k s) q s t) :
      Sim R (.look k) q s t
  | lookR {p : Script σ α} {k : τ → Script τ α} {s : σ} {t : τ} (h : Sim R p (k t) s t) :
      Sim R p (.look k) s t

variable {R : σ → τ → Prop} {p : Script σ α} {q : Script τ α} {s : σ} {t : τ}

theorem Sim.cut (h : Sim R p q s t) (n : Nat) : R (p.cut n s) (q.cut n t) := by
  induction h generalizing n with
  | ret a h => exact h
  | act h _ ih =>
    cases n with
    | zero => exact h
    | succ n => exact ih n
  | lookL _ ih => exact ih n
  | lookR _ ih => exact ih n

theorem Sim.run (h : Sim R p q s t) : R (p.run s).1 (q.run t).1 ∧ (p.run s).2 = (q.run t).2 := by
  induction h with
  | ret a h => exact ⟨h, rfl⟩
  | act _ _ ih => exact ih
  | lookL _ ih => exact ih
  | lookR _ ih => exact ih

end Script

end HassOS.Framework
