import Mathlib.Data.Nat.Notation
import Mathlib.Logic.Basic

/-!
# Computations that read memory

A computation over a memory has a value and the addresses that it read
(`Reads`). It stays below a bound (`Below`) if all its parts do
(`below_bind`).
-/

namespace HassOS.Framework

/-- A value, and the addresses that were read for it, in order. -/
structure Reads (α : Type) where
  value : α
  addrs : List ℕ

namespace Reads

variable {α β : Type} {n : ℕ}

instance : Monad Reads where
  pure a := ⟨a, []⟩
  bind x f := ⟨(f x.value).value, x.addrs ++ (f x.value).addrs⟩

/-- The byte at an address. -/
def byte (memory : ℕ → UInt8) (ptr : ℕ) : Reads UInt8 := ⟨memory ptr, [ptr]⟩

/-- All that is read is below `n`. -/
def Below (x : Reads α) (n : ℕ) : Prop := ∀ a ∈ x.addrs, a < n

@[simp] theorem value_pure (a : α) : (pure a : Reads α).value = a := rfl

@[simp] theorem value_bind (x : Reads α) (f : α → Reads β) : (x >>= f).value = (f x.value).value := rfl

@[simp] theorem value_byte (memory : ℕ → UInt8) (ptr : ℕ) : (byte memory ptr).value = memory ptr := rfl

@[simp] theorem below_pure (a : α) : (pure a : Reads α).Below n := by
  intro b hb
  cases hb

@[simp] theorem below_bind (x : Reads α) (f : α → Reads β) :
    (x >>= f).Below n ↔ x.Below n ∧ (f x.value).Below n := List.forall_mem_append

@[simp] theorem below_byte (memory : ℕ → UInt8) (ptr : ℕ) : (byte memory ptr).Below n ↔ ptr < n :=
  List.forall_mem_singleton

end Reads

end HassOS.Framework
