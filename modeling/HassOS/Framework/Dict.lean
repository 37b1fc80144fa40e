import Mathlib.Data.List.Nodup

/-!
# Dictionaries that keep the order of insertion

A key that is set again keeps its place (`set`), as do the keys of a dictionary
that is updated from another (`update`). A key has the value that was set last
(`get?_set`, `get?_update`), and stands in the list of items once (`mem_items`).
-/

namespace HassOS.Framework

structure Dict (κ ν : Type) where
  items : List (κ × ν)
  nodup : (items.map Prod.fst).Nodup

namespace Dict

section

variable {κ ν : Type} [DecidableEq κ]

def empty : Dict κ ν := ⟨[], List.nodup_nil⟩

/-- `d.get(k)` -/
def get? (d : Dict κ ν) (k : κ) : Option ν := (d.items.find? (·.1 = k)).map (·.2)

/-- The items after `d[k] = v`. -/
def setItems (k : κ) (v : ν) : List (κ × ν) → List (κ × ν)
  | [] => [(k, v)]
  | p :: items => if p.1 = k then (k, v) :: items else p :: setItems k v items

variable {items : List (κ × ν)} {k k' : κ} {v : ν}

theorem mem_keys_setItems :
    k' ∈ (setItems k v items).map Prod.fst ↔ k' = k ∨ k' ∈ items.map Prod.fst := by
  induction items with
  | nil => simp [setItems]
  | cons p items ih =>
    simp only [setItems]
    split
    · rename_i hp
      simp [hp]
    · rw [List.map_cons, List.mem_cons, ih, List.map_cons, List.mem_cons, or_left_comm]

theorem nodup_setItems (h : (items.map Prod.fst).Nodup) :
    ((setItems k v items).map Prod.fst).Nodup := by
  induction items with
  | nil => exact List.nodup_singleton k
  | cons p items ih =>
    rw [List.map_cons, List.nodup_cons] at h
    simp only [setItems]
    split
    · rename_i hp
      rw [List.map_cons, List.nodup_cons, ← hp]
      exact h
    · rename_i hp
      rw [List.map_cons, List.nodup_cons, mem_keys_setItems]
      exact ⟨by simp only [hp, h.1, or_self, not_false_eq_true], ih h.2⟩

theorem find?_setItems : ((setItems k v items).find? (·.1 = k')).map (·.2) =
    if k' = k then some v else (items.find? (·.1 = k')).map (·.2) := by
  induction items with
  | nil =>
    by_cases h : k' = k
    · simp [setItems, h]
    · simp [setItems, h, Ne.symm h]
  | cons p items ih =>
    simp only [setItems]
    split
    · rename_i hp
      by_cases h : k' = k
      · simp [h]
      · simp [h, hp, Ne.symm h]
    · rename_i hp
      by_cases h : p.1 = k'
      · simp [h, show k' ≠ k from h ▸ hp]
      · simpa [h] using ih

/-- `d[k] = v` -/
def set (d : Dict κ ν) (k : κ) (v : ν) : Dict κ ν := ⟨setItems k v d.items, nodup_setItems d.nodup⟩

/-- `d.update(e)` -/
def update (d e : Dict κ ν) : Dict κ ν := e.items.foldl (fun d p => d.set p.1 p.2) d

variable {d e : Dict κ ν}

@[simp] theorem get?_empty : (empty : Dict κ ν).get? k = none := rfl

theorem get?_set : (d.set k v).get? k' = if k' = k then some v else d.get? k' := find?_setItems

/-- An item of a dictionary is what its key has. -/
theorem mem_items : (k, v) ∈ d.items ↔ d.get? k = some v := by
  unfold get?
  constructor
  · intro h
    obtain ⟨p, hp⟩ : ∃ p, d.items.find? (·.1 = k) = some p := by
      rw [← Option.isSome_iff_exists, List.find?_isSome]
      exact ⟨_, h, by simp⟩
    have hm : p ∈ d.items := List.mem_of_find?_eq_some hp
    have hk : p.1 = k := by simpa using List.find?_some hp
    rw [hp, List.inj_on_of_nodup_map d.nodup hm h hk]
    rfl
  · intro h
    obtain ⟨p, hp, rfl⟩ := Option.map_eq_some_iff.mp h
    have hk : p.1 = k := by simpa using List.find?_some hp
    rw [← hk]
    exact List.mem_of_find?_eq_some hp

theorem get?_foldl_set (hn : (items.map Prod.fst).Nodup) :
    (items.foldl (fun d p => d.set p.1 p.2) d).get? k =
      ((items.find? (·.1 = k)).map (·.2)).or (d.get? k) := by
  induction items generalizing d with
  | nil => rfl
  | cons p items ih =>
    rw [List.map_cons, List.nodup_cons] at hn
    rw [List.foldl_cons, ih hn.2, get?_set]
    by_cases h : p.1 = k
    · -- The key is set here, and no later item sets it again.
      have hlater : items.find? (·.1 = k) = none := by
        rw [List.find?_eq_none]
        intro q hq
        have hmem : q.1 ∈ items.map Prod.fst := List.mem_map_of_mem hq
        rw [decide_eq_true_eq]
        exact fun hqk => hn.1 (by rwa [h, ← hqk])
      simp [h, hlater]
    · simp [h, Ne.symm h]

/-- The dictionary that updates comes first. -/
theorem get?_update : (d.update e).get? k = (e.get? k).or (d.get? k) := get?_foldl_set e.nodup

end

end Dict

end HassOS.Framework
