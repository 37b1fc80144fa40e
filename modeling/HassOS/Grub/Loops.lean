import HassOS.Grub.Select

/-!
# Boot loops

Consecutive boots with no other writer of the environment block are the turns
of one rotation over the slots of `ORDER` (`pickAt_picked`). So the number of
boots that end in a normal entry is bounded, they go down `ORDER`, and what
follows is the rescue entry of a slot that is marked good
(`boot_loops_bounded`).
-/

namespace HassOS.Grub

open Framework

/-- The block after `n` boots. -/
def after (b : Block) : Nat → Block
  | 0 => b
  | n + 1 => (grubCfg (after b n)).2

/-- The value of `default` in boot `n`. -/
def defaultAt (b : Block) (n : Nat) : Option Int := (grubCfg (after b n)).1

/-- Boots change nothing but the attempts. -/
theorem loadEnv_after (b : Block) (n : Nat) :
    (loadEnv (after b n)).order = (loadEnv b).order ∧ (loadEnv (after b n)).ok = (loadEnv b).ok := by
  induction n with
  | zero => exact ⟨rfl, rfl⟩
  | succ n ih =>
    rw [after, loadEnv_grubCfg]
    split <;> exact ih

theorem left_after (b : Block) (n : Nat) : left (loadEnv (after b n)) =
    Rotation.leftAfter (slots (loadEnv b).order) (left (loadEnv b)) n := by
  induction n with
  | zero => rfl
  | succ n ih => rw [after, left_saved, (loadEnv_after b n).1, ih, Rotation.leftAfter]

/-- The slots picked are the turns of a rotation. -/
theorem pickAt_picked (b : Block) (n : Nat) : picked (loadEnv (after b n)) =
    Rotation.pickAt (slots (loadEnv b).order) (left (loadEnv b)) n := by
  rw [picked, (loadEnv_after b n).1, left_after, Rotation.pickAt]

/-- A boot ends in a normal entry exactly if its slot's turn has come. -/
theorem defaultAt_index {b : Block} {n : Nat} {S : Slot} : defaultAt b n = some (index S) ↔
    Rotation.pickAt (slots (loadEnv b).order) (left (loadEnv b)) n = some S := by
  rw [← pickAt_picked, defaultAt]
  cases h : picked (loadEnv (after b n)) with
  | some T =>
    rw [default_picked h, index_inj, Option.some.injEq]
  | none =>
    rw [default_rescue h]
    refine iff_of_false (fun hi => ?_) (by simp)
    obtain ⟨h99, hr⟩ := index_ne (S := S)
    split at hi
    · exact hr _ hi.symm
    · split at hi
      · exact hr _ hi.symm
      · exact h99 hi.symm

theorem defaultAt_rescue {b : Block} {n : Nat}
    (h : Rotation.pickAt (slots (loadEnv b).order) (left (loadEnv b)) n = none) :
    defaultAt b n = if (loadEnv b).ok .B = 1 then some (rescue .B)
      else if (loadEnv b).ok .A = 1 then some (rescue .A) else some 99 := by
  rw [← pickAt_picked] at h
  rw [defaultAt, default_rescue h, (loadEnv_after b n).2]

/-- Two slots have at most six attempts. -/
theorem total_le_six (e : Env) : Rotation.total (slots e.order) (left e) ≤ 6 := by
  have hc : (slots e.order).toFinset.card ≤ 2 := by
    have hs : (slots e.order).toFinset ⊆ {Slot.A, Slot.B} := fun S _ => by
      cases S <;> decide
    exact (Finset.card_le_card hs).trans (by decide)
  have ht : Rotation.total (slots e.order) (left e) ≤ _ := Rotation.total_le (left_le e)
  omega

/-- Over any number of boots: a slot is selected at most three times; its
selections follow each other, and those of another slot stand later in
`ORDER`; a selected slot is marked good; and if a slot is marked good, then
after at most six normal boots comes the rescue entry of one, for good. -/
theorem boot_loops_bounded (b : Block) :
    (∀ S n, Nat.count (fun k => defaultAt b k = some (index S)) n ≤ 3) ∧
    (∀ S i j k, i ≤ j → j ≤ k → defaultAt b i = some (index S) → defaultAt b k = some (index S) →
      defaultAt b j = some (index S)) ∧
    (∀ S T i j, i ≤ j → defaultAt b i = some (index S) → defaultAt b j = some (index T) → S ≠ T →
      Rotation.Precedes (loadEnv b).order S.name T.name ∧
        ∀ k, j ≤ k → defaultAt b k ≠ some (index S)) ∧
    (∀ S n, defaultAt b n = some (index S) → (loadEnv b).ok S = 1 ∧ S.name ∈ (loadEnv b).order) ∧
    ((∃ S, (loadEnv b).ok S = 1) → ∃ n ≤ 6, (∀ k < n, ∃ S, defaultAt b k = some (index S)) ∧
      ∃ S, (loadEnv b).ok S = 1 ∧ ∀ k, n ≤ k → defaultAt b k = some (rescue S)) := by
  simp only [defaultAt_index, ne_eq]
  refine ⟨fun S n => ?_, fun S i j k => Rotation.contiguous, fun S T i j hij hi hj hST => ?_,
    fun S n h => ?_, fun hok => ?_⟩
  · have h1 := Rotation.count_le (slots (loadEnv b).order) (left (loadEnv b)) S n
    have h2 := left_le (loadEnv b) S
    omega
  · exact ⟨precedes_name (Rotation.moved_on hij hi hj hST).2,
      fun k hjk => Rotation.no_return hij hjk hi hj hST⟩
  · have h0 := Rotation.left_pos h
    rw [← left_after, left_pos, (loadEnv_after b n).2] at h0
    obtain ⟨w, hw, hs⟩ := List.mem_filterMap.mp (Rotation.mem_order h)
    exact ⟨h0.1, slot?_eq_some.mp hs ▸ hw⟩
  · refine ⟨_, total_le_six (loadEnv b), fun k hk => ?_, ?_⟩
    · refine Option.ne_none_iff_exists'.mp fun hn => ?_
      have := Rotation.pickAt_eq_none_iff.mp hn
      omega
    · have hr := fun k hk => defaultAt_rescue (b := b) (Rotation.pickAt_eq_none_iff (n := k).mpr hk)
      by_cases hB : (loadEnv b).ok .B = 1
      · exact ⟨.B, hB, fun k hk => by rw [hr k hk, if_pos hB]⟩
      · have hA : (loadEnv b).ok .A = 1 := by
          obtain ⟨S, hS⟩ := hok
          cases S
          · exact hS
          · exact absurd hS hB
        exact ⟨.A, hA, fun k hk => by rw [hr k hk, if_neg hB, if_pos hA]⟩

end HassOS.Grub
