import HassOS.UBoot.Boot

/-!
# One boot of U-Boot

The shell of U-Boot has no `break`: the loop runs on after a slot is found,
and a `bootargs` that is not empty skips the rest. In closed form, it starts
the slot at the first position that succeeds (`SucceedsAt`), and every
position up to that one takes an attempt from the slot that it names, as long
as there is one (`slotLoop_first`, `slotLoop_none`); this is what is stored
before the kernel starts, and without such a position both slots get three
attempts again (`boot_first_success`).
-/

namespace HassOS.UBoot

open Framework (Line)

/-- The attempts of the slots once `tokens` are passed over. -/
def afterTokens (tokens : List Line) (left : Slot → Nat) (S : Slot) : Nat :=
  left S - tokens.count S.name

/-- Position `k` names a slot that has attempts left after the positions
before it, and its kernel loads. -/
structure SucceedsAt (order : List Line) (load : Nat → Bool) (left : Slot → Nat) (k : Nat)
    (S : Slot) : Prop where
  token : order[k]? = some S.name
  positive : 0 < afterTokens (order.take k) left S
  loads : load k = true

/-- No position before `k` succeeds. -/
structure FirstSuccess (order : List Line) (load : Nat → Bool) (left : Slot → Nat) (k : Nat)
    (S : Slot) : Prop extends SucceedsAt order load left k S where
  first : ∀ j < k, ∀ T, ¬ SucceedsAt order load left j T

section

variable {slot : Line} {order : List Line} {load : Nat → Bool} {left : Slot → Nat} {k : Nat}
  {S : Slot}

/-- A position takes one attempt from the slot that it names, if there is one. -/
theorem afterTokens_cons (slot : Line) (order : List Line) (left : Slot → Nat) :
    afterTokens (slot :: order) left = afterTokens order (afterTokens [slot] left) := by
  funext T
  unfold afterTokens
  rw [List.count_cons, List.count_singleton]
  omega

theorem succeedsAt_succ : SucceedsAt (slot :: order) load left (k + 1) S ↔
    SucceedsAt order (fun n => load (n + 1)) (afterTokens [slot] left) k S := by
  constructor
  · rintro ⟨ht, hp, hl⟩
    rw [List.take_succ_cons, afterTokens_cons] at hp
    exact ⟨by simpa using ht, hp, hl⟩
  · rintro ⟨ht, hp, hl⟩
    refine ⟨by simpa using ht, ?_, hl⟩
    rw [List.take_succ_cons, afterTokens_cons]
    exact hp

theorem succeedsAt_zero : SucceedsAt (slot :: order) load left 0 S ↔
    slot = S.name ∧ 0 < left S ∧ load 0 = true := by
  constructor
  · rintro ⟨ht, hp, hl⟩
    exact ⟨by simpa using ht, by simpa [afterTokens] using hp, hl⟩
  · rintro ⟨rfl, hp, hl⟩
    exact ⟨rfl, by simpa [afterTokens] using hp, hl⟩

/-! ## The loop -/

/-- The rest of the loop is skipped. -/
theorem slotLoop_found (order : List Line) (load : Nat → Bool) (S : Slot) (left : Slot → Nat) :
    slotLoop order load (some S) left = (some S, left) := by
  induction order generalizing load with
  | nil => rfl
  | cons slot order ih => exact ih _

theorem iteration_name (S : Slot) (ok : Bool) (left : Slot → Nat) :
    iteration S.name ok none left = attempt S ok left := by
  cases S <;> rfl

theorem iteration_other (h : ∀ S : Slot, slot ≠ S.name) (ok : Bool) (left : Slot → Nat) :
    iteration slot ok none left = (none, left) := by
  rw [iteration, if_neg (by decide), if_neg (h .A), if_neg (h .B)]

/-- Taking an attempt where there is one. -/
theorem afterTokens_name (S : Slot) (left : Slot → Nat) :
    afterTokens [S.name] left = Function.update left S (left S - 1) := by
  funext T
  unfold afterTokens
  by_cases h : T = S
  · rw [h, Function.update_self, List.count_singleton_self]
  · rw [Function.update_of_ne h, List.count_singleton, if_neg (by simpa using Ne.symm h)]
    rfl

theorem afterTokens_other (h : ∀ S : Slot, slot ≠ S.name) (left : Slot → Nat) :
    afterTokens [slot] left = left := by
  funext T
  unfold afterTokens
  rw [List.count_singleton, if_neg (by simpa using h T)]
  rfl

/-- An iteration that succeeds. -/
theorem iteration_succeeds (h : 0 < left S) :
    iteration S.name true none left = (some S, afterTokens [S.name] left) := by
  rw [iteration_name, attempt, if_pos h, afterTokens_name]
  rfl

/-- An iteration that does not. -/
theorem iteration_fails (ok : Bool) (h : ∀ S, ¬ (slot = S.name ∧ 0 < left S ∧ ok = true)) :
    iteration slot ok none left = (none, afterTokens [slot] left) := by
  by_cases hs : ∃ S : Slot, slot = S.name
  · obtain ⟨S, rfl⟩ := hs
    rw [iteration_name, attempt, afterTokens_name]
    by_cases hl : left S > 0
    · have hok : ok = false := Bool.eq_false_iff.mpr fun hok => h S ⟨rfl, hl, hok⟩
      rw [if_pos hl, hok]
      rfl
    · rw [if_neg hl, show left S - 1 = left S by omega, Function.update_eq_self]
  · have hn : ∀ S : Slot, slot ≠ S.name := fun S e => hs ⟨S, e⟩
    rw [iteration_other hn, afterTokens_other hn]

theorem slotLoop_first (h : FirstSuccess order load left k S) :
    slotLoop order load none left = (some S, afterTokens (order.take (k + 1)) left) := by
  induction order generalizing load left k with
  | nil => exact absurd h.token (by simp)
  | cons slot order ih =>
    cases k with
    | zero =>
      obtain ⟨rfl, hp, hl⟩ := succeedsAt_zero.mp h.toSucceedsAt
      rw [slotLoop, hl, iteration_succeeds hp]
      exact slotLoop_found order _ S _
    | succ k =>
      have h0 : ∀ T, ¬ (slot = T.name ∧ 0 < left T ∧ load 0 = true) := fun T hT =>
        h.first 0 (by omega) T (succeedsAt_zero.mpr hT)
      have hk : FirstSuccess order (fun n => load (n + 1)) (afterTokens [slot] left) k S :=
        ⟨succeedsAt_succ.mp h.toSucceedsAt, fun j hj T hT =>
          h.first (j + 1) (by omega) T (succeedsAt_succ.mpr hT)⟩
      rw [slotLoop, iteration_fails _ h0, List.take_succ_cons,
        afterTokens_cons slot (order.take (k + 1))]
      exact ih hk

theorem slotLoop_none (h : ∀ k S, ¬ SucceedsAt order load left k S) :
    slotLoop order load none left = (none, afterTokens order left) := by
  induction order generalizing load left with
  | nil => rfl
  | cons slot order ih =>
    have h0 : ∀ T, ¬ (slot = T.name ∧ 0 < left T ∧ load 0 = true) := fun T hT =>
      h 0 T (succeedsAt_zero.mpr hT)
    rw [slotLoop, iteration_fails _ h0, afterTokens_cons slot order]
    exact ih fun k T hT => h (k + 1) T (succeedsAt_succ.mpr hT)

end

/-! ## The script -/

/-- The first position that succeeds decides on the slot, and costs an attempt
like the positions before it; this is stored before the kernel starts. Without
such a position, three attempts are stored for both slots and no kernel is
started. -/
theorem boot_first_success (s : Stored) (load : Nat → Bool) :
    (∀ k S, FirstSuccess (loadbootstate s).order load (loadbootstate s).left k S →
      started s load = some S ∧ boot s load = ⟨some (loadbootstate s).order,
        fun T => some ((loadbootstate s).left T - ((loadbootstate s).order.take (k + 1)).count T.name),
        s.machineId⟩) ∧
    ((∀ k S, ¬ SucceedsAt (loadbootstate s).order load (loadbootstate s).left k S) →
      started s load = none ∧
        boot s load = ⟨some (loadbootstate s).order, fun _ => some 3, s.machineId⟩) := by
  refine ⟨fun k S h => ?_, fun h => ?_⟩
  · have hloop := slotLoop_first h
    refine ⟨by rw [started, hloop], ?_⟩
    rw [boot, hloop]
    rfl
  · have hloop := slotLoop_none h
    refine ⟨by rw [started, hloop], ?_⟩
    rw [boot, hloop]
    rfl

end HassOS.UBoot
