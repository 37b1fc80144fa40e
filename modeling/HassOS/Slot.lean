import HassOS.Framework.Text

/-!
# The two system slots

Every board keeps two copies of the system, in the slots A and B, and names
them so in its boot loader's variables, in `rauc.slot=` and in RAUC's
`bootname`.
-/

namespace HassOS

open Framework (Line)

/-- A system slot. -/
inductive Slot where
  | A
  | B
  deriving DecidableEq

namespace Slot

theorem forall_iff {p : Slot → Prop} : (∀ S, p S) ↔ p A ∧ p B :=
  ⟨fun h => ⟨h A, h B⟩, fun h S => by cases S; exacts [h.1, h.2]⟩

instance {p : Slot → Prop} [DecidablePred p] : Decidable (∀ S, p S) :=
  decidable_of_iff _ forall_iff.symm

/-- The slot's bootname. -/
def name : Slot → Line
  | A => "A".toList
  | B => "B".toList

def other : Slot → Slot
  | A => B
  | B => A

@[simp] theorem name_inj {S T : Slot} : S.name = T.name ↔ S = T := by
  revert S T; decide

@[simp] theorem other_other (S : Slot) : S.other.other = S := by cases S <;> rfl

@[simp] theorem other_ne (S : Slot) : S.other ≠ S := by cases S <;> decide

@[simp] theorem ne_other (S : Slot) : S ≠ S.other := (other_ne S).symm

theorem ne_iff {S T : Slot} : S ≠ T ↔ S = T.other := by
  revert S T; decide

end Slot

end HassOS
