import HassOS.Framework.Run
import HassOS.Grub.Select

/-!
# Which entry GRUB is given

The block as its writers leave it: the script itself, RAUC, and the hook that
recreates an empty one (`Event`, `step`). The rescue entries are conditional
on a slot marked good, so that the script keeps the placeholder 99, which
names no entry, whenever neither slot is. That is so exactly if no slot is
trusted, by the history of what was done to it (`valid_default_iff`).
-/

namespace HassOS.Grub

open Framework

inductive Event where
  | boot
  /-- RAUC's `mark-good`, `mark-bad` and `set-primary`. -/
  | markGood (S : Slot)
  | markBad (S : Slot)
  | setPrimary (S : Slot)
  /-- `grub-editenv … create`, by `check_grubenv`. -/
  | recreate
  deriving DecidableEq

/-- RAUC marks a slot. -/
def Block.mark (b : Block) (S : Slot) (ok : Int) : Block :=
  { b with ok := Function.update b.ok S (some ok), tries := Function.update b.tries S (some 0) }

/-- The block without variables. -/
def emptyBlock : Block := ⟨none, fun _ => none, fun _ => none, none⟩

def step (b : Block) : Event → Block
  | .boot => (grubCfg b).2
  | .markGood S => b.mark S 1
  | .markBad S => b.mark S 0
  | .setPrimary S =>
    { b.mark S 1 with order := some (S.name :: (b.order.getD []).filter (· ≠ S.name)) }
  | .recreate => emptyBlock

/-- The block of the boot image: `ORDER="A B"`, `A_OK=1`, `A_TRY=0`. -/
def factoryBlock : Block :=
  { emptyBlock with
    order := some [Slot.A.name, Slot.B.name]
    ok := Function.update emptyBlock.ok .A (some 1)
    tries := Function.update emptyBlock.tries .A (some 0) }

/-- The block of a machine after `es`. -/
def afterEvents (es : List Event) : Block := run step factoryBlock es

/-- The script gives the entry of a slot that was marked good with attempts
left, or the rescue entry of a slot. -/
def ValidDefault (b : Block) : Prop :=
  (∃ S, (grubCfg b).1 = some (index S) ∧ (loadEnv b).ok S = 1 ∧ (loadEnv b).tries S < 3) ∨
    ∃ S, (grubCfg b).1 = some (rescue S)

/-- RAUC marks the slot good, or makes it primary. -/
def Grants (S : Slot) (e : Event) : Prop := e = .markGood S ∨ e = .setPrimary S

/-- RAUC marks the slot bad, or the block is recreated. -/
def Revokes (S : Slot) (e : Event) : Prop := e = .markBad S ∨ e = .recreate

/-- The last of these to strike the slot marked it good, or there was none and
the slot is that of the factory. -/
def Trusted (S : Slot) (es : List Event) : Prop :=
  (S = .A ∧ ∀ e ∈ es, ¬ Revokes S e) ∨
    ∃ pre e post, es = pre ++ e :: post ∧ Grants S e ∧ ∀ e ∈ post, ¬ Revokes S e

theorem ok_mark (b : Block) (S T : Slot) (ok : Int) :
    (loadEnv (b.mark S ok)).ok T = if T = S then ok else (loadEnv b).ok T := by
  by_cases h : T = S
  · subst h
    simp [loadEnv, Block.mark]
  · simp [loadEnv, Block.mark, h]

/-- What a step does to the mark of a slot. -/
theorem ok_step (b : Block) (e : Event) (S : Slot) :
    (Grants S e → (loadEnv (step b e)).ok S = 1) ∧ (Revokes S e → (loadEnv (step b e)).ok S = 0) ∧
      (¬ Grants S e → ¬ Revokes S e → (loadEnv (step b e)).ok S = (loadEnv b).ok S) := by
  refine ⟨?_, ?_, fun hg hr => ?_⟩
  · rintro (rfl | rfl)
    · exact (ok_mark b S S 1).trans (if_pos rfl)
    · exact (ok_mark b S S 1).trans (if_pos rfl)
  · rintro (rfl | rfl)
    · exact (ok_mark b S S 0).trans (if_pos rfl)
    · rfl
  · cases e with
    | boot =>
      rw [step, loadEnv_grubCfg]
      split <;> rfl
    | markGood T => exact (ok_mark b T S 1).trans (if_neg fun h => hg (.inl (by rw [h])))
    | markBad T => exact (ok_mark b T S 0).trans (if_neg fun h => hr (.inl (by rw [h])))
    | setPrimary T => exact (ok_mark b T S 1).trans (if_neg fun h => hg (.inr (by rw [h])))
    | recreate => exact absurd (.inr rfl) hr

/-- A slot is marked good exactly if it is trusted. -/
theorem ok_iff_trusted (S : Slot) (es : List Event) :
    (loadEnv (afterEvents es)).ok S = 1 ↔ Trusted S es := by
  have hf : (loadEnv factoryBlock).ok S = 1 ↔ S = .A := by
    revert S
    decide
  have h := run_latch (s := factoryBlock) (I := fun _ : Block => True)
    (b := fun b => (loadEnv b).ok S = 1) (p := fun _ => Grants S) (q := fun _ => Revokes S)
    (fun _ _ _ => trivial) (fun b e _ => (ok_step b e S).1)
    (fun b e _ hr => by rw [(ok_step b e S).2.1 hr]; decide)
    (fun b e _ hg hr => by rw [(ok_step b e S).2.2 hg hr]) trivial es
  simp only [along_forall, hf] at h
  exact h

/-- The script gives a valid entry whenever a slot is marked good. -/
theorem validDefault_iff_ok (b : Block) : ValidDefault b ↔ ∃ S, (loadEnv b).ok S = 1 := by
  unfold ValidDefault
  cases h : picked (loadEnv b) with
  | some S =>
    have hS := left_pos.mp (Rotation.left_pos h)
    exact iff_of_true (.inl ⟨S, default_picked h, hS⟩) ⟨S, hS.1⟩
  | none =>
    rw [default_rescue h]
    by_cases hB : (loadEnv b).ok .B = 1
    · rw [if_pos hB]
      exact iff_of_true (.inr ⟨.B, rfl⟩) ⟨.B, hB⟩
    · rw [if_neg hB]
      by_cases hA : (loadEnv b).ok .A = 1
      · rw [if_pos hA]
        exact iff_of_true (.inr ⟨.A, rfl⟩) ⟨.A, hA⟩
      · rw [if_neg hA]
        refine iff_of_false ?_ ?_
        · rintro (⟨S, hi, -⟩ | ⟨S, hr⟩)
          · exact index_ne.1 hi.symm
          · revert S
            decide
        · rintro ⟨S, hS⟩
          cases S
          · exact hA hS
          · exact hB hS

/-- Whatever its writers did since the factory, the script gives a valid entry
exactly if a slot is trusted. -/
theorem valid_default_iff (es : List Event) :
    ValidDefault (afterEvents es) ↔ ∃ S, Trusted S es := by
  rw [validDefault_iff_ok]
  simp only [ok_iff_trusted]

/-- The hook recreates the block, and the machine reboots. -/
theorem recreated_block_invalid :
    (grubCfg (afterEvents [.recreate])).1 = some 99 ∧ ¬ ValidDefault (afterEvents [.recreate]) := by
  have h : (grubCfg (afterEvents [.recreate])).1 = some 99 := by
    rw [default_rescue (by decide)]
    decide
  refine ⟨h, ?_⟩
  rintro (⟨S, hi, -⟩ | ⟨S, hr⟩)
  · exact index_ne.1 (hi.symm.trans h)
  · rw [h] at hr
    revert S
    decide

end HassOS.Grub
