import HassOS.Framework.Run
import HassOS.UBoot.Boot

/-!
# Slots marked bad

RAUC marks a slot bad by taking all its attempts, and a boot that finds no
slot gives both slots new ones. Up to such a boot, a slot marked bad is not
started, in any run of boots and RAUC operations (`bad_not_started`); after
it, it may be (`bad_started`).
-/

namespace HassOS.UBoot

open Framework

inductive Event where
  /-- A boot, with the outcomes of its kernel loads. -/
  | boot (load : Nat → Bool)
  /-- RAUC's `mark-good`, `mark-bad` and `set-primary`. -/
  | markGood (S : Slot)
  | markBad (S : Slot)
  | setPrimary (S : Slot)

/-- RAUC gives a slot `n` attempts. -/
def Stored.mark (s : Stored) (S : Slot) (n : Nat) : Stored :=
  { s with left := Function.update s.left S (some n) }

def step (s : Stored) : Event → Stored
  | .boot load => UBoot.boot s load
  | .markGood S => s.mark S 3
  | .markBad S => s.mark S 0
  | .setPrimary S =>
    { s.mark S 3 with order := some (S.name :: (s.order.getD []).filter (· ≠ S.name)) }

/-- An operation of RAUC on the slot. -/
def Marks (S : Slot) (e : Event) : Prop := e = .markGood S ∨ e = .markBad S ∨ e = .setPrimary S

/-- A boot finds no bootable slot, and resets the attempts of both. -/
def Resets (s : Stored) (e : Event) : Prop := ∃ load, e = .boot load ∧ started s load = none

/-- In the run `es` from `s`, the last operation of RAUC on slot `S` was
`mark-bad`, and no boot has reset the attempts since. -/
def MarkedBad (s : Stored) (S : Slot) (es : List Event) : Prop :=
  ∃ pre post, es = pre ++ .markBad S :: post ∧ (∀ e ∈ post, ¬ Marks S e) ∧
    Along step (fun s e => ¬ Resets s e) (run step s (pre ++ [.markBad S])) post

theorem left_mark (s : Stored) (S T : Slot) (n : Nat) :
    (loadbootstate (s.mark S n)).left T = if T = S then n else (loadbootstate s).left T := by
  by_cases h : T = S
  · subst h
    simp [loadbootstate, Stored.mark]
  · simp [loadbootstate, Stored.mark, h]

/-- Only RAUC and a reset bring attempts back. -/
theorem left_step {s : Stored} {S : Slot} (h : (loadbootstate s).left S = 0) {e : Event}
    (hm : ¬ Marks S e) (hr : ¬ Resets s e) : (loadbootstate (step s e)).left S = 0 := by
  cases e with
  | boot load =>
    have hs : started s load ≠ none := fun hn => hr ⟨load, rfl, hn⟩
    have hb : (loadbootstate (step s (.boot load))).left S ≤ _ := boot_left hs S
    omega
  | markGood T =>
    have hT : S ≠ T := fun he => hm (.inl (by rw [he]))
    rw [step, left_mark, if_neg hT, h]
  | markBad T =>
    rw [step, left_mark]
    split
    · rfl
    · exact h
  | setPrimary T =>
    have hT : S ≠ T := fun he => hm (.inr (.inr (by rw [he])))
    show (loadbootstate (s.mark T 3)).left S = 0
    rw [left_mark, if_neg hT, h]

/-- A slot that is marked bad has no attempts left. -/
theorem left_markedBad {s : Stored} {S : Slot} {es : List Event} (h : MarkedBad s S es) :
    (loadbootstate (run step s es)).left S = 0 := by
  obtain ⟨pre, post, rfl, hm, hr⟩ := h
  have h0 : (loadbootstate (run step s (pre ++ [.markBad S]))).left S = 0 := by
    rw [run_snoc, step, left_mark, if_pos rfl]
  rw [show pre ++ .markBad S :: post = (pre ++ [.markBad S]) ++ post by simp, run_append]
  exact run_keeps_along (I := fun s => (loadbootstate s).left S = 0)
    (fun _ _ h he => left_step h he.1 he.2) h0 (along_and.mpr ⟨along_forall.mpr hm, hr⟩)

/-- No boot starts a slot that is marked bad. -/
theorem bad_not_started (s : Stored) (S : Slot) (es : List Event) (load : Nat → Bool)
    (h : MarkedBad s S es) : started (run step s es) load ≠ some S := by
  intro hs
  have h0 := left_markedBad h
  have h1 := started_left hs
  omega

/-- An interrupted installation into slot B, and the next two boots. -/
theorem interrupted_install_not_started : started
    (run step ⟨none, fun _ => none, none⟩ [.markBad .B, .boot fun _ => true]) (fun _ => true) ≠
      some .B :=
  bad_not_started _ _ _ _ ⟨[], [.boot fun _ => true], rfl, by simp [Marks],
    fun ⟨load, he, hs⟩ => by cases he; exact absurd hs (by decide), trivial⟩

/-- The kernel of slot A fails to load twice: the first boot resets the
attempts, and the second starts slot B. -/
theorem bad_started : started (run step ⟨none, fun _ => none, none⟩
    [.markBad .B, .boot fun _ => false]) (fun i => i = 1) = some .B := by
  decide

end HassOS.UBoot
