import HassOS.Grub.Valid
import HassOS.UBoot.MarkBad
import HassOS.UBoot.SlotLoop

/-!
# The two boot loaders agree

GRUB counts the attempts of a slot up, beside a mark; U-Boot counts what is
left down, and takes a slot without any for bad. States that correspond
(`Related`) stay so over every boot and every operation of RAUC, and the two
loaders start the same slot each time (`loaders_agree`), as long as no boot
finds both slots without attempts: GRUB then starts a rescue entry, and U-Boot
gives both slots new attempts.
-/

namespace HassOS.UBoot

open Framework
open Grub (Block slots slot? slot?_name slot?_eq_some)

/-- A boot whose kernels load, or an operation of RAUC. -/
inductive Op where
  | boot
  | markGood (S : Slot)
  | markBad (S : Slot)
  | setPrimary (S : Slot)
  deriving DecidableEq

def Op.grub : Op → Grub.Event
  | .boot => .boot
  | .markGood S => .markGood S
  | .markBad S => .markBad S
  | .setPrimary S => .setPrimary S

def Op.uboot : Op → Event
  | .boot => .boot fun _ => true
  | .markGood S => .markGood S
  | .markBad S => .markBad S
  | .setPrimary S => .setPrimary S

/-- The two loaders side by side. -/
def bothStep (p : Block × Stored) (o : Op) : Block × Stored :=
  (Grub.step p.1 o.grub, step p.2 o.uboot)

/-- The slots stand in the same order, with a mark of 0 or 1 and a counter
from 0 to 3 on one side, and what these leave on the other. -/
structure Related (b : Block) (s : Stored) : Prop where
  order : ∃ o, b.order = some o ∧ s.order = some o ∧ o.Perm [Slot.A.name, Slot.B.name]
  ok : ∀ S, (Grub.loadEnv b).ok S = 0 ∨ (Grub.loadEnv b).ok S = 1
  tries : ∀ S, 0 ≤ (Grub.loadEnv b).tries S ∧ (Grub.loadEnv b).tries S ≤ 3
  left : ∀ S, (loadbootstate s).left S =
    if (Grub.loadEnv b).ok S = 1 then (3 - (Grub.loadEnv b).tries S).toNat else 0

/-- Some slot has attempts left. -/
def HasAttempts (s : Stored) : Prop := ∃ S, 0 < (loadbootstate s).left S

/-! ## A boot of U-Boot as a turn of the rotation -/

/-- With kernels that load, the loop picks the first slot with attempts left. -/
theorem slotLoop_loads (order : List Line) (left : Slot → Nat) :
    slotLoop order (fun _ => true) none left =
      (Rotation.pick (slots order) left, Rotation.spend (slots order) left) := by
  induction order with
  | nil => rfl
  | cons slot order ih =>
    cases hs : slot? slot with
    | none =>
      have hn : ∀ S : Slot, slot ≠ S.name := by
        rintro S rfl
        rw [slot?_name] at hs
        cases hs
      have hc : slots (slot :: order) = slots order := List.filterMap_cons_none hs
      rw [slotLoop, iteration_other hn, hc]
      exact ih
    | some S =>
      obtain rfl := slot?_eq_some.mp hs
      have hc : slots (S.name :: order) = S :: slots order := List.filterMap_cons_some hs
      rw [slotLoop, iteration_name, hc]
      by_cases hl : 0 < left S
      · have hp : Rotation.pick (S :: slots order) left = some S :=
          Rotation.pick_eq_some.mpr ⟨hl, [], _, rfl, by simp⟩
        rw [attempt, if_pos hl, hp, Rotation.spend_of_some hp]
        exact slotLoop_found order _ S _
      · have hp : Rotation.pick (S :: slots order) left = Rotation.pick (slots order) left := by
          simp [Rotation.pick, hl]
        rw [attempt, if_neg hl, hp, Rotation.spend, hp]
        exact ih

section

variable {b : Block} {s : Stored}

theorem Related.left_eq (h : Related b s) : (loadbootstate s).left = Grub.left (Grub.loadEnv b) := by
  funext S
  obtain ⟨h0, h3⟩ := h.tries S
  rw [h.left, Grub.left]
  split
  · unfold Grub.remaining
    split <;> omega
  · rfl

theorem Related.order_eq (h : Related b s) :
    (loadbootstate s).order = (Grub.loadEnv b).order := by
  obtain ⟨o, hb, hs, -⟩ := h.order
  rw [loadbootstate, Grub.loadEnv, hb, hs]

/-- Every slot stands in the order, so that one is picked if one has attempts. -/
theorem Related.picks (h : Related b s) (ha : HasAttempts s) :
    ∃ S, Grub.picked (Grub.loadEnv b) = some S := by
  obtain ⟨S, hS⟩ := ha
  obtain ⟨o, hb, -, hperm⟩ := h.order
  have hmem : S ∈ slots (Grub.loadEnv b).order := by
    refine List.mem_filterMap.mpr ⟨S.name, ?_, slot?_name S⟩
    rw [Grub.loadEnv, hb, Option.getD_some, hperm.mem_iff]
    cases S <;> simp only [List.mem_cons, true_or, or_true]
  cases hp : Grub.picked (Grub.loadEnv b) with
  | some T => exact ⟨T, rfl⟩
  | none =>
    have h0 := Rotation.pick_eq_none.mp hp S hmem
    rw [← h.left_eq] at h0
    omega

theorem started_loads (h : Related b s) :
    started s (fun _ => true) = Grub.picked (Grub.loadEnv b) := by
  rw [started, slotLoop_loads, h.left_eq, h.order_eq, Grub.picked]

/-- The two loaders start the same slot. -/
theorem Related.starts (h : Related b s) (ha : HasAttempts s) :
    ∃ S, (Grub.grubCfg b).1 = some (Grub.index S) ∧ started s (fun _ => true) = some S := by
  obtain ⟨S, hS⟩ := h.picks ha
  exact ⟨S, Grub.default_picked hS, (started_loads h).trans hS⟩

/-! ## Steps -/

theorem related_mark (h : Related b s) (S : Slot) (good : Bool) :
    Related (b.mark S (if good then 1 else 0)) (s.mark S (if good then 3 else 0)) := by
  have htries : ∀ T, (Grub.loadEnv (b.mark S (if good then 1 else 0))).tries T =
      if T = S then 0 else (Grub.loadEnv b).tries T := by
    intro T
    by_cases e : T = S
    · subst e
      simp [Grub.loadEnv, Grub.Block.mark]
    · simp [Grub.loadEnv, Grub.Block.mark, e]
  refine ⟨h.order, fun T => ?_, fun T => ?_, fun T => ?_⟩
  · rw [Grub.ok_mark]
    split
    · cases good
      · exact .inl rfl
      · exact .inr rfl
    · exact h.ok T
  · rw [htries]
    split
    · omega
    · exact h.tries T
  · rw [left_mark, Grub.ok_mark, htries]
    by_cases e : T = S
    · simp only [if_pos e]
      cases good <;> rfl
    · simp only [if_neg e]
      exact h.left T

theorem related_boot (h : Related b s) (ha : HasAttempts s) :
    Related (Grub.grubCfg b).2 (boot s fun _ => true) := by
  obtain ⟨S, hS⟩ := h.picks ha
  obtain ⟨o, hb, hs, hperm⟩ := h.order
  have hloop := slotLoop_loads (loadbootstate s).order (loadbootstate s).left
  have hpick : Rotation.pick (slots (loadbootstate s).order) (loadbootstate s).left = some S := by
    rw [h.order_eq, h.left_eq]
    exact hS
  have hboot : boot s (fun _ => true) = storebootstate { loadbootstate s with
      left := Rotation.spend (slots (loadbootstate s).order) (loadbootstate s).left } := by
    rw [boot, hloop, hpick]
    rfl
  have henv := Grub.loadEnv_grubCfg b
  rw [hS] at henv
  obtain ⟨hok, ht⟩ := Grub.left_pos.mp (Rotation.left_pos hS)
  have h0 := h.tries S
  have hnext : Grub.nextTry ((Grub.loadEnv b).tries S) = (Grub.loadEnv b).tries S + 1 := by
    unfold Grub.nextTry
    split
    · omega
    · split <;> omega
  have hmarks : (Grub.loadEnv (Grub.grubCfg b).2).ok = (Grub.loadEnv b).ok := by rw [henv]
  have htries : ∀ T, (Grub.loadEnv (Grub.grubCfg b).2).tries T =
      if T = S then (Grub.loadEnv b).tries S + 1 else (Grub.loadEnv b).tries T := by
    intro T
    rw [henv, ← hnext]
    exact Function.update_apply _ _ _ _
  have hleft : ∀ T, (loadbootstate (boot s fun _ => true)).left T =
      if T = S then (loadbootstate s).left S - 1 else (loadbootstate s).left T := by
    intro T
    rw [hboot, Rotation.spend_of_some hpick]
    exact Function.update_apply _ _ _ _
  refine ⟨⟨o, ?_, ?_, hperm⟩, fun T => ?_, fun T => ?_, fun T => ?_⟩
  · show some (Grub.loadEnv b).order = some o
    rw [Grub.loadEnv, hb]
    rfl
  · rw [hboot]
    show some (loadbootstate s).order = some o
    rw [loadbootstate, hs]
    rfl
  · rw [hmarks]
    exact h.ok T
  · rw [htries]
    have := h.tries T
    split <;> omega
  · rw [hleft, hmarks, htries]
    by_cases e : T = S
    · rw [if_pos e, if_pos e, h.left, e, if_pos hok, if_pos hok]
      omega
    · rw [if_neg e, if_neg e, h.left]

theorem perm_primary {o : List Line} (ho : o.Perm [Slot.A.name, Slot.B.name]) (S : Slot) :
    (S.name :: o.filter (· ≠ S.name)).Perm [Slot.A.name, Slot.B.name] := by
  refine ((ho.filter (· ≠ S.name)).cons S.name).trans ?_
  revert S
  decide

/-- Every operation keeps the relation, a boot if some slot has attempts. -/
theorem related_step (h : Related b s) (o : Op) (ha : o = .boot → HasAttempts s) :
    Related (Grub.step b o.grub) (step s o.uboot) := by
  cases o with
  | boot => exact related_boot h (ha rfl)
  | markGood S => exact related_mark h S true
  | markBad S => exact related_mark h S false
  | setPrimary S =>
    obtain ⟨o, hb, hs, hperm⟩ := h.order
    have hm := related_mark h S true
    refine ⟨⟨S.name :: o.filter (· ≠ S.name), ?_, ?_, perm_primary hperm S⟩, hm.ok, hm.tries, hm.left⟩
    · show some (S.name :: (b.order.getD []).filter (· ≠ S.name)) = _
      rw [hb]
      rfl
    · show some (S.name :: (s.order.getD []).filter (· ≠ S.name)) = _
      rw [hs]
      rfl

end

/-- Over any operations, as long as some slot has attempts left before each
boot, the states stay related and every boot starts the same slot. -/
theorem loaders_agree {b : Block} {s : Stored} (h : Related b s) {os : List Op}
    (ha : Along bothStep (fun p o => o = .boot → HasAttempts p.2) (b, s) os) :
    (∀ pre post, os = pre ++ post →
      Related (run bothStep (b, s) pre).1 (run bothStep (b, s) pre).2) ∧
    ∀ pre post, os = pre ++ .boot :: post → ∃ S,
      (Grub.grubCfg (run bothStep (b, s) pre).1).1 = some (Grub.index S) ∧
        started (run bothStep (b, s) pre).2 (fun _ => true) = some S := by
  have hrel : ∀ pre post, os = pre ++ post →
      Related (run bothStep (b, s) pre).1 (run bothStep (b, s) pre).2 := by
    rintro pre post rfl
    exact run_keeps_along (I := fun p : Block × Stored => Related p.1 p.2)
      (fun p o hp ho => related_step hp o ho) h (along_append.mp ha).1
  refine ⟨hrel, fun pre post hos => ?_⟩
  have hboot := along_iff.mp ha pre .boot post hos rfl
  exact (hrel pre (.boot :: post) hos).starts hboot

/-- A new machine under U-Boot, with nothing in slot B. -/
def factoryStored : Stored :=
  ⟨some [Slot.A.name, Slot.B.name], fun S => some (if S = .A then 3 else 0), none⟩

theorem related_factory : Related Grub.factoryBlock factoryStored where
  order := ⟨_, rfl, rfl, List.Perm.refl _⟩
  ok := by decide
  tries := by decide
  left := by decide

/-- The two boots of a first update. -/
theorem agree_first_update : ∃ S,
    (Grub.grubCfg (run bothStep (Grub.factoryBlock, factoryStored) [.boot, .setPrimary .B]).1).1 =
        some (Grub.index S) ∧
      started (run bothStep (Grub.factoryBlock, factoryStored) [.boot, .setPrimary .B]).2
        (fun _ => true) = some S := by
  have ha : Along bothStep (fun p o => o = .boot → HasAttempts p.2)
      (Grub.factoryBlock, factoryStored) [.boot, .setPrimary .B, .boot] :=
    ⟨fun _ => ⟨.A, by decide⟩, (fun h => nomatch h), fun _ => ⟨.B, by decide⟩, trivial⟩
  exact (loaders_agree related_factory ha).2 [.boot, .setPrimary .B] [] rfl

end HassOS.UBoot
