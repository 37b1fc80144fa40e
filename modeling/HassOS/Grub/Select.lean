import HassOS.Framework.Rotation
import HassOS.Slot

/-!
# Slot selection in GRUB (`grub.cfg`)

One run of the script, from the environment block that `load_env` finds to
the one that `save_env` leaves (`grubCfg`), with the variables of the loop as
they are, stale values included (`select`). A variable that is not set reads
as the empty string, which `test` takes for 0 in a comparison of numbers.

Against the stale values, the loop does what one expects (`select_eq`): it
picks the first slot in `ORDER` that is marked good and has attempts left, one
turn of a rotation (`left_saved`).
-/

namespace HassOS.Grub

open Framework

/-! ## The script -/

/-- A block of stored variables; one that is missing is not set. -/
structure Block where
  order : Option (List Line)
  /-- `A_OK` and `B_OK`. -/
  ok : Slot → Option Int
  /-- `A_TRY` and `B_TRY`. -/
  tries : Slot → Option Int
  machineId : Option Line

/-- The variables that the script loads and saves. -/
structure Env where
  order : List Line
  ok : Slot → Int
  tries : Slot → Int
  machineId : Line

/-- `load_env`, over the defaults. -/
def loadEnv (b : Block) : Env where
  order := b.order.getD [Slot.A.name, Slot.B.name]
  ok S := (b.ok S).getD 0
  tries S := (b.tries S).getD 0
  machineId := b.machineId.getD []

/-- `save_env A_TRY A_OK B_TRY B_OK ORDER MACHINE_ID` -/
def saveEnv (e : Env) : Block :=
  ⟨some e.order, fun S => some (e.ok S), fun S => some (e.tries S), some e.machineId⟩

/-- The loop's own variables `INDEX`, `OK` and `TRY`. -/
structure Vars where
  index : Option Int
  ok : Option Int
  tries : Option Int

/-- The number that `test` reads. -/
def num (v : Option Int) : Int := v.getD 0

/-- The menu entry of a slot. -/
def index : Slot → Int
  | .A => 0
  | .B => 1

/-- The rescue entry of a slot. -/
def rescue : Slot → Int
  | .A => 2
  | .B => 3

theorem index_inj {S T : Slot} : some (index S) = some (index T) ↔ S = T := by
  revert S T
  decide

theorem index_ne {S : Slot} : some (index S) ≠ some 99 ∧ ∀ T, some (index S) ≠ some (rescue T) := by
  revert S
  decide

/-- Increment attempts. -/
def nextTry (t : Int) : Int := if t = 1 then 2 else if t = 2 then 3 else 1

/-- The variables at the head of an iteration. -/
def loadVars (e : Env) (slot : Line) (v : Vars) : Vars :=
  let v := if slot = Slot.A.name then ⟨some (index .A), some (e.ok .A), some (e.tries .A)⟩ else v
  if slot = Slot.B.name then ⟨some (index .B), some (e.ok .B), some (e.tries .B)⟩ else v

/-- `for SLOT in $ORDER`: the value of `default` and the attempts after it. -/
def select (e : Env) : List Line → Vars → Option Int × (Slot → Int)
  | [], _ => (some 99, e.tries)
  | slot :: order, v =>
    let v := loadVars e slot v
    if num v.ok = 1 ∧ num v.tries < 3 then
      let t := nextTry (num v.tries)
      let tries := if slot = Slot.A.name then Function.update e.tries .A t else e.tries
      let tries := if slot = Slot.B.name then Function.update tries .B t else tries
      (v.index, tries)
    else select e order v

/-- No bootable slot found, choose rescue... -/
def chooseRescue (e : Env) (default : Option Int) : Option Int :=
  if num default = 99 then
    let default := if e.ok .A = 1 then some (rescue .A) else default
    if e.ok .B = 1 then some (rescue .B) else default
  else default

/-- The script: the value of `default`, and the block it saves. -/
def grubCfg (b : Block) : Option Int × Block :=
  let e := loadEnv b
  let (default, tries) := select e e.order ⟨none, none, none⟩
  (chooseRescue e default, saveEnv { e with tries := tries })

/-! ## As a rotation -/

/-- The slot a word of `ORDER` names. -/
def slot? (slot : Line) : Option Slot :=
  if slot = Slot.A.name then some .A else if slot = Slot.B.name then some .B else none

theorem slot?_eq_some {slot : Line} {S : Slot} : slot? slot = some S ↔ slot = S.name := by
  unfold slot?
  by_cases hA : slot = Slot.A.name
  · subst hA
    revert S
    decide
  · rw [if_neg hA]
    by_cases hB : slot = Slot.B.name
    · subst hB
      revert S
      decide
    · rw [if_neg hB]
      refine iff_of_false (by simp) ?_
      cases S
      · exact hA
      · exact hB

theorem slot?_name (S : Slot) : slot? S.name = some S := slot?_eq_some.mpr rfl

/-- The slots of `ORDER`. -/
def slots (order : List Line) : List Slot := order.filterMap slot?

/-- The order of the slots is that of the words. -/
theorem precedes_name {order : List Line} {S T : Slot}
    (h : Rotation.Precedes (slots order) S T) : Rotation.Precedes order S.name T.name := by
  obtain ⟨pre, post, ho, hT⟩ := h
  obtain ⟨l₁, l₂, rfl, rfl, h₂⟩ := List.filterMap_eq_append_iff.mp ho
  obtain ⟨l₃, w, l₄, rfl, h₃, hw, -⟩ := List.filterMap_eq_cons_iff.mp h₂
  obtain rfl := slot?_eq_some.mp hw
  refine ⟨l₁ ++ l₃, l₄, by rw [List.append_assoc], fun hm => ?_⟩
  rcases List.mem_append.mp hm with hm | hm
  · exact hT (List.mem_filterMap.mpr ⟨_, hm, slot?_name T⟩)
  · have := h₃ _ hm
    rw [slot?_name] at this
    cases this

/-- The attempts that a counter leaves. -/
def remaining (t : Int) : Nat := if t ≤ 0 then 3 else (3 - t).toNat

/-- The attempts of a slot that is marked good. -/
def left (e : Env) (S : Slot) : Nat := if e.ok S = 1 then remaining (e.tries S) else 0

theorem remaining_le (t : Int) : remaining t ≤ 3 := by
  unfold remaining
  split <;> omega

theorem remaining_pos {t : Int} : 0 < remaining t ↔ t < 3 := by
  unfold remaining
  split <;> omega

/-- Every value other than 1 and 2 counts as none, and goes to 1. -/
theorem remaining_nextTry {t : Int} (h : t < 3) : remaining (nextTry t) = remaining t - 1 := by
  unfold remaining nextTry
  by_cases h1 : t = 1
  · subst h1
    decide
  · rw [if_neg h1]
    by_cases h2 : t = 2
    · subst h2
      decide
    · rw [if_neg h2, if_pos (show t ≤ 0 by omega)]
      decide

theorem left_pos {e : Env} {S : Slot} : 0 < left e S ↔ e.ok S = 1 ∧ e.tries S < 3 := by
  unfold left
  split
  · rename_i h
    simp [h, remaining_pos]
  · rename_i h
    simp [h]

theorem left_le (e : Env) (S : Slot) : left e S ≤ 3 := by
  unfold left
  split
  · exact remaining_le _
  · omega

/-- Loop variables that do not stop the loop. -/
def Vars.Stale (v : Vars) : Prop := ¬ (num v.ok = 1 ∧ num v.tries < 3)

theorem load_name (e : Env) (S : Slot) (v : Vars) :
    loadVars e S.name v = ⟨some (index S), some (e.ok S), some (e.tries S)⟩ := by
  cases S <;> rfl

theorem load_other (e : Env) {slot : Line} (h : slot? slot = none) (v : Vars) :
    loadVars e slot v = v := by
  have hn : ∀ S : Slot, slot ≠ S.name := by
    rintro S rfl
    rw [slot?_name] at h
    cases h
  rw [loadVars, if_neg (hn .A), if_neg (hn .B)]

/-- The loop picks the first slot in `ORDER` with attempts left. -/
theorem select_eq (e : Env) (order : List Line) (v : Vars) (hv : v.Stale) :
    select e order v =
      match Rotation.pick (slots order) (left e) with
      | some S => (some (index S), Function.update e.tries S (nextTry (e.tries S)))
      | none => (some 99, e.tries) := by
  induction order generalizing v with
  | nil => rfl
  | cons slot order ih =>
    cases hs : slot? slot with
    | none =>
      rw [select, load_other e hs, if_neg hv, ih v hv, slots, slots, List.filterMap_cons_none hs]
    | some S =>
      obtain rfl := slot?_eq_some.mp hs
      have hp : Rotation.pick (slots (S.name :: order)) (left e) =
          if 0 < left e S then some S else Rotation.pick (slots order) (left e) := by
        rw [slots, List.filterMap_cons_some hs, Rotation.pick, List.find?_cons]
        by_cases h : 0 < left e S <;> simp [h, Rotation.pick, slots]
      have hv' : (num (some (e.ok S)) = 1 ∧ num (some (e.tries S)) < 3) ↔ 0 < left e S :=
        left_pos.symm
      rw [hp]
      simp only [select, load_name, hv']
      by_cases h : 0 < left e S
      · rw [if_pos h, if_pos h]
        cases S <;> rfl
      · rw [if_neg h, if_neg h]
        exact ih _ fun hx => h (hv'.mp hx)

/-- The slot that a run of the script picks. -/
def picked (e : Env) : Option Slot := Rotation.pick (slots e.order) (left e)

/-- What a run leaves of the attempts. -/
theorem loadEnv_grubCfg (b : Block) : loadEnv (grubCfg b).2 =
    match picked (loadEnv b) with
    | some S => { loadEnv b with
        tries := Function.update (loadEnv b).tries S (nextTry ((loadEnv b).tries S)) }
    | none => loadEnv b := by
  have h := select_eq (loadEnv b) (loadEnv b).order ⟨none, none, none⟩ (by simp [Vars.Stale, num])
  show ({ loadEnv b with tries := (select _ _ _).2 } : Env) = _
  rw [h, picked]
  cases Rotation.pick (slots (loadEnv b).order) (left (loadEnv b)) <;> rfl

theorem default_picked {b : Block} {S : Slot} (h : picked (loadEnv b) = some S) :
    (grubCfg b).1 = some (index S) := by
  show chooseRescue _ (select _ _ _).1 = _
  rw [select_eq _ _ _ (by simp [Vars.Stale, num]), show Rotation.pick _ _ = some S from h]
  revert S
  simp only [chooseRescue]
  rintro (_ | _) _ <;> rfl

theorem default_rescue {b : Block} (h : picked (loadEnv b) = none) :
    (grubCfg b).1 = if (loadEnv b).ok .B = 1 then some (rescue .B)
      else if (loadEnv b).ok .A = 1 then some (rescue .A) else some 99 := by
  show chooseRescue _ (select _ _ _).1 = _
  rw [select_eq _ _ _ (by simp [Vars.Stale, num]), show Rotation.pick _ _ = none from h]
  rfl

/-- A run of the script is one turn of the rotation. -/
theorem left_saved (b : Block) :
    left (loadEnv (grubCfg b).2) = Rotation.spend (slots (loadEnv b).order) (left (loadEnv b)) := by
  rw [loadEnv_grubCfg]
  cases h : picked (loadEnv b) with
  | none => rw [Rotation.spend_of_none h]
  | some S =>
    obtain ⟨hok, ht⟩ := left_pos.mp (Rotation.left_pos h)
    rw [Rotation.spend_of_some h]
    funext T
    by_cases e : T = S
    · subst e
      simp only [left, hok, Function.update_self, ↓reduceIte]
      exact remaining_nextTry ht
    · simp only [left, Function.update_of_ne e]

end HassOS.Grub
