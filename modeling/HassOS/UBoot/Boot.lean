import HassOS.Slot

/-!
# The boot script of U-Boot (`uboot-boot.ush`)

One run of the script, from the boot state that `loadbootstate` finds to the
one that `storebootstate` leaves (`boot`). The boards' scripts differ in where
the kernels are, in the kernel command line and in the device tree; the A/B
loop and the counters are the same (with no `haos-config.txt` that sets them).
The counters are single digits, which `test` (decimal) and `setexpr`
(hexadecimal) read alike.

A slot without attempts left is not started (`started_left`), and attempts
only ever go down, unless no slot is found at all (`boot_left`).
-/

namespace HassOS.UBoot

open Framework (Line)

/-- The stored boot state; a variable that is missing is not set. -/
structure Stored where
  order : Option (List Line)
  /-- `BOOT_A_LEFT` and `BOOT_B_LEFT`. -/
  left : Slot → Option Nat
  machineId : Option Line

/-- The variables that the script loads and stores. -/
structure Env where
  order : List Line
  left : Slot → Nat
  machineId : Option Line

/-- `loadbootstate`, and the defaults of what is not set. -/
def loadbootstate (s : Stored) : Env where
  order := s.order.getD [Slot.A.name, Slot.B.name]
  left S := (s.left S).getD 3
  machineId := s.machineId

/-- `storebootstate` -/
def storebootstate (e : Env) : Stored :=
  ⟨some e.order, fun S => some (e.left S), e.machineId⟩

/-- An attempt at slot `S`: `bootargs`, as the slot it is set for, and the
attempts left. `ok` is the outcome of the kernel load. -/
def attempt (S : Slot) (ok : Bool) (left : Slot → Nat) : Option Slot × (Slot → Nat) :=
  if left S > 0 then (if ok then some S else none, Function.update left S (left S - 1))
  else (none, left)

/-- An iteration of the loop. -/
def iteration (slot : Line) (ok : Bool) (bootargs : Option Slot) (left : Slot → Nat) :
    Option Slot × (Slot → Nat) :=
  -- skip remaining slots
  if bootargs.isSome then (bootargs, left)
  else if slot = Slot.A.name then attempt .A ok left
  else if slot = Slot.B.name then attempt .B ok left
  else (bootargs, left)

/-- `for BOOT_SLOT in "${BOOT_ORDER}"`; `load n` is the outcome of a kernel
load in the iteration `n` from here. -/
def slotLoop : List Line → (Nat → Bool) → Option Slot → (Slot → Nat) → Option Slot × (Slot → Nat)
  | [], _, bootargs, left => (bootargs, left)
  | slot :: order, load, bootargs, left =>
    let (bootargs, left) := iteration slot (load 0) bootargs left
    slotLoop order (fun n => load (n + 1)) bootargs left

/-- The slot that a boot starts, if it finds one. -/
def started (s : Stored) (load : Nat → Bool) : Option Slot :=
  let e := loadbootstate s
  (slotLoop e.order load none e.left).1

/-- The script, up to the start of the kernel or the reset. -/
def boot (s : Stored) (load : Nat → Bool) : Stored :=
  let e := loadbootstate s
  let (bootargs, left) := slotLoop e.order load none e.left
  if bootargs.isSome then storebootstate { e with left := left }
  -- No valid slot found, resetting tries to 3
  else storebootstate { e with left := fun _ => 3 }

/-! ## The loop -/

/-- Attempts only go down, and a slot that is set has one. -/
theorem attempt_spec (S : Slot) (ok : Bool) (left : Slot → Nat) :
    (∀ T, (attempt S ok left).2 T ≤ left T) ∧
      ∀ T, (attempt S ok left).1 = some T → 0 < left T := by
  unfold attempt
  by_cases h : left S > 0
  · rw [if_pos h]
    refine ⟨fun T => ?_, fun T hT => ?_⟩
    · show Function.update left S (left S - 1) T ≤ left T
      by_cases e : T = S
      · rw [e, Function.update_self]
        omega
      · rw [Function.update_of_ne e]
    · have hS : (if ok then some S else none) = some T := hT
      cases ok
      · cases hS
      · cases hS
        exact h
  · rw [if_neg h]
    exact ⟨fun T => le_refl _, fun T hT => nomatch hT⟩

theorem iteration_spec (slot : Line) (ok : Bool) (bootargs : Option Slot) (left : Slot → Nat) :
    (∀ T, (iteration slot ok bootargs left).2 T ≤ left T) ∧
      ∀ T, (iteration slot ok bootargs left).1 = some T → bootargs = some T ∨ 0 < left T := by
  have ha := fun S => attempt_spec S ok left
  unfold iteration
  split
  · exact ⟨fun T => le_refl _, fun T => .inl⟩
  · split
    · exact ⟨(ha .A).1, fun T hT => .inr ((ha .A).2 T hT)⟩
    · split
      · exact ⟨(ha .B).1, fun T hT => .inr ((ha .B).2 T hT)⟩
      · exact ⟨fun T => le_refl _, fun T => .inl⟩

theorem slotLoop_spec (order : List Line) (load : Nat → Bool) (bootargs : Option Slot)
    (left : Slot → Nat) :
    (∀ T, (slotLoop order load bootargs left).2 T ≤ left T) ∧
      ∀ T, (slotLoop order load bootargs left).1 = some T → bootargs = some T ∨ 0 < left T := by
  induction order generalizing load bootargs left with
  | nil => exact ⟨fun T => le_refl _, fun T => .inl⟩
  | cons slot order ih =>
    obtain ⟨h1, h2⟩ := iteration_spec slot (load 0) bootargs left
    obtain ⟨g1, g2⟩ := ih (fun n => load (n + 1)) (iteration slot (load 0) bootargs left).1
      (iteration slot (load 0) bootargs left).2
    refine ⟨fun T => (g1 T).trans (h1 T), fun T hT => ?_⟩
    rcases g2 T hT with hb | hl
    · exact h2 T hb
    · have := h1 T
      exact .inr (by omega)

/-- A slot without attempts left is not started. -/
theorem started_left {s : Stored} {load : Nat → Bool} {S : Slot} (h : started s load = some S) :
    0 < (loadbootstate s).left S := by
  rcases (slotLoop_spec (loadbootstate s).order load none (loadbootstate s).left).2 S h with hn | hl
  · cases hn
  · exact hl

/-- A boot that starts a slot adds no attempts. -/
theorem boot_left {s : Stored} {load : Nat → Bool} (h : started s load ≠ none) (S : Slot) :
    (loadbootstate (boot s load)).left S ≤ (loadbootstate s).left S := by
  have hs : (slotLoop (loadbootstate s).order load none (loadbootstate s).left).1.isSome = true :=
    Option.isSome_iff_ne_none.mpr h
  have hb : boot s load = storebootstate { loadbootstate s with
      left := (slotLoop (loadbootstate s).order load none (loadbootstate s).left).2 } := if_pos hs
  rw [hb]
  exact (slotLoop_spec (loadbootstate s).order load none (loadbootstate s).left).1 S

end HassOS.UBoot
