import HassOS.UBoot.Boot
import HassOS.UBoot.UserConfig

/-!
# The script with digits and words

Where the commands of U-Boot read digits and words as documented (`Documented`), the
stored texts are a boot state with counters (`Saved.stored`), and a boot without user
settings, or with some that make no difference, is one of that state for some outcomes
of the kernel loads (`boot_refines`), and so are boots one after another
(`boots_refine`): the loops are followed side by side, an iteration at a time
(`follows_iteration`).
-/

namespace HassOS.UBoot.UserConfig

open Framework

/-- The commands on digits, words and variables that the environment does not have. -/
structure Documented (u : Commands) : Prop where
  localVar : ∀ l, u.localVar [] l = l
  words : u.words "A B".toList = [Slot.A.name, Slot.B.name]
  testGt : ∀ n ≤ 9, u.testGt [n.digitChar] = decide (n > 0)
  setexpr : ∀ n ≤ 9, 0 < n → u.setexpr [n.digitChar] = [(n - 1).digitChar]

example : Documented
    { importText := fun _ => []
      words := words
      localVar := fun g l => if g = [] then l else g
      testGt := fun l => decide (l ≠ ['0'])
      setexpr := fun l => l.map fun c => Char.ofNat (c.toNat - 1)
      run := fun _ _ s => s } :=
  ⟨fun _ => rfl, by decide +kernel, by decide, by decide⟩

/-- The number of a digit. -/
def digit? : Line → Option ℕ
  | [c] => if c.isDigit then some (c.toNat - '0'.toNat) else none
  | _ => none

/-- The boot state that is stored. -/
def Saved.stored (u : Commands) (s : Saved) : Stored where
  order := if s.order = [] then none else some (u.words s.order)
  left S := digit? (s.left S)
  machineId := if s.machineId = [] then none else some s.machineId

/-- Counters that are stored are digits. -/
def Saved.Digits (s : Saved) : Prop := ∀ S, s.left S = [] ∨ ∃ n ≤ 9, s.left S = [n.digitChar]

/-- The default environment has no boot state of its own. -/
structure Fresh (v : Vars) : Prop where
  order : v .bootOrder = []
  left : ∀ S, v (.left S) = []
  machineId : v .machineId = []
  slot : v .bootSlot = []

/-- The loop, as far as the boot state goes: the counters, and the slot booted. -/
structure Follows (b : Board) (l : Loop) (bootargs : Option Slot) (left : Slot → ℕ) : Prop where
  left : ∀ S, left S ≤ 9 ∧ l.vars (.left S) = [(left S).digitChar]
  slot : l.vars .bootSlot = []
  none : bootargs = none → l.vars .bootargs = []
  some : ∀ S, bootargs = some S →
    ∃ v, l.kernel = some (kernelOf b S v) ∧ l.vars .bootargs = slotBootargs S v

section

variable {u : Commands} {b : Board} {i : Inputs} {v : Vars} {s : Saved} {l : Loop}
  {bootargs : Option Slot} {left : Slot → ℕ} {S : Slot}

theorem digit?_digitChar : ∀ n ≤ 9, digit? [n.digitChar] = some n := by decide

theorem Follows.isSome (h : Follows b l bootargs left) :
    l.vars .bootargs ≠ [] ↔ bootargs.isSome = true := by
  cases bootargs with
  | none => simp [h.none rfl]
  | some S =>
    obtain ⟨v, -, hv⟩ := h.some S rfl
    simp [hv, slotBootargs_ne_nil]

theorem countAttempt_left (h : Follows b l bootargs left) (hu : Documented u) (hS : 0 < left S)
    (T : Slot) : countAttempt u b i S l.vars (.left T) =
      [(Function.update left S (left S - 1) T).digitChar] := by
  rw [countAttempt, findPart_of_ne _ (by simp)]
  by_cases hT : T = S
  · obtain ⟨hle, hl⟩ := h.left S
    rw [hT, Function.update_self, Function.update_self, hl, hu.setexpr _ hle hS]
  · rw [Function.update_of_ne (by simpa using hT), Function.update_of_ne hT, (h.left T).2]

theorem follows_attempt (h : Follows b l none left) (hu : Documented u) (S : Slot) :
    ∃ ok, Follows b (attempt u b i S l) (UBoot.attempt S ok left).1 (UBoot.attempt S ok left).2 := by
  obtain ⟨hle, hl⟩ := h.left S
  by_cases hS : left S > 0
  · let w := countAttempt u b i S l.vars
    have htest : u.testGt (l.vars (.left S)) = true := by
      rw [hl, hu.testGt _ hle, decide_eq_true hS]
    have hleft : ∀ T, Function.update left S (left S - 1) T ≤ 9 ∧
        w (.left T) = [(Function.update left S (left S - 1) T).digitChar] := by
      refine fun T => ⟨?_, countAttempt_left h hu hS T⟩
      have hT := (h.left T).1
      by_cases he : T = S
      · rw [he, Function.update_self]
        omega
      · rwa [Function.update_of_ne he]
    have hw : ∀ y, y ≠ .kernelPartnum → y ≠ .left S → w y = l.vars y := by
      intro y h1 h2
      show countAttempt u b i S l.vars y = _
      rw [countAttempt, findPart_of_ne _ h1, Function.update_of_ne h2]
    refine ⟨i.load l.loads (kernelOf b S w), ?_⟩
    cases hload : i.load l.loads (kernelOf b S w) with
    | true =>
      have hstep : attempt u b i S l =
          ⟨Function.update w .bootargs (slotBootargs S w), l.loads + 1, some (kernelOf b S w)⟩ := by
        rw [attempt, if_pos htest]
        exact if_pos hload
      rw [hstep, UBoot.attempt, if_pos hS]
      refine ⟨fun T => ?_, ?_, by simp, fun T hT => ⟨w, ?_, ?_⟩⟩
      · show _ ∧ Function.update w .bootargs (slotBootargs S w) (.left T) = _
        rw [Function.update_of_ne (by simp)]
        exact hleft T
      · show Function.update w .bootargs (slotBootargs S w) .bootSlot = []
        rw [Function.update_of_ne (by simp), hw _ (by simp) (by simp), h.slot]
      · obtain rfl : S = T := by simpa using hT
        rfl
      · obtain rfl : S = T := by simpa using hT
        show Function.update w .bootargs (slotBootargs S w) .bootargs = _
        rw [Function.update_self]
    | false =>
      have hstep : attempt u b i S l = ⟨w, l.loads + 1, l.kernel⟩ := by
        rw [attempt, if_pos htest]
        exact if_neg (by rw [hload]; simp)
      rw [hstep, UBoot.attempt, if_pos hS]
      refine ⟨hleft, by simp [hw, h.slot], fun _ => ?_, by simp⟩
      simp [hw, h.none rfl]
  · have htest : u.testGt (l.vars (.left S)) = false := by
      rw [hl, hu.testGt _ hle, decide_eq_false hS]
    refine ⟨false, ?_⟩
    rw [attempt, if_neg (by simp [htest]), UBoot.attempt, if_neg hS]
    exact h

theorem follows_iteration (h : Follows b l bootargs left) (hu : Documented u) (word : Line) :
    ∃ ok, Follows b (iteration u b i l word) (UBoot.iteration word ok bootargs left).1
      (UBoot.iteration word ok bootargs left).2 := by
  simp only [iteration, UBoot.iteration, h.slot, hu.localVar, h.isSome]
  by_cases hsome : bootargs.isSome = true
  · exact ⟨false, by simpa only [hsome, if_true] using h⟩
  · obtain rfl : bootargs = none := by simpa using hsome
    simp only [Option.isSome_none, Bool.false_eq_true, if_false]
    by_cases hA : word = Slot.A.name
    · simpa only [hA, if_true] using follows_attempt h hu .A
    · by_cases hB : word = Slot.B.name
      · simpa only [hB, show Slot.B.name ≠ Slot.A.name by decide, if_true, if_false]
          using follows_attempt h hu .B
      · exact ⟨false, by simpa only [hA, hB, if_false] using h⟩

/-- The loop, for some outcomes of the loads in its iterations. -/
theorem follows_run (h : Follows b l bootargs left) (hu : Documented u) (order : List Line) :
    ∃ load, Follows b (run (iteration u b i) l order) (UBoot.slotLoop order load bootargs left).1
      (UBoot.slotLoop order load bootargs left).2 := by
  induction order generalizing l bootargs left with
  | nil => exact ⟨fun _ => false, h⟩
  | cons word order ih =>
    obtain ⟨ok, hok⟩ := follows_iteration (i := i) h hu word
    obtain ⟨load, hload⟩ := ih hok
    exact ⟨fun n => Nat.casesOn (motive := fun _ => Bool) n ok load, hload⟩

/-! ## Boots -/

theorem attempts_stored (hs : s.Digits) (hv : Fresh v) (S : Slot) :
    (UBoot.loadbootstate (s.stored u)).left S ≤ 9 ∧
      s.attempts v S = [((UBoot.loadbootstate (s.stored u)).left S).digitChar] := by
  show (digit? (s.left S)).getD 3 ≤ 9 ∧ s.attempts v S = [((digit? (s.left S)).getD 3).digitChar]
  rcases hs S with h | ⟨n, hn, h⟩
  · simp only [Saved.attempts, h, hv.left S]
    decide
  · simp only [Saved.attempts, h, digit?_digitChar n hn]
    simpa using hn

theorem follows_start (hu : Documented u) (hs : s.Digits) (hv : Fresh v) :
    let w := loadFiles u b i (assign (beforeImport b i s v) (settings u none))
    u.words (w .bootOrder) = (UBoot.loadbootstate (s.stored u)).order ∧
      Follows b ⟨w, 0, none⟩ none (UBoot.loadbootstate (s.stored u)).left := by
  intro w
  have hw : ∀ y, y ∉ [.cmdline, .fdtfile, .overlayError, .bootargs] → w y = beforeImport b i s v y := by
    intro y hy
    show loadFiles u b i (assign (beforeImport b i s v) (settings u none)) y = _
    rw [loadFiles_of_ne hy, assign_apply]
    rfl
  refine ⟨?_, fun S => ?_, ?_, fun _ => ?_, fun S hS => by simp at hS⟩
  · rw [hw _ (by simp), beforeImport_order, hv.order]
    show _ = (if s.order = [] then none else some (u.words s.order)).getD _
    by_cases ho : s.order = []
    · simpa only [ho, ne_eq, not_true_eq_false, if_true, if_false, Option.getD_none] using hu.words
    · simp only [ho, ne_eq, not_false_eq_true, if_true, if_false, Option.getD_some]
  · show _ ∧ w (.left S) = _
    rw [hw _ (by simp), beforeImport_left]
    exact attempts_stored hs hv S
  · show w .bootSlot = []
    rw [hw _ (by simp), beforeImport_of_ne _ (by simp), prepare_of_ne _ (by simp), hv.slot]
  · show loadFiles u b i (assign (beforeImport b i s v) (settings u none)) .bootargs = []
    exact Function.update_self _ _ _

/-- The variables that are stored, as a boot state. -/
theorem exportState_stored {w : Vars} {e : Env} (horder : w .bootOrder ≠ [])
    (hwords : u.words (w .bootOrder) = e.order) (hid : e.machineId = if w .machineId = [] then none
      else some (w .machineId)) (hleft : ∀ S, e.left S ≤ 9 ∧ w (.left S) = [(e.left S).digitChar]) :
    (exportState w).stored u = storebootstate e ∧ (exportState w).Digits := by
  refine ⟨?_, fun S => .inr ⟨e.left S, (hleft S).1, (hleft S).2⟩⟩
  have hcounters : (fun S => digit? (w (.left S))) = fun S => some (e.left S) :=
    funext fun S => by rw [(hleft S).2, digit?_digitChar _ (hleft S).1]
  rw [storebootstate, Saved.stored, exportState, hid, if_neg horder, hwords, hcounters]

/-- Without a file, the script sets few variables after the import. -/
theorem afterLoop_none {y : Var} (hy : y ∉ [.cmdline, .fdtfile, .overlayError, .bootargs])
    (hleft : ∀ S, y ≠ .left S) (h1 : y ≠ .kernelPartnum) :
    (afterLoop u b i none s v).vars y = beforeImport b i s v y := by
  have hargs : y ≠ .bootargs := fun e => hy (by simp [e])
  rw [afterLoop, slotLoop_of_ne _ hleft h1 hargs, loadFiles_of_ne hy, assign_apply]
  rfl

/-- A boot of the texts is one of the state they stand for. -/
theorem boot_refines (hu : Documented u) (hs : s.Digits) (hv : Fresh v) {c : Option Text}
    (h : Alike u b c none) (i : Inputs) :
    ∃ load, ((boot u b i c v s).saved.stored u = UBoot.boot (s.stored u) load ∧
        (boot u b i c v s).saved.Digits) ∧
      ((boot u b i c v s).kernel = none ↔ started (s.stored u) load = none) ∧
      ∀ S, started (s.stored u) load = some S → ∃ w, (boot u b i c v s).kernel = some (kernelOf b S w) ∧
        (boot u b i c v s).bootargs = slotBootargs S w := by
  rw [boot_eq_of_alike h]
  let l := afterLoop u b i none s v
  let e := UBoot.loadbootstate (s.stored u)
  obtain ⟨horder, hstart⟩ := follows_start (b := b) (i := i) hu hs hv
  obtain ⟨load, hrun⟩ := follows_run (i := i) hstart hu e.order
  have hloop : run (iteration u b i) ⟨loadFiles u b i (assign (beforeImport b i s v) (settings u none)),
      0, none⟩ e.order = l := by
    rw [← horder]
    rfl
  rw [hloop] at hrun
  have hown : l.vars .storebootstate = prepare b i v .storebootstate := afterLoop_storebootstate rfl i s v
  have hwords : l.vars .bootOrder ≠ [] ∧ u.words (l.vars .bootOrder) = e.order := by
    have hl : l.vars .bootOrder = beforeImport b i s v .bootOrder :=
      afterLoop_none (by simp) (by simp) (by simp)
    rw [← horder, loadFiles_of_ne (by simp), hl]
    refine ⟨?_, rfl⟩
    rw [beforeImport_order, hv.order]
    split
    · assumption
    · simp
  have hid : e.machineId = if l.vars .machineId = [] then none else some (l.vars .machineId) := by
    have hl : l.vars .machineId = s.machineId := by
      rw [afterLoop_none (by simp) (by simp) (by simp), beforeImport_machineId, hv.machineId]
      by_cases h : s.machineId = [] <;> simp [h]
    rw [hl]
    rfl
  refine ⟨load, ?_⟩
  cases hb : (UBoot.slotLoop e.order load none e.left).1 with
  | some S =>
    obtain ⟨w, hkernel, hargs⟩ := hrun.some S hb
    have hne : l.vars .bootargs ≠ [] := by
      rw [hargs]
      exact slotBootargs_ne_nil S w
    have hboot : boot u b i none v s = ⟨l.kernel, l.vars .bootargs, exportState l.vars⟩ := by
      rw [← runStore_own (u := u) hown s]
      exact if_pos hne
    have habstract : UBoot.boot (s.stored u) load = storebootstate
        { e with left := (UBoot.slotLoop e.order load none e.left).2 } := if_pos (by rw [hb]; rfl)
    have hstarted : started (s.stored u) load = some S := hb
    rw [hboot, habstract, hstarted]
    refine ⟨exportState_stored hwords.1 hwords.2 hid hrun.left, by simp [hkernel], fun T hT => ?_⟩
    cases hT
    exact ⟨w, hkernel, hargs⟩
  | none =>
    have hnil := hrun.none hb
    let w := Function.update (Function.update l.vars (.left .A) "3".toList) (.left .B) "3".toList
    have hboot : boot u b i none v s = ⟨none, [], exportState w⟩ := by
      have hstore : w .storebootstate = prepare b i v .storebootstate := by simpa [w] using hown
      rw [← runStore_own (u := u) hstore s]
      exact if_neg (by simpa using hnil)
    have habstract : UBoot.boot (s.stored u) load = storebootstate { e with left := fun _ => 3 } :=
      if_neg (by rw [hb]; simp)
    have hstarted : started (s.stored u) load = none := hb
    rw [hboot, habstract, hstarted]
    refine ⟨exportState_stored ?_ ?_ ?_ fun S => ⟨by simp, ?_⟩, by simp, by simp⟩
    · simpa [w] using hwords.1
    · simpa [w] using hwords.2
    · simpa [w] using hid
    · cases S with
      | A => simp [w]
      | B => simp [w]

/-- Boots one after another. -/
theorem boots_refine (hu : Documented u) (hs : s.Digits) (hv : Fresh v) {c : Option Text}
    (h : Alike u b c none) (is : List Inputs) :
    ∃ loads : List (ℕ → Bool), loads.length = is.length ∧
      (run (fun s i => (boot u b i c v s).saved) s is).stored u = run UBoot.boot (s.stored u) loads := by
  let R (s : Saved) (t : Stored) : Prop := s.stored u = t ∧ s.Digits
  have hstep : ∀ s t i, R s t → ∃ load, R (boot u b i c v s).saved (UBoot.boot t load) := by
    rintro s t i ⟨rfl, hs⟩
    obtain ⟨load, hload, -⟩ := boot_refines hu hs hv h i
    exact ⟨load, hload⟩
  obtain ⟨loads, hlen, hend, -⟩ := run_sim_exists hstep (show R s (s.stored u) from ⟨rfl, hs⟩) is
  exact ⟨loads, hlen, hend⟩

end

end HassOS.UBoot.UserConfig
