import HassOS.Framework.Dict
import HassOS.Framework.Run
import HassOS.Framework.Text

/-!
# The check of a configuration against its fragments (`check-dotconfig.py`)

The options of a fragment go into a dictionary (`parseFragment`), those of all
fragments into one that is updated from each (`expectedOptions`), and for each of
its items `compareConfigs` prints a message if the value is not the one of
Kconfig, which is a map from the options it knows to their values.

The dictionary has, for each option, what the last line about it in all the
fragments demands (`mem_items_expectedOptions`), so what is printed is one message
for each such line that is not met, and nothing else (`compareConfigs_reports`).
-/

namespace HassOS.Scripts

open Framework

/-- `OptionValue`: no value stands for an option that is to be unset. -/
structure OptionValue where
  option : Line
  value : Option Line
  file : Line
  line : ℕ
deriving DecidableEq

/-- A configuration fragment. -/
structure Fragment where
  filename : Line
  lines : Text

/-- `[A-Z0-9_]` -/
def isOptionChar (c : Char) : Bool := c.isUpper || c.isDigit || c = '_'

/-- A text, an option (`[A-Z0-9_]+` takes all it can), and what tells its value. -/
def matchOption (text : Line) (value : Line → Option (Option Line)) (l : Line) :
    Option (Line × Option Line) :=
  match (Pat.ofRegex text).rest l with
  | none => none
  | some r =>
    if r.takeWhile isOptionChar = [] then none
    else (value (r.dropWhile isOptionChar)).map fun v => (r.takeWhile isOptionChar, v)

/-- `=(?P<value>[mny])` -/
def setValue (s : Line) : Option (Option Line) :=
  if s = ['=', 'm'] ∨ s = ['=', 'n'] ∨ s = ['=', 'y'] then some (some s.tail) else none

def unsetValue (s : Line) : Option (Option Line) :=
  if s = " is not set".toList then some none else none

/-- The match of `regex`: the option, and its value if it is set. -/
def matchLine (l : Line) : Option (Line × Option Line) :=
  (matchOption "CONFIG_".toList setValue l).or (matchOption "# CONFIG_".toList unsetValue l)

/-- The name a fragment is reported under. -/
def reportedName (stripPathPrefix : Option Line) (filename : Line) : Line :=
  match stripPathPrefix with
  | some p => if p ≠ [] ∧ p <+: filename then filename.drop p.length else filename
  | none => filename

/-- A line with its file and its number. -/
structure Entry where
  file : Line
  line : ℕ
  text : Line

def parseLine (options : Dict Line OptionValue) (e : Entry) : Dict Line OptionValue :=
  match matchLine e.text with
  | some (x, v) => options.set x ⟨x, v, e.file, e.line⟩
  | none => options

def entries (stripPathPrefix : Option Line) (f : Fragment) : List Entry :=
  (f.lines.zipIdx 1).map fun l => ⟨reportedName stripPathPrefix f.filename, l.2, l.1⟩

def parseFragment (stripPathPrefix : Option Line) (f : Fragment) : Dict Line OptionValue :=
  run parseLine .empty (entries stripPathPrefix f)

/-- `_format_message` -/
def formatMessage (message file : Line) (line : ℕ) (githubFormat : Bool) : Line :=
  if githubFormat then
    "::warning file=".toList ++ file ++ ",line=".toList ++ (toString line).toList ++ "::".toList ++
      message
  else message ++ " (defined in ".toList ++ file ++ ":".toList ++ (toString line).toList ++ ")".toList

/-- A value in a message. -/
def showValue : Option Line → Line
  | some v => v
  | none => "None".toList

/-- What is printed for an item, if anything. -/
def compareOption (syms : Line → Option Line) (githubFormat : Bool) (option : Line)
    (spec : OptionValue) : Option Line :=
  match syms option with
  | none => some (formatMessage (option ++ "=".toList ++ showValue spec.value ++ " not found".toList)
      spec.file spec.line githubFormat)
  | some val =>
    if some val ≠ spec.value then
      if spec.value = none ∧ val = "n".toList then none
      else some (formatMessage (option ++ "=".toList ++ showValue spec.value ++
        " requested, actual = ".toList ++ val) spec.file spec.line githubFormat)
    else none

/-- The messages that are printed. -/
def compareConfigs (expectedOptions : Dict Line OptionValue) (syms : Line → Option Line)
    (githubFormat : Bool) : Text :=
  expectedOptions.items.filterMap fun i => compareOption syms githubFormat i.1 i.2

/-- `expected_options` in `main` -/
def expectedOptions (stripPathPrefix : Option Line) (fragments : List Fragment) :
    Dict Line OptionValue :=
  run (fun d f => d.update (parseFragment stripPathPrefix f)) .empty fragments

/-! ## Demands -/

/-- The line demands a value of the option. -/
inductive Demands : Line → Line → Option Line → Prop
  | set {x v : Line} (hne : x ≠ []) (hx : ∀ c ∈ x, isOptionChar c = true)
      (hv : v = ['y'] ∨ v = ['m'] ∨ v = ['n']) :
      Demands ("CONFIG_".toList ++ (x ++ '=' :: v)) x (some v)
  | unset {x : Line} (hne : x ≠ []) (hx : ∀ c ∈ x, isOptionChar c = true) :
      Demands ("# CONFIG_".toList ++ (x ++ " is not set".toList)) x none

/-- The fragment is reported as `file`: its name, without the prefix if it has it. -/
def Reported (stripPathPrefix : Option Line) (filename file : Line) : Prop :=
  (∃ p, stripPathPrefix = some p ∧ filename = p ++ file) ∨
    file = filename ∧ ∀ p, stripPathPrefix = some p → ¬ p <+: filename

/-- No line after line `j` of fragment `i` demands anything of the option. -/
def NoneAfter (fs : List Fragment) (x : Line) (i j : ℕ) : Prop :=
  ∀ i' j' f l, fs[i']? = some f → f.lines[j']? = some l → (i < i' ∨ i' = i ∧ j < j') →
    ∀ v, ¬ Demands l x v

/-- What the last line about its option demands, with the file and the number of
the line, from 1. -/
def LastDemand (stripPathPrefix : Option Line) (fs : List Fragment) (d : OptionValue) : Prop :=
  ∃ i j f l, fs[i]? = some f ∧ f.lines[j]? = some l ∧ Demands l d.option d.value ∧
    Reported stripPathPrefix f.filename d.file ∧ d.line = j + 1 ∧ NoneAfter fs d.option i j

/-- The configuration does not have what is demanded. -/
inductive Violated (syms : Line → Option Line) (d : OptionValue) : Prop
  | unknown (h : syms d.option = none)
  | differs {v val : Line} (h : syms d.option = some val) (hv : d.value = some v) (hne : v ≠ val)
  | notUnset {val : Line} (h : syms d.option = some val) (hv : d.value = none)
      (hne : val ≠ "n".toList)

/-- What is wrong with it. -/
def complaint (syms : Line → Option Line) (d : OptionValue) : Line :=
  match syms d.option with
  | none => d.option ++ "=".toList ++ d.value.getD "None".toList ++ " not found".toList
  | some val =>
    d.option ++ "=".toList ++ d.value.getD "None".toList ++ " requested, actual = ".toList ++ val

/-! ## The lines of a fragment -/

section

variable {l x s : Line} {v : Option Line}

theorem setValue_eq_some : setValue s = some v ↔
    ∃ w, s = '=' :: w ∧ v = some w ∧ (w = ['y'] ∨ w = ['m'] ∨ w = ['n']) := by
  unfold setValue
  split
  · rename_i h
    rcases h with rfl | rfl | rfl
    · simp [eq_comm]
    · simp [eq_comm]
    · simp [eq_comm]
  · rename_i h
    refine iff_of_false (by simp) ?_
    rintro ⟨w, rfl, -, hw⟩
    exact h (by simp only [List.cons.injEq, true_and]; tauto)

theorem unsetValue_eq_some : unsetValue s = some v ↔ s = " is not set".toList ∧ v = none := by
  unfold unsetValue
  split
  · rename_i h
    simp [h, eq_comm]
  · rename_i h
    exact iff_of_false (by simp) fun hs => h hs.1

/-- The option ends where the value starts. -/
theorem matchOption_iff {text : Line} {value : Line → Option (Option Line)} (htext : '.' ∉ text)
    (hvalue : ∀ s v, value s = some v → ∀ c ∈ s.head?, isOptionChar c = false) :
    matchOption text value l = some (x, v) ↔
      ∃ s, l = text ++ (x ++ s) ∧ x ≠ [] ∧ (∀ c ∈ x, isOptionChar c = true) ∧ value s = some v := by
  constructor
  · intro h
    unfold matchOption at h
    split at h
    · exact absurd h (by simp)
    · rename_i r hr
      split at h
      · exact absurd h (by simp)
      · rename_i hne
        obtain ⟨w, hw, hx⟩ := Option.map_eq_some_iff.mp h
        obtain ⟨rfl, rfl⟩ := Prod.mk.inj hx
        refine ⟨_, ?_, hne, fun c hc => List.mem_takeWhile_imp hc, hw⟩
        rw [List.takeWhile_append_dropWhile]
        exact (Pat.rest_ofRegex htext).mp hr
  · rintro ⟨s, hl, hne, hx, hs⟩
    obtain ⟨h1, h2⟩ := span_append hx (hvalue s v hs)
    simp only [matchOption, (Pat.rest_ofRegex htext).mpr hl, h1, h2, hne, hs, if_false, Option.map_some]

theorem matchOption_set_iff : matchOption "CONFIG_".toList setValue l = some (x, v) ↔
    ∃ w, v = some w ∧ (w = ['y'] ∨ w = ['m'] ∨ w = ['n']) ∧ x ≠ [] ∧
      (∀ c ∈ x, isOptionChar c = true) ∧ l = "CONFIG_".toList ++ (x ++ '=' :: w) := by
  rw [matchOption_iff (by decide)]
  · simp only [setValue_eq_some]
    constructor
    · rintro ⟨s, hl, hne, hx, w, rfl, hv, hw⟩
      exact ⟨w, hv, hw, hne, hx, hl⟩
    · rintro ⟨w, hv, hw, hne, hx, hl⟩
      exact ⟨_, hl, hne, hx, w, rfl, hv, hw⟩
  · intro s v hs
    obtain ⟨w, rfl, -⟩ := setValue_eq_some.mp hs
    simp [isOptionChar]

theorem matchOption_unset_iff : matchOption "# CONFIG_".toList unsetValue l = some (x, v) ↔
    v = none ∧ x ≠ [] ∧ (∀ c ∈ x, isOptionChar c = true) ∧
      l = "# CONFIG_".toList ++ (x ++ " is not set".toList) := by
  rw [matchOption_iff (by decide)]
  · simp only [unsetValue_eq_some]
    constructor
    · rintro ⟨s, hl, hne, hx, rfl, hv⟩
      exact ⟨hv, hne, hx, hl⟩
    · rintro ⟨hv, hne, hx, hl⟩
      exact ⟨_, hl, hne, hx, rfl, hv⟩
  · intro s v hs
    obtain ⟨rfl, -⟩ := unsetValue_eq_some.mp hs
    simp [isOptionChar]

/-- The expression matches the lines that demand something. -/
theorem matchLine_iff : matchLine l = some (x, v) ↔ Demands l x v := by
  rw [matchLine, Option.or_eq_some_iff, matchOption_set_iff, matchOption_unset_iff]
  constructor
  · rintro (⟨w, rfl, hw, hne, hx, rfl⟩ | ⟨-, rfl, hne, hx, rfl⟩)
    · exact .set hne hx hw
    · exact .unset hne hx
  · intro h
    cases h with
    | set hne hx hw => exact .inl ⟨_, rfl, hw, hne, hx, rfl⟩
    | unset hne hx => exact .inr ⟨rfl, rfl, hne, hx, rfl⟩

end

section

variable {x : Line} {e : Entry} {d : OptionValue}

/-- What a line demands of the option `x`. -/
def demandFor (x : Line) (e : Entry) : Option OptionValue :=
  match matchLine e.text with
  | some (y, v) => if y = x then some ⟨y, v, e.file, e.line⟩ else none
  | none => none

theorem demandFor_eq_some : demandFor x e = some d ↔
    d.option = x ∧ Demands e.text x d.value ∧ d.file = e.file ∧ d.line = e.line := by
  simp only [← matchLine_iff, demandFor]
  cases matchLine e.text with
  | none => simp
  | some m =>
    obtain ⟨y, v⟩ := m
    obtain ⟨option, value, file, line⟩ := d
    by_cases hx : y = x
    · simp [hx, eq_comm]
    · simp [hx]

theorem demandFor_eq_none : demandFor x e = none ↔ ∀ v, ¬ Demands e.text x v := by
  constructor
  · intro h v hv
    have hd : demandFor x e = some ⟨x, v, e.file, e.line⟩ := demandFor_eq_some.mpr ⟨rfl, hv, rfl, rfl⟩
    rw [h] at hd
    exact absurd hd (by simp)
  · intro h
    rw [Option.eq_none_iff_forall_ne_some]
    exact fun d hd => h d.value (demandFor_eq_some.mp hd).2.1

theorem get?_parseLine (options : Dict Line OptionValue) (x : Line) (e : Entry) :
    (parseLine options e).get? x = (demandFor x e).or (options.get? x) := by
  unfold parseLine demandFor
  cases matchLine e.text with
  | none => rfl
  | some m =>
    obtain ⟨y, v⟩ := m
    by_cases hx : x = y
    · simp [Dict.get?_set, hx]
    · simp [Dict.get?_set, hx, Ne.symm hx]

theorem get?_parseFragment (s : Option Line) (f : Fragment) (x : Line) :
    (parseFragment s f).get? x = (entries s f).reverse.findSome? (demandFor x) := by
  rw [parseFragment, run_latest (fun d : Dict Line OptionValue => d.get? x)
    fun options e => get?_parseLine options x e, Dict.get?_empty, Option.or_none]

/-- Each option has what the last line about it demands. -/
theorem get?_expectedOptions (s : Option Line) (fs : List Fragment) (x : Line) :
    (expectedOptions s fs).get? x = (fs.flatMap (entries s)).reverse.findSome? (demandFor x) := by
  have hstep : ∀ (d : Dict Line OptionValue) f, (d.update (parseFragment s f)).get? x =
      ((parseFragment s f).get? x).or (d.get? x) := fun _ _ => Dict.get?_update
  rw [expectedOptions, run_latest (fun d : Dict Line OptionValue => d.get? x) hstep, Dict.get?_empty,
    Option.or_none]
  induction fs with
  | nil => rfl
  | cons f fs ih =>
    rw [List.reverse_cons, List.findSome?_append, ih, List.findSome?_singleton, get?_parseFragment,
      List.flatMap_cons, List.reverse_append, List.findSome?_append]

theorem reported_iff {s : Option Line} {filename file : Line} :
    Reported s filename file ↔ file = reportedName s filename := by
  unfold Reported reportedName
  cases s with
  | none => simp
  | some p =>
    by_cases hp : p <+: filename
    · obtain ⟨r, rfl⟩ := hp
      have hlen : (p ++ r).drop p.length = r := List.drop_left
      by_cases hnil : p = []
      · simp [hnil, eq_comm]
      · simp [hnil, hlen, eq_comm]
    · have hne : ∀ r, filename ≠ p ++ r := fun r e => hp ⟨r, e.symm⟩
      simp [hp, hne]

/-- The lines of a fragment, by their numbers. -/
theorem getElem?_entries (s : Option Line) (f : Fragment) (j : ℕ) : (entries s f)[j]? =
    f.lines[j]?.map fun l => ⟨reportedName s f.filename, 1 + j, l⟩ := by
  rw [entries, List.getElem?_map, List.getElem?_zipIdx, Option.map_map]
  rfl

/-- The last entry about the option, in a list. -/
def LastEntry (es : List Entry) (d : OptionValue) : Prop :=
  ∃ (j : ℕ) (e : Entry), es[j]? = some e ∧
    (Demands e.text d.option d.value ∧ d.file = e.file ∧ d.line = e.line) ∧
    ∀ (j' : ℕ) (e' : Entry), es[j']? = some e' → j < j' → ∀ v, ¬ Demands e'.text d.option v

theorem findSome?_reverse_iff {es : List Entry} :
    es.reverse.findSome? (demandFor x) = some d ↔ d.option = x ∧ LastEntry es d := by
  simp only [List.findSome?_eq_some_iff, demandFor_eq_some, demandFor_eq_none]
  constructor
  · rintro ⟨post, e, pre, hes, ⟨rfl, hd⟩, hpost⟩
    have hes' : es = pre.reverse ++ e :: post.reverse := by
      rw [List.reverse_eq_iff.mp hes]
      simp
    refine ⟨rfl, pre.reverse.length, e, by simp [hes'], hd, fun j' e' he' hj' => hpost e' ?_⟩
    rw [hes', List.getElem?_append_right (Nat.le_of_lt hj')] at he'
    obtain ⟨k, hk⟩ := Nat.exists_eq_add_of_lt hj'
    rw [hk, show pre.reverse.length + k + 1 - pre.reverse.length = k + 1 by omega,
      List.getElem?_cons_succ] at he'
    exact List.mem_reverse.mp (List.mem_of_getElem? he')
  · rintro ⟨rfl, j, e, he, hd, hpost⟩
    obtain ⟨hj, rfl⟩ := List.getElem?_eq_some_iff.mp he
    refine ⟨(es.drop (j + 1)).reverse, es[j], (es.take j).reverse, ?_, ⟨rfl, hd⟩, fun e' he' => ?_⟩
    · rw [List.reverse_eq_iff]
      simp
    · obtain ⟨k, hk⟩ := List.mem_iff_getElem?.mp (List.mem_reverse.mp he')
      rw [List.getElem?_drop] at hk
      exact hpost _ e' hk (by omega)

/-- The last entry of a fragment, by its number. -/
theorem lastEntry_entries {s : Option Line} {f : Fragment} : LastEntry (entries s f) d ↔
    ∃ j l, f.lines[j]? = some l ∧ Demands l d.option d.value ∧ Reported s f.filename d.file ∧
      d.line = j + 1 ∧ ∀ j' l', f.lines[j']? = some l' → j < j' → ∀ v, ¬ Demands l' d.option v := by
  unfold LastEntry
  simp only [getElem?_entries, Option.map_eq_some_iff, reported_iff]
  constructor
  · rintro ⟨j, e, ⟨l, hl, rfl⟩, ⟨hd, hf, hn⟩, hpost⟩
    exact ⟨j, l, hl, hd, hf, hn.trans (Nat.add_comm 1 j), fun j' l' hl' hj' => hpost j' _ ⟨l', hl', rfl⟩ hj'⟩
  · rintro ⟨j, l, hl, hd, hf, hn, hpost⟩
    refine ⟨j, _, ⟨l, hl, rfl⟩, ⟨hd, hf, hn.trans (Nat.add_comm j 1)⟩, ?_⟩
    rintro j' e' ⟨l', hl', rfl⟩ hj'
    exact hpost j' l' hl' hj'

/-- Of two lists, the last entry is in the second, or in the first if the second
has none. -/
theorem lastEntry_append {es es' : List Entry} : LastEntry (es ++ es') d ↔
    LastEntry es' d ∨ LastEntry es d ∧ ∀ e ∈ es', ∀ v, ¬ Demands e.text d.option v := by
  constructor
  · rintro ⟨j, e, he, hd, hpost⟩
    by_cases hj : j < es.length
    · rw [List.getElem?_append_left hj] at he
      refine .inr ⟨⟨j, e, he, hd, fun j' e' he' hj' => ?_⟩, fun e' he' => ?_⟩
      · obtain ⟨hlt, -⟩ := List.getElem?_eq_some_iff.mp he'
        exact hpost j' e' (by rwa [List.getElem?_append_left hlt]) hj'
      · obtain ⟨k, hk⟩ := List.mem_iff_getElem?.mp he'
        refine hpost (es.length + k) e' ?_ (by omega)
        rwa [List.getElem?_append_right (by omega), Nat.add_sub_cancel_left]
    · rw [List.getElem?_append_right (by omega)] at he
      refine .inl ⟨_, e, he, hd, fun j' e' he' hj' => hpost (es.length + j') e' ?_ (by omega)⟩
      rwa [List.getElem?_append_right (by omega), Nat.add_sub_cancel_left]
  · rintro (⟨j, e, he, hd, hpost⟩ | ⟨⟨j, e, he, hd, hpost⟩, hnone⟩)
    · refine ⟨es.length + j, e, ?_, hd, fun j' e' he' hj' => ?_⟩
      · rwa [List.getElem?_append_right (by omega), Nat.add_sub_cancel_left]
      · rw [List.getElem?_append_right (by omega)] at he'
        exact hpost _ e' he' (by omega)
    · obtain ⟨hlt, -⟩ := List.getElem?_eq_some_iff.mp he
      refine ⟨j, e, by rwa [List.getElem?_append_left hlt], hd, fun j' e' he' hj' => ?_⟩
      by_cases hl : j' < es.length
      · rw [List.getElem?_append_left hl] at he'
        exact hpost j' e' he' hj'
      · rw [List.getElem?_append_right (by omega)] at he'
        exact hnone e' (List.mem_of_getElem? he')

/-- The last line about an option in all the fragments. -/
theorem lastEntry_flatMap {s : Option Line} {fs : List Fragment} :
    LastEntry (fs.flatMap (entries s)) d ↔ LastDemand s fs d := by
  induction fs with
  | nil => simp [LastEntry, LastDemand]
  | cons f fs ih =>
    have hnone : (∀ e ∈ fs.flatMap (entries s), ∀ v, ¬ Demands e.text d.option v) ↔
        ∀ (i j : ℕ) (f : Fragment) (l : Line), fs[i]? = some f → f.lines[j]? = some l →
          ∀ v, ¬ Demands l d.option v := by
      constructor
      · intro h i j f l hf hl
        refine h ⟨reportedName s f.filename, 1 + j, l⟩ (List.mem_flatMap.mpr ⟨f, List.mem_of_getElem? hf, ?_⟩)
        refine List.mem_iff_getElem?.mpr ⟨j, ?_⟩
        rw [getElem?_entries, hl]
        rfl
      · intro h e he
        obtain ⟨f, hf, hef⟩ := List.mem_flatMap.mp he
        obtain ⟨i, hi⟩ := List.mem_iff_getElem?.mp hf
        obtain ⟨j, hj⟩ := List.mem_iff_getElem?.mp hef
        rw [getElem?_entries] at hj
        obtain ⟨l, hl, rfl⟩ := Option.map_eq_some_iff.mp hj
        exact h i j f l hi hl
    rw [List.flatMap_cons, lastEntry_append, ih, lastEntry_entries, hnone]
    constructor
    · rintro (⟨i, j, f', l, hf, hl, hd, hr, hn, hpost⟩ | ⟨⟨j, l, hl, hd, hr, hn, hpost⟩, hrest⟩)
      · refine ⟨i + 1, j, f', l, hf, hl, hd, hr, hn, ?_⟩
        rintro (_ | i') j' g l' hg hl' hlater
        · omega
        · exact hpost i' j' g l' hg hl' (by omega)
      · refine ⟨0, j, f, l, rfl, hl, hd, hr, hn, ?_⟩
        rintro (_ | i') j' g l' hg hl' hlater
        · obtain rfl := Option.some.inj hg
          exact hpost j' l' hl' (by omega)
        · exact hrest i' j' g l' hg hl'
    · rintro ⟨_ | i, j, f', l, hf, hl, hd, hr, hn, hpost⟩
      · obtain rfl := Option.some.inj hf
        exact .inr ⟨⟨j, l, hl, hd, hr, hn, fun j' l' hl' hj' => hpost 0 j' f l' rfl hl' (by omega)⟩,
          fun i' j' g l' hg hl' => hpost (i' + 1) j' g l' hg hl' (by omega)⟩
      · exact .inl ⟨i, j, f', l, hf, hl, hd, hr, hn,
          fun i' j' g l' hg hl' hlater => hpost (i' + 1) j' g l' hg hl' (by omega)⟩

/-- The items of the dictionary are the last demands. -/
theorem mem_items_expectedOptions {s : Option Line} {fs : List Fragment} :
    (x, d) ∈ (expectedOptions s fs).items ↔ d.option = x ∧ LastDemand s fs d := by
  rw [Dict.mem_items, get?_expectedOptions, findSome?_reverse_iff, lastEntry_flatMap]

end

/-! ## What is printed -/

theorem filterMap_ite {α β : Type} (l : List α) (p : α → Bool) (f : α → β) :
    l.filterMap (fun a => if p a then some (f a) else none) = (l.filter p).map f := by
  induction l with
  | nil => rfl
  | cons a l ih => by_cases h : p a <;> simp [h, ih]

section

variable {syms : Line → Option Line} {d : OptionValue}

theorem violated_iff : Violated syms d ↔ syms d.option = none ∨
    syms d.option ≠ d.value ∧ ¬ (d.value = none ∧ syms d.option = some "n".toList) := by
  constructor
  · intro h
    cases h with
    | unknown h => exact .inl h
    | differs h hv hne => exact .inr ⟨by rw [h, hv]; simpa using hne.symm, by simp [hv]⟩
    | notUnset h hv hne => exact .inr ⟨by simp [h, hv], fun hn => hne (by simpa [h] using hn.2)⟩
  · intro h
    cases hs : syms d.option with
    | none => exact .unknown hs
    | some val =>
      rw [hs] at h
      obtain ⟨hne, hn⟩ := h.resolve_left (by simp)
      cases hv : d.value with
      | none => exact .notUnset hs hv fun hval => hn ⟨hv, congrArg some hval⟩
      | some v => exact .differs hs hv fun hval => hne (by rw [hv, hval])

instance : Decidable (Violated syms d) := decidable_of_iff' _ violated_iff

/-- A message is printed if the demand is violated. -/
theorem compareOption_eq (syms : Line → Option Line) (g : Bool) (d : OptionValue) :
    compareOption syms g d.option d = if Violated syms d then
      some (formatMessage (complaint syms d) d.file d.line g) else none := by
  have hvalue : showValue d.value = d.value.getD "None".toList := by cases d.value <;> rfl
  unfold compareOption complaint
  simp only [violated_iff, hvalue]
  cases hs : syms d.option with
  | none => simp
  | some val =>
    by_cases hv : some val = d.value
    · simp [← hv]
    · by_cases hn : d.value = none ∧ val = "n".toList
      · simp only [hn, and_self, ne_eq, reduceCtorEq, not_false_eq_true, not_true_eq_false, and_false,
          or_self, if_true, if_false]
      · simp only [hv, hn, ne_eq, reduceCtorEq, not_false_eq_true, Option.some.injEq, and_self, or_true,
          if_true, if_false]

/-- The demands that are not met. -/
def unmet (options : Dict Line OptionValue) (syms : Line → Option Line) : List OptionValue :=
  (options.items.map Prod.snd).filter (Violated syms ·)

variable {s : Option Line} {fs : List Fragment}

theorem mem_unmet : d ∈ unmet (expectedOptions s fs) syms ↔
    LastDemand s fs d ∧ Violated syms d := by
  rw [unmet, List.mem_filter, decide_eq_true_eq]
  refine and_congr_left fun _ => ⟨fun h => ?_, fun h => ?_⟩
  · obtain ⟨⟨x, d⟩, hi, rfl⟩ := List.mem_map.mp h
    exact (mem_items_expectedOptions.mp hi).2
  · exact List.mem_map.mpr ⟨(d.option, d), mem_items_expectedOptions.mpr ⟨rfl, h⟩, rfl⟩

theorem nodup_unmet : ((unmet (expectedOptions s fs) syms).map OptionValue.option).Nodup := by
  have hkeys : ((expectedOptions s fs).items.map Prod.snd).map OptionValue.option =
      (expectedOptions s fs).items.map Prod.fst := by
    rw [List.map_map]
    exact List.map_congr_left fun _ hi => (mem_items_expectedOptions.mp hi).1
  refine List.Nodup.sublist (List.filter_sublist.map OptionValue.option) ?_
  rw [hkeys]
  exact (expectedOptions s fs).nodup

theorem compareConfigs_eq (g : Bool) : compareConfigs (expectedOptions s fs) syms g =
    (unmet (expectedOptions s fs) syms).map fun d => formatMessage (complaint syms d) d.file d.line g := by
  have hitem : ∀ i ∈ (expectedOptions s fs).items, compareOption syms g i.1 i.2 =
      if decide (Violated syms i.2) then
        some (formatMessage (complaint syms i.2) i.2.file i.2.line g) else none := by
    intro i hi
    rw [← (mem_items_expectedOptions.mp hi).1, compareOption_eq]
    simp only [decide_eq_true_eq]
  rw [compareConfigs, List.filterMap_congr hitem, unmet, ← filterMap_ite, List.filterMap_map]
  rfl

end

/-- One message is printed for each last demand that is not met, with its file
and line, and nothing else is printed. -/
theorem compareConfigs_reports (stripPathPrefix : Option Line) (fragments : List Fragment)
    (syms : Line → Option Line) (githubFormat : Bool) :
    (∃ ds : List OptionValue,
      compareConfigs (expectedOptions stripPathPrefix fragments) syms githubFormat =
        ds.map (fun d =>
          if githubFormat then
            "::warning file=".toList ++ d.file ++ ",line=".toList ++ (toString d.line).toList ++
              "::".toList ++ complaint syms d
          else
            complaint syms d ++ " (defined in ".toList ++ d.file ++ ":".toList ++
              (toString d.line).toList ++ ")".toList) ∧
      (ds.map OptionValue.option).Nodup ∧
      ∀ d, d ∈ ds ↔ LastDemand stripPathPrefix fragments d ∧ Violated syms d) ∧
    (compareConfigs (expectedOptions stripPathPrefix fragments) syms githubFormat = [] ↔
      ∀ d, LastDemand stripPathPrefix fragments d → ¬ Violated syms d) := by
  refine ⟨⟨unmet (expectedOptions stripPathPrefix fragments) syms, compareConfigs_eq githubFormat,
    nodup_unmet, fun d => mem_unmet⟩, ?_⟩
  rw [compareConfigs_eq, List.map_eq_nil_iff, List.eq_nil_iff_forall_not_mem]
  simp only [mem_unmet, not_and]

example : compareConfigs (expectedOptions none
    [⟨"a".toList, ["CONFIG_SWAP=y".toList]⟩,
      ⟨"b".toList, ["CONFIG_ZRAM=m".toList, "# CONFIG_SWAP is not set".toList]⟩])
    (fun x => some (if x = "ZRAM".toList then "m".toList else "y".toList)) false =
    ["SWAP=None requested, actual = y (defined in b:2)".toList] := by decide +kernel

end HassOS.Scripts
