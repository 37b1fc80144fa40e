import HassOS.Framework.Text

/-!
# The words that `xargs` makes of a text

`xargs` built without support for quotes splits its input at white space of any
kind, newlines included, and takes quotes and backslashes as they are
(`xargsWords`). White space ends words just as blanks do (`xargsWords_append_space`),
so where it is all spaces the words are those between the blanks
(`xargsWords_eq`), and no word has any in it (`solid_of_mem_xargsWords`).
-/

namespace HassOS.Framework

/-- White space of any kind is a blank to `xargs`. -/
def asBlank (c : Char) : Char := if isSpace c then ' ' else c

/-- The words that `xargs` makes of its input. -/
def xargsWords (l : Line) : List Line := words (l.map asBlank)

theorem isBlank_asBlank (c : Char) : isBlank (asBlank c) = isSpace c := by
  cases hs : isSpace c with
  | true =>
    rw [asBlank, if_pos hs]
    rfl
  | false =>
    rw [asBlank, if_neg (by rw [hs]; decide)]
    exact isBlank_eq_false (p := fun c => !isSpace c) rfl rfl (by rw [hs]; rfl)

theorem isSpace_of_isBlank {c : Char} (h : isBlank c = true) : isSpace c = true := by
  simp only [isBlank, Bool.or_eq_true, decide_eq_true_eq] at h
  rcases h with rfl | rfl <;> rfl

/-- White space separates the words before it from those after it. -/
theorem xargsWords_append_space (a b : Line) {c : Char} (hc : isSpace c = true) :
    xargsWords (a ++ c :: b) = xargsWords a ++ xargsWords b := by
  rw [xargsWords, List.map_append, List.map_cons,
    words_append_blank _ _ (by rw [isBlank_asBlank, hc])]
  rfl

theorem xargsWords_append {a : Line} (ha : EndsBlank a) (b : Line) :
    xargsWords (a ++ b) = xargsWords a ++ xargsWords b := by
  rcases List.eq_nil_or_concat a with rfl | ⟨a, c, rfl⟩
  · rfl
  · have hc : isSpace c = true := isSpace_of_isBlank (ha c (by simp))
    rw [List.concat_eq_append, List.append_assoc, List.singleton_append,
      xargsWords_append_space a b hc, xargsWords_append_space a [] hc]
    exact (congrArg (· ++ xargsWords b) (List.append_nil _)).symm

theorem map_asBlank {l : Line} (h : ∀ c ∈ l, isSpace c = true → c = ' ') : l.map asBlank = l := by
  refine (List.map_congr_left fun c hc => ?_).trans (List.map_id l)
  show asBlank c = c
  cases hs : isSpace c with
  | true => rw [asBlank, if_pos hs, h c hc hs]
  | false => rw [asBlank, if_neg (by rw [hs]; decide)]

/-- Without white space but spaces, the words are those between the blanks. -/
theorem xargsWords_eq {l : Line} (h : ∀ c ∈ l, isSpace c = true → c = ' ') :
    xargsWords l = words l := by
  rw [xargsWords, map_asBlank h]

/-- Words have no white space in them. -/
theorem solid_of_mem_xargsWords {w l : Line} (h : w ∈ xargsWords l) : ∀ c ∈ w, isSpace c = false := by
  intro c hc
  obtain ⟨a, b, hl⟩ := mem_words h
  have hmem : c ∈ l.map asBlank := by
    rw [hl]
    exact List.mem_append_right _ (List.mem_append_left _ hc)
  obtain ⟨d, -, rfl⟩ := List.mem_map.mp hmem
  have hd : isSpace d = false := by
    rw [← isBlank_asBlank]
    exact solid_of_mem_words h _ hc
  rw [asBlank, if_neg (by rw [hd]; decide), hd]

/-- The words are no longer than the text. -/
theorem length_flatten_words_le (l : Line) : (words l).flatten.length ≤ l.length := by
  have hsplit : ∀ l : Line, (l.splitOnP isBlank).flatten.length ≤ l.length := by
    intro l
    induction l with
    | nil => simp
    | cons c l ih =>
      rw [List.splitOnP_cons_eq_if_modifyHead]
      split
      · rw [List.flatten_cons, List.nil_append, List.length_cons]
        omega
      · cases hs : l.splitOnP isBlank with
        | nil => exact absurd hs (List.splitOnP_ne_nil _ _)
        | cons v vs =>
          rw [hs] at ih
          simpa using ih
  rw [words, List.flatten_filter_ne_nil]
  exact hsplit l

theorem length_flatten_xargsWords_le (l : Line) : (xargsWords l).flatten.length ≤ l.length :=
  (length_flatten_words_le _).trans_eq (List.length_map ..)

end HassOS.Framework
