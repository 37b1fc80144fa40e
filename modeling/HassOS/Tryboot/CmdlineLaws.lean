import HassOS.Tryboot.Slots

/-!
# The laws of the accessors of kernel command lines

`set_value` replaces the leftmost textual match of `$key=`, in which a `.`
stands for any character, while `get_value` looks at the words that start with
one. `Laws` are what one expects of such a pair on a line; they hold exactly
where the two agree (`Lawful`, `laws_iff`): no textual match, or one that is
the key itself at the start of a word.
-/

namespace HassOS.Tryboot

open Framework

/-- A word that sets `key`. -/
def keyWord (key value : Line) : Line := key ++ '=' :: value

/-- The words of the line that do not start with `$key=`. -/
def otherWords (key l : Line) : List Line := (words l).filter fun w => !(key ++ ['=']).isPrefixOf w

/-- The output, with its newlines. -/
def printed (out : Text) : Line := out.flatMap (· ++ ['\n'])

/-- What one expects of `set_value key value`, with respect to another `key'`. -/
structure Laws (key key' value l : Line) : Prop where
  get_set : printed (getValue key (setValue key value l)) = value ++ ['\n']
  get_set_other : getValue key' (setValue key value l) = getValue key' l
  others : otherWords key (setValue key value l) = otherWords key l
  set_set : setValue key value (setValue key value l) = setValue key value l

/-- Letters, dots and underscores. -/
def IsKey (key : Line) : Prop := ∀ c ∈ key, c.isAlpha = true ∨ c = '.' ∨ c = '_'

/-- Words between spaces, without quotes and backslashes. -/
def IsCommandLine (l : Line) : Prop :=
  ∀ c ∈ l, (isSpace c = true → c = ' ') ∧ c ∉ "\"'\\".toList

/-- `get_value` takes nothing from the word. -/
def Ignores (key w : Line) : Prop := (keyPat key).rest w = none

instance (key : Line) : Decidable (IsKey key) :=
  inferInstanceAs (Decidable (∀ c ∈ key, c.isAlpha = true ∨ c = '.' ∨ c = '_'))

instance (l : Line) : Decidable (IsCommandLine l) :=
  inferInstanceAs (Decidable (∀ c ∈ l, (isSpace c = true → c = ' ') ∧ c ∉ "\"'\\".toList))

instance (key w : Line) : Decidable (Ignores key w) := inferInstanceAs (Decidable (_ = none))

/-- The words that a match of the key starts. -/
def matchedWords (key l : Line) : List Line :=
  (words l).filter fun w => ((keyPat key).rest w).isSome

/-- What the words set that a match of the key starts. -/
def tokenValues (key l : Line) : Text := (matchedWords key l).map cutFields

/-- The accessors agree about the line, given its leftmost textual match of the
key: there is none, or it is the key itself, and it starts the only word that a
match starts, or else `value` stands there already, in another word. -/
def LawfulAt (key key' value l : Line) : Option (Line × Line) → Prop
  | none => Ignores key' (keyWord key value)
  | some (a, b) =>
    l = a ++ keyWord key b ∧
      if EndsBlank a then
        matchedWords key (b.dropWhile (· ≠ ' ')) = [] ∧
          (b.takeWhile (· ≠ ' ') = value ∨ (Ignores key' (keyWord key (b.takeWhile (· ≠ ' '))) ∧
            Ignores key' (keyWord key value)))
      else
        b.takeWhile (· ≠ ' ') = value ∧
          tokenValues key (b.dropWhile (· ≠ ' ')) = [value]

def Lawful (key key' value l : Line) : Prop := LawfulAt key key' value l ((keyPat key).find l)

instance (key key' value l : Line) :
    (o : Option (Line × Line)) → Decidable (LawfulAt key key' value l o)
  | none => inferInstanceAs (Decidable (Ignores _ _))
  | some (_, _) => inferInstanceAs (Decidable (_ ∧ ite _ (_ ∧ (_ ∨ (_ ∧ _))) (_ ∧ _)))

instance (key key' value l : Line) : Decidable (Lawful key key' value l) :=
  inferInstanceAs (Decidable (LawfulAt _ _ _ _ _))

/-! ## Keys -/

section

variable {k k' v l a b r u x y : Line}

theorem notMem_of_isKey (hk : IsKey k) {c : Char} (hc : c.isAlpha = false ∧ c ≠ '.' ∧ c ≠ '_') :
    c ∉ k := fun h => by
  rcases hk c h with e | e | e
  · exact Bool.false_ne_true (hc.1.symm.trans e)
  · exact hc.2.1 e
  · exact hc.2.2 e

theorem keyPat_eq (k : Line) : keyPat k = Pat.ofRegex k ++ [some '='] := by
  rw [keyPat, Pat.ofRegex, Pat.ofRegex, List.map_append]
  rfl

theorem length_keyPat (k : Line) : (keyPat k).length = k.length + 1 := by
  rw [keyPat_eq, List.length_append, Pat.ofRegex, List.length_map, List.length_singleton]

/-- A match of the key ends in its `=`. -/
theorem rest_key (h : (keyPat k).rest x = some r) :
    ∃ m, x = m ++ '=' :: r ∧ m.length = k.length ∧ ∀ d, (keyPat k).rest (m ++ '=' :: d) = some d := by
  rw [keyPat_eq, Pat.rest_concat] at h
  obtain ⟨m, rfl, hm⟩ := h
  refine ⟨m, rfl, ?_, fun d => ?_⟩
  · have hlen := Pat.length_of_rest hm
    rwa [Pat.ofRegex, List.length_map, List.length_nil, Nat.add_zero] at hlen
  · rw [keyPat_eq, Pat.rest_concat]
    exact ⟨m, rfl, hm⟩

theorem rest_keyWord (k v : Line) : (keyPat k).rest (keyWord k v) = some v := by
  rw [keyPat_eq, Pat.rest_concat]
  exact ⟨k, rfl, Pat.rest_self k⟩

theorem cutFields_keyWord (hk : '=' ∉ k) (v : Line) : cutFields (keyWord k v) = v := by
  have hd : (keyWord k v).dropWhile (· ≠ '=') = '=' :: v := by
    induction k with
    | nil => rfl
    | cons c k ih =>
      rw [List.mem_cons, not_or] at hk
      rw [keyWord, List.cons_append, List.dropWhile_cons, if_pos (by simpa using Ne.symm hk.1)]
      exact ih hk.2
  rw [cutFields, hd]
  rfl

theorem keyPat_ne_nil (k : Line) : keyPat k ≠ [] := by
  rw [keyPat_eq]
  simp

/-- A match does not end in a text without `=`. -/
theorem rest_left_of_notMem (hx : '=' ∉ x) (h : (keyPat k).rest (u ++ x) = some r) :
    ∃ d, (keyPat k).rest u = some d := by
  obtain ⟨m, hm, -, hr⟩ := rest_key h
  rcases List.append_eq_append_iff.mp hm with ⟨d, -, rfl⟩ | ⟨d, rfl, hd⟩
  · exact absurd (List.mem_append_right d List.mem_cons_self) hx
  · cases d with
    | nil =>
      rw [List.nil_append] at hd
      exact absurd (hd ▸ List.mem_cons_self) hx
    | cons c d =>
      obtain ⟨rfl, -⟩ := List.cons.inj hd
      exact ⟨d, hr d⟩

theorem clean_append (hx : '=' ∉ x) (h : (keyPat k).Clean l) : (keyPat k).Clean (l ++ x) := by
  rw [Pat.clean_iff] at h ⊢
  intro u y hy
  cases hr : (keyPat k).rest y with
  | none => rfl
  | some r =>
    rcases List.append_eq_append_iff.mp hy with ⟨d, rfl, hd⟩ | ⟨d, hl, rfl⟩
    · -- The match lies in `x`.
      obtain ⟨m, rfl, -⟩ := rest_key hr
      refine absurd ?_ hx
      rw [hd]
      exact List.mem_append_right d (List.mem_append_right m List.mem_cons_self)
    · obtain ⟨e, he⟩ := rest_left_of_notMem hx hr
      have hnone := h u d hl
      rw [he] at hnone
      cases hnone

/-- Nothing that starts before a word for the key matches it. -/
theorem rest_before (hk : '=' ∉ k) (hu : u ≠ []) (h : (keyPat k).Clean u) (v : Line) :
    (keyPat k).rest (u ++ keyWord k v) = none := by
  cases hr : (keyPat k).rest (u ++ keyWord k v) with
  | none => rfl
  | some r =>
    have hpos := List.length_pos_iff.mpr hu
    rw [keyWord, ← List.append_assoc] at hr
    obtain ⟨d, hd⟩ := Pat.rest_left hr (by rw [length_keyPat, List.length_append]; omega)
    obtain ⟨e, he⟩ := rest_left_of_notMem hk hd
    have hnone := Pat.clean_iff.mp h [] u rfl
    rw [he] at hnone
    cases hnone

/-- The leftmost match of the key, where nothing before it has one. -/
theorem find_keyWord (hk : '=' ∉ k) (h : (keyPat k).Clean a) (b : Line) :
    (keyPat k).find (a ++ keyWord k b) = some (a, b) := by
  refine Pat.find_eq_of_leftmost (rest_keyWord k b) fun u y hy hu => ?_
  rcases List.append_eq_append_iff.mp hy with ⟨d, rfl, -⟩ | ⟨d, rfl, rfl⟩
  · rw [List.length_append] at hu
    omega
  · refine rest_before hk ?_ h.append_right b
    rintro rfl
    rw [List.append_nil] at hu
    exact Nat.lt_irrefl _ hu

/-! ## Words -/

/-- No blanks. -/
def Solid (w : Line) : Prop := ∀ c ∈ w, isBlank c = false

theorem solid_append {w w' : Line} (h : Solid w) (h' : Solid w') : Solid (w ++ w') := fun c hc =>
  (List.mem_append.mp hc).elim (h c) (h' c)

theorem solid_equals : Solid ['='] := by simp [Solid, isBlank]

theorem solid_keyWord (hk : Solid k) (hv : Solid v) : Solid (keyWord k v) := by
  refine solid_append hk fun c hc => ?_
  rcases List.mem_cons.mp hc with rfl | hc
  · decide
  · exact hv c hc

theorem keyWord_ne_nil (k v : Line) : keyWord k v ≠ [] := by simp [keyWord]

theorem tokenValues_append_left (ha : EndsBlank a) (k b : Line) :
    tokenValues k (a ++ b) = tokenValues k a ++ tokenValues k b := by
  rw [tokenValues, tokenValues, tokenValues, matchedWords, matchedWords, matchedWords,
    words_append ha, List.filter_append, List.map_append]

theorem tokenValues_append_right (hb : StartsBlank b) (k a : Line) :
    tokenValues k (a ++ b) = tokenValues k a ++ tokenValues k b := by
  rw [tokenValues, tokenValues, tokenValues, matchedWords, matchedWords, matchedWords,
    words_append_right hb, List.filter_append, List.map_append]

theorem otherWords_append_left (ha : EndsBlank a) (k b : Line) :
    otherWords k (a ++ b) = otherWords k a ++ otherWords k b := by
  rw [otherWords, otherWords, otherWords, words_append ha, List.filter_append]

theorem otherWords_append_right (hb : StartsBlank b) (k a : Line) :
    otherWords k (a ++ b) = otherWords k a ++ otherWords k b := by
  rw [otherWords, otherWords, otherWords, words_append_right hb, List.filter_append]

theorem tokenValues_eq_nil : tokenValues k l = [] ↔ matchedWords k l = [] := List.map_eq_nil_iff

/-- A line without a textual match sets nothing. -/
theorem tokenValues_clean (h : (keyPat k).Clean l) : tokenValues k l = [] := by
  rw [tokenValues, List.map_eq_nil_iff, matchedWords, List.filter_eq_nil_iff]
  intro w hw hr
  obtain ⟨x, y, rfl⟩ := mem_words hw
  have hnone := Pat.clean_iff.mp h x (w ++ y) rfl
  obtain ⟨r, hr⟩ := Option.isSome_iff_exists.mp hr
  rw [Pat.rest_append_right hr] at hnone
  cases hnone

theorem tokenValues_word {w : Line} (hne : w ≠ []) (hw : Solid w) (k : Line) :
    tokenValues k w = if ((keyPat k).rest w).isSome then [cutFields w] else [] := by
  rw [tokenValues, matchedWords, words_solid hne hw, List.filter_singleton]
  cases ((keyPat k).rest w).isSome <;> rfl

theorem tokenValues_keyWord (hk : '=' ∉ k) (hs : Solid k) (hv : Solid v) (k' : Line) :
    tokenValues k' (keyWord k v) = if ((keyPat k').rest (keyWord k v)).isSome then [v] else [] := by
  rw [tokenValues_word (keyWord_ne_nil k v) (solid_keyWord hs hv), cutFields_keyWord hk]

theorem isPrefixOf_iff {w : Line} :
    (k ++ ['=']).isPrefixOf w = true ↔ ∃ d, w = keyWord k d := by
  rw [List.isPrefixOf_iff_prefix]
  constructor
  · rintro ⟨d, rfl⟩
    exact ⟨d, List.append_assoc _ _ _⟩
  · rintro ⟨d, rfl⟩
    exact ⟨d, List.append_assoc _ _ _⟩

theorem otherWords_keyWord (hk : Solid k) (hv : Solid v) : otherWords k (keyWord k v) = [] := by
  rw [otherWords, words_solid (keyWord_ne_nil k v) (solid_keyWord hk hv), List.filter_singleton,
    isPrefixOf_iff.mpr ⟨v, rfl⟩]
  rfl

/-- A word that no match starts is another word. -/
theorem otherWords_word {w : Line} (hne : w ≠ []) (hw : Solid w)
    (h : ∀ d, w ≠ keyWord k d) : otherWords k w = [w] := by
  have hp : (k ++ ['=']).isPrefixOf w = false :=
    Bool.eq_false_iff.mpr fun e => (isPrefixOf_iff.mp e).elim h
  rw [otherWords, words_solid hne hw, List.filter_singleton, hp]
  rfl

/-! ## A replaced match -/

/-- The end of a match that has a blank in it sets no key. -/
theorem otherWords_tail {old : Line} (hk : '=' ∉ k) (hx : Solid x) (hold : Solid old)
    (hlen : x.length ≤ k.length) (heq : '=' ∈ x) : otherWords k (x ++ old) = [x ++ old] := by
  refine otherWords_word (by rintro e; rw [(List.append_eq_nil_iff.mp e).1] at heq; cases heq)
    (solid_append hx hold) fun d hd => ?_
  rcases List.append_eq_append_iff.mp hd with ⟨e, rfl, -⟩ | ⟨e, rfl, -⟩
  · exact hk (List.mem_append_left _ heq)
  · rw [List.length_append] at hlen
    obtain rfl : e = [] := List.eq_nil_of_length_eq_zero (by omega)
    rw [List.append_nil] at heq
    exact hk heq

/-- A match of the length of the key, before something, is the key itself. -/
theorem keyWord_eq_append {m old : Line} (hlen : m.length = k.length + 1) :
    keyWord k v = m ++ old ↔ m = k ++ ['='] ∧ old = v := by
  rw [keyWord, List.append_cons]
  constructor
  · intro h
    obtain ⟨h1, h2⟩ := List.append_inj h (by rw [List.length_append, hlen]; rfl)
    exact ⟨h1.symm, h2.symm⟩
  · rintro ⟨rfl, rfl⟩
    rfl

/-- Where the match has no blank: the word it stands in. -/
theorem otherWords_solid_iff {m old : Line} (hs : Solid k) (hv : Solid v) (hu : Solid u)
    (hm : m.length = k.length + 1) (hms : Solid m) (hold : Solid old)
    (hset : u ≠ [] → otherWords k (u ++ keyWord k v) = [u ++ keyWord k v])
    (hstart : u ≠ [] → (keyPat k).rest (u ++ (m ++ old)) = none) :
    otherWords k (u ++ keyWord k v) = otherWords k (u ++ (m ++ old)) ↔
      m = k ++ ['='] ∧ (u = [] ∨ old = v) := by
  have hne : m ++ old ≠ [] := fun e => by
    rw [(List.append_eq_nil_iff.mp e).1] at hm
    cases hm
  by_cases hu' : u = []
  · subst hu'
    rw [List.nil_append, List.nil_append, otherWords_keyWord hs hv]
    by_cases h : m = k ++ ['=']
    · refine iff_of_true ?_ ⟨h, .inl rfl⟩
      rw [h, ← List.append_cons]
      exact (otherWords_keyWord hs hold).symm
    · refine iff_of_false ?_ fun hm => h hm.1
      rw [otherWords_word hne (solid_append hms hold) fun d hd => ?_]
      · exact fun e => nomatch e
      · exact h (((keyWord_eq_append hm).mp hd.symm).1)
  · have hword : ∀ d, u ++ (m ++ old) ≠ keyWord k d := fun d hd => by
      have hr := hstart hu'
      rw [hd, rest_keyWord] at hr
      cases hr
    rw [hset hu', otherWords_word (by simp [hu']) (solid_append hu (solid_append hms hold)) hword,
      List.cons_eq_cons, and_iff_left rfl, List.append_cancel_left_eq, keyWord_eq_append hm,
      or_iff_right hu']

/-- Where the match has a blank, it takes words away. -/
theorem otherWords_blank {m old : Line} (hk : '=' ∉ k) (hs : Solid k) (hv : Solid v) (hu : Solid u)
    (hlen : m.length = k.length) (hms : ¬ Solid (m ++ ['='])) (hold : Solid old)
    (hset : u ≠ [] → otherWords k (u ++ keyWord k v) = [u ++ keyWord k v])
    (hstart : u ≠ [] → (keyPat k).rest (u ++ (m ++ ['='] ++ old)) = none) :
    otherWords k (u ++ keyWord k v) ≠ otherWords k (u ++ (m ++ ['='] ++ old)) := by
  obtain ⟨m₁, x, hm, hb, hx⟩ := exists_solid_suffix m
  have hm₁ : m₁ ≠ [] := by
    rintro rfl
    rw [List.nil_append] at hm
    exact hms (solid_append (hm ▸ hx) solid_equals)
  have hxlen : (x ++ ['=']).length ≤ k.length := by
    have := List.length_pos_iff.mpr hm₁
    rw [hm, List.length_append] at hlen
    rw [List.length_append, List.length_singleton]
    omega
  have htail := otherWords_tail hk (solid_append hx solid_equals) hold hxlen
    (List.mem_append_right x (List.mem_singleton_self '='))
  have hsplit : otherWords k (u ++ (m ++ ['='] ++ old)) =
      otherWords k (u ++ m₁) ++ [x ++ ['='] ++ old] := by
    rw [← htail, ← otherWords_append_left ((endsBlank_append hm₁ u).mpr hb), hm]
    simp only [List.append_assoc]
  rw [hsplit]
  by_cases hu' : u = []
  · subst hu'
    rw [List.nil_append, otherWords_keyWord hs hv]
    simp
  · -- The first word is a word of its own.
    rw [hset hu']
    intro e
    have hnil : otherWords k (u ++ m₁) = [] :=
      (List.append_inj' ((List.nil_append _).trans e) rfl).1.symm
    rw [otherWords, words_solid_append hu' hu, List.filter_cons] at hnil
    have hp : ((k ++ ['=']).isPrefixOf (u ++ m₁.takeWhile fun c => !isBlank c)) = false := by
      refine Bool.eq_false_iff.mpr fun e => ?_
      obtain ⟨d, hd⟩ := isPrefixOf_iff.mp e
      have hr := hstart hu'
      rw [hm, ← List.takeWhile_append_dropWhile (p := fun c => !isBlank c) (l := m₁)] at hr
      simp only [List.append_assoc] at hr
      rw [← List.append_assoc, hd, Pat.rest_append_right (rest_keyWord k d)] at hr
      cases hr
    rw [hp] at hnil
    simp at hnil

/-- The words other than the key's are what they were exactly if the match was
the key itself, and stood at the start of a word or before `v` already. -/
theorem otherWords_match_iff {m old : Line} (hk : '=' ∉ k) (hs : Solid k) (hv : Solid v)
    (hu : Solid u) (hclean : (keyPat k).Clean u) (hm : (keyPat k).rest m = some [])
    (hold : Solid old) (hstart : u ≠ [] → (keyPat k).rest (u ++ (m ++ old)) = none) :
    otherWords k (u ++ keyWord k v) = otherWords k (u ++ (m ++ old)) ↔
      m = k ++ ['='] ∧ (u = [] ∨ old = v) := by
  obtain ⟨m', rfl, hlen, -⟩ := rest_key hm
  have hset : u ≠ [] → otherWords k (u ++ keyWord k v) = [u ++ keyWord k v] := fun hne =>
    otherWords_word (by simp [hne]) (solid_append hu (solid_keyWord hs hv)) fun d e => by
      have hr := rest_before hk hne hclean v
      rw [e, rest_keyWord] at hr
      cases hr
  by_cases hms : Solid (m' ++ ['='])
  · exact otherWords_solid_iff hs hv hu (by rw [List.length_append, hlen]; rfl) hms hold hset hstart
  · refine iff_of_false (otherWords_blank hk hs hv hu hlen hms hold hset hstart) ?_
    rintro ⟨h, -⟩
    rw [h] at hms
    exact hms (solid_append hs solid_equals)

/-! ## Lines that are set -/

theorem setValue_of_clean (h : (keyPat k).Clean l) (v : Line) :
    setValue k v l = l ++ ' ' :: keyWord k v := if_pos h

theorem not_clean (h : (keyPat k).find l = some (a, b)) : ¬ (keyPat k).Clean l := fun e => by
  rw [Pat.Clean, h] at e
  cases e

theorem setValue_of_find (h : (keyPat k).find l = some (a, b)) (hn : '\n' ∉ v) :
    setValue k v l = a ++ (keyWord k v ++ b.dropWhile (· ≠ ' ')) := by
  rw [setValue_eq hn, if_neg (not_clean h), sedToken, h]
  rfl

theorem dropWhile_solid (hv : Solid v) (r : Line) :
    (v ++ r).dropWhile (· ≠ ' ') = r.dropWhile (· ≠ ' ') := by
  refine List.dropWhile_append_of_pos fun c hc => ?_
  have := hv c hc
  rw [decide_eq_true_eq]
  rintro rfl
  cases this

/-- To set a value again changes nothing. -/
theorem setValue_again (hk : '=' ∉ k) (hv : Solid v) (hn : '\n' ∉ v) (h : (keyPat k).Clean a) (b : Line) :
    setValue k v (a ++ (keyWord k v ++ b.dropWhile (· ≠ ' '))) =
      a ++ (keyWord k v ++ b.dropWhile (· ≠ ' ')) := by
  have hkey : keyWord k v ++ b.dropWhile (· ≠ ' ') = keyWord k (v ++ b.dropWhile (· ≠ ' ')) :=
    List.append_assoc _ _ _
  rw [hkey, setValue_of_find (find_keyWord hk h _) hn, dropWhile_solid hv, List.dropWhile_idempotent,
    hkey]

theorem tokenValues_append_blank (k a b : Line) :
    tokenValues k (a ++ ' ' :: b) = tokenValues k a ++ tokenValues k b := by
  rw [tokenValues, tokenValues, tokenValues, matchedWords, matchedWords, matchedWords,
    words_append_blank a b rfl, List.filter_append, List.map_append]

theorem otherWords_append_blank (k a b : Line) :
    otherWords k (a ++ ' ' :: b) = otherWords k a ++ otherWords k b := by
  rw [otherWords, otherWords, otherWords, words_append_blank a b rfl, List.filter_append]

theorem tokenValues_keyWord_eq_nil (hk : '=' ∉ k) (hs : Solid k) (hv : Solid v) :
    tokenValues k' (keyWord k v) = [] ↔ Ignores k' (keyWord k v) := by
  rw [tokenValues_keyWord hk hs hv, Ignores]
  cases (keyPat k').rest (keyWord k v) <;> simp

/-- Setting the key to another value is seen by no key that ignores both words. -/
theorem tokenValues_keyWord_eq {old : Line} (hk : '=' ∉ k) (hs : Solid k) (hv : Solid v)
    (hold : Solid old) : tokenValues k' (keyWord k v) = tokenValues k' (keyWord k old) ↔
      old = v ∨ (Ignores k' (keyWord k old) ∧ Ignores k' (keyWord k v)) := by
  rw [tokenValues_keyWord hk hs hv, tokenValues_keyWord hk hs hold, Ignores, Ignores]
  by_cases e : old = v
  · rw [e]
    simp
  · cases (keyPat k').rest (keyWord k v) <;> cases (keyPat k').rest (keyWord k old) <;>
      simp [e, Ne.symm e]

/-- Where spaces are the only white space, `get_value` looks at the words
between the blanks. -/
theorem getValue_eq (hl : ∀ c ∈ l, isSpace c = true → c = ' ') (k : Line) :
    getValue k l = tokenValues k l := by
  rw [getValue, xargsWords_eq hl, tokenValues, matchedWords]

/-- What is in a key is neither white space nor a `=`. -/
theorem isKey_facts (hk : IsKey k) : '=' ∉ k ∧ ∀ c ∈ k, isSpace c = false := by
  refine ⟨notMem_of_isKey hk (by decide), fun c hc => Bool.eq_false_iff.mpr fun e => ?_⟩
  have hspace : c ∈ [' ', '\t', '\n', '\x0b', '\x0c', '\r'] := by
    simpa [isSpace, Char.isWhitespace, or_assoc, or_comm, or_left_comm] using e
  refine notMem_of_isKey hk ?_ hc
  clear e hc
  revert c
  decide

/-- A line that is set has the characters of the line, of the key and of the value. -/
theorem forall_setValue {p : Char → Prop} (hk : ∀ c ∈ k, p c) (hl : ∀ c ∈ l, p c)
    (hv : ∀ c ∈ v, p c) (he : p '=') (hb : p ' ') : ∀ c ∈ setValue k v l, p c := by
  have hkv : ∀ c ∈ keyWord k v, p c := by
    intro c hc
    rcases List.mem_append.mp hc with h | h
    · exact hk c h
    · rcases List.mem_cons.mp h with rfl | h
      · exact he
      · exact hv c h
  cases hf : (keyPat k).find l with
  | none =>
    rw [setValue_of_clean hf]
    intro c hc
    rcases List.mem_append.mp hc with h | h
    · exact hl c h
    · rcases List.mem_cons.mp h with rfl | h
      · exact hb
      · exact hkv c h
  | some ab =>
    obtain ⟨a, b⟩ := ab
    by_cases hn : '\n' ∈ v
    · rw [setValue, if_neg (not_clean hf), if_pos hn]
      exact fun _ h => absurd h List.not_mem_nil
    obtain ⟨m, rfl, -⟩ := Pat.find_eq_some hf
    rw [setValue_of_find hf hn]
    intro c hc
    rcases List.mem_append.mp hc with h | h
    · exact hl c (List.mem_append_left _ h)
    · rcases List.mem_append.mp h with h | h
      · exact hkv c h
      · exact hl c (List.mem_append_right _ (List.mem_append_right _
          (List.dropWhile_sublist _ |>.subset h)))

/-- The laws on a line without a textual match. -/
theorem laws_of_clean (hk : '=' ∉ k) (hs : Solid k) (hv : Solid v) (hn : '\n' ∉ v)
    (h : (keyPat k).Clean l) :
    (tokenValues k (setValue k v l) = [v] ∧ tokenValues k' (setValue k v l) = tokenValues k' l ∧
      otherWords k (setValue k v l) = otherWords k l ∧
        setValue k v (setValue k v l) = setValue k v l) ↔ Ignores k' (keyWord k v) := by
  have hget : tokenValues k (setValue k v l) = [v] := by
    rw [setValue_of_clean h, tokenValues_append_blank, tokenValues_clean h, tokenValues_keyWord hk hs hv,
      rest_keyWord]
    rfl
  have hothers : otherWords k (setValue k v l) = otherWords k l := by
    rw [setValue_of_clean h, otherWords_append_blank, otherWords_keyWord hs hv, List.append_nil]
  have hagain : setValue k v (setValue k v l) = setValue k v l := by
    have hc : (keyPat k).Clean (l ++ [' ']) := clean_append (by decide) h
    have := setValue_again hk hv hn hc []
    rwa [List.dropWhile_nil, List.append_nil, List.append_assoc, List.singleton_append,
      ← setValue_of_clean h] at this
  have hother : tokenValues k' (setValue k v l) = tokenValues k' l ↔ Ignores k' (keyWord k v) := by
    rw [setValue_of_clean h, tokenValues_append_blank, List.append_right_eq_self]
    exact tokenValues_keyWord_eq_nil hk hs hv
  exact ⟨fun h => hother.mp h.2.1, fun h => ⟨hget, hother.mpr h, hothers, hagain⟩⟩

/-- A line ends where a word can start if no part of a word ends it. -/
theorem endsBlank_iff (ha : EndsBlank a) (hu : Solid u) : EndsBlank (a ++ u) ↔ u = [] := by
  constructor
  · intro h
    by_contra hne
    rw [endsBlank_append hne] at h
    have hb := h _ (List.getLast?_eq_some_getLast hne)
    rw [hu _ (List.getLast_mem hne)] at hb
    cases hb
  · rintro rfl
    rwa [List.append_nil]

/-- A line at the leftmost match of the key: the part of a word before the
match, the match, and the old value. -/
structure Split (k l a u m old rest : Line) : Prop where
  line : l = a ++ (u ++ (m ++ (old ++ rest)))
  found : (keyPat k).find l = some (a ++ u, old ++ rest)
  ends : EndsBlank a
  starts : StartsBlank rest
  rest_eq : (old ++ rest).dropWhile (· ≠ ' ') = rest
  solid : Solid u ∧ Solid old
  match_eq : (keyPat k).rest m = some []

theorem exists_split (hl : ∀ c ∈ l, c ≠ '\t') (h : (keyPat k).find l = some (x, y)) :
    ∃ a u m, x = a ++ u ∧
      Split k l a u m (y.takeWhile (· ≠ ' ')) (y.dropWhile (· ≠ ' ')) := by
  obtain ⟨m, hline, hr⟩ := Pat.find_eq_some h
  obtain ⟨a, u, rfl, ha, hu⟩ := exists_solid_suffix x
  have hm : (keyPat k).rest m = some [] := by
    obtain ⟨m', hm', hr'⟩ := Pat.rest_iff.mp hr
    rwa [List.append_cancel_right hm']
  refine ⟨a, u, m, rfl, ?_, ?_, ha, ?_, ?_, ⟨hu, ?_⟩, hm⟩
  · rw [hline, List.takeWhile_append_dropWhile, List.append_assoc]
  · rw [h, List.takeWhile_append_dropWhile]
  · intro c hc
    have := List.head?_dropWhile_not (· ≠ ' ') y
    rw [Option.mem_def.mp hc] at this
    obtain rfl : c = ' ' := by simpa using this
    rfl
  · rw [List.takeWhile_append_dropWhile]
  · intro c hc
    have hspace : c ≠ ' ' := by simpa using List.mem_takeWhile_imp hc
    have htab : c ≠ '\t' := by
      refine hl c ?_
      rw [hline]
      exact List.mem_append_right _ (List.mem_append_right _ (List.takeWhile_sublist _ |>.subset hc))
    simp [isBlank, hspace, htab]

namespace Split

variable {m old rest : Line}

theorem clean (h : Split k l a u m old rest) : (keyPat k).Clean (a ++ u) :=
  Pat.clean_of_find (keyPat_ne_nil k) h.found

theorem length_match (h : Split k l a u m old rest) : m.length = k.length + 1 := by
  have hlen := Pat.length_of_rest h.match_eq
  rwa [length_keyPat, List.length_nil, Nat.add_zero] at hlen

/-- No match starts the word that the leftmost match stands within. -/
theorem start (h : Split k l a u m old rest) (hu : u ≠ []) :
    (keyPat k).rest (u ++ (m ++ old)) = none := by
  have hlen : a.length < (a ++ u).length := by
    have := List.length_pos_iff.mpr hu
    rw [List.length_append]
    omega
  have hnone := Pat.find_leftmost h.found h.line hlen
  cases hr : (keyPat k).rest (u ++ (m ++ old)) with
  | none => rfl
  | some r =>
    have hsome := Pat.rest_append_right hr rest
    rw [List.append_assoc, List.append_assoc, hnone] at hsome
    cases hsome

theorem set_eq (h : Split k l a u m old rest) (hn : '\n' ∉ v) :
    setValue k v l = a ++ ((u ++ keyWord k v) ++ rest) := by
  rw [setValue_of_find h.found hn, h.rest_eq]
  simp only [List.append_assoc]

theorem line_eq (h : Split k l a u m old rest) : l = a ++ ((u ++ (m ++ old)) ++ rest) := by
  rw [h.line]
  simp only [List.append_assoc]

/-- What a key finds in a line, part by part. -/
theorem tokenValues_parts (h : Split k l a u m old rest) (k' x : Line) :
    tokenValues k' (a ++ (x ++ rest)) = tokenValues k' a ++ (tokenValues k' x ++ tokenValues k' rest) := by
  rw [tokenValues_append_left h.ends, tokenValues_append_right h.starts]

theorem otherWords_parts (h : Split k l a u m old rest) (k' x : Line) :
    otherWords k' (a ++ (x ++ rest)) = otherWords k' a ++ (otherWords k' x ++ otherWords k' rest) := by
  rw [otherWords_append_left h.ends, otherWords_append_right h.starts]

theorem tokenValues_set (h : Split k l a u m old rest) (hk : '=' ∉ k) (hs : Solid k) (hv : Solid v)
    (hn : '\n' ∉ v) :
    tokenValues k (setValue k v l) = (if u = [] then [v] else []) ++ tokenValues k rest := by
  rw [h.set_eq hn, h.tokenValues_parts, tokenValues_clean h.clean.append_left, List.nil_append]
  congr 1
  split
  · rename_i hu
    rw [hu, List.nil_append, tokenValues_keyWord hk hs hv, rest_keyWord]
    rfl
  · rename_i hu
    rw [tokenValues_word (by simp [hu]) (solid_append h.solid.1 (solid_keyWord hs hv)),
      rest_before hk hu h.clean.append_right]
    rfl

theorem others_iff (h : Split k l a u m old rest) (hk : '=' ∉ k) (hs : Solid k) (hv : Solid v)
    (hn : '\n' ∉ v) :
    otherWords k (setValue k v l) = otherWords k l ↔ m = k ++ ['='] ∧ (u = [] ∨ old = v) := by
  have hl : otherWords k l = _ := (congrArg (otherWords k) h.line_eq).trans (h.otherWords_parts k _)
  rw [h.set_eq hn, h.otherWords_parts, hl, List.append_right_inj, List.append_left_inj]
  exact otherWords_match_iff hk hs hv h.solid.1 h.clean.append_right h.match_eq h.solid.2 h.start

/-- The laws on a line with a textual match. -/
theorem laws_iff (h : Split k l a u m old rest) (hk : '=' ∉ k) (hs : Solid k) (hv : Solid v)
    (hn : '\n' ∉ v) :
    (tokenValues k (setValue k v l) = [v] ∧ tokenValues k' (setValue k v l) = tokenValues k' l ∧
      otherWords k (setValue k v l) = otherWords k l ∧
        setValue k v (setValue k v l) = setValue k v l) ↔
    m = k ++ ['='] ∧ if u = [] then tokenValues k rest = [] ∧
        (old = v ∨ (Ignores k' (keyWord k old) ∧ Ignores k' (keyWord k v)))
      else old = v ∧ tokenValues k rest = [v] := by
  rw [h.tokenValues_set hk hs hv hn, h.others_iff hk hs hv hn]
  by_cases hm : m = k ++ ['=']
  · by_cases hu : u = []
    · -- The match starts a word for the key.
      have hother : tokenValues k' (setValue k v l) = tokenValues k' l ↔
          old = v ∨ (Ignores k' (keyWord k old) ∧ Ignores k' (keyWord k v)) := by
        have hl : tokenValues k' l = _ := (congrArg (tokenValues k') h.line_eq).trans (h.tokenValues_parts k' _)
        rw [h.set_eq hn, h.tokenValues_parts, hl, List.append_right_inj, List.append_left_inj, hu, hm,
          List.nil_append, List.nil_append, ← List.append_cons]
        exact tokenValues_keyWord_eq hk hs hv h.solid.2
      have hagain : setValue k v (setValue k v l) = setValue k v l := by
        have hc := h.clean
        have hr := h.rest_eq
        have := setValue_again hk hv hn hc (old ++ rest)
        rwa [hr, List.append_assoc, ← List.append_assoc u, ← h.set_eq hn] at this
      simp [hm, hu, hother, hagain]
    · -- The line stays what it is.
      have hsame : old = v → setValue k v l = l := by
        rintro rfl
        rw [h.set_eq hn, keyWord, List.append_cons, ← hm, ← h.line_eq]
      simp only [hm, hu, ↓reduceIte, List.nil_append, false_or, true_and]
      constructor
      · rintro ⟨hg, -, ho, -⟩
        exact ⟨ho, hg⟩
      · rintro ⟨ho, hg⟩
        exact ⟨hg, by rw [hsame ho], ho, by rw [hsame ho, hsame ho]⟩
  · simp [hm]

end Split

/-! ## When the laws hold -/

/-- Lines without newlines print a text of one line exactly if they are that line. -/
theorem printed_eq {t : Text} (ht : ∀ x ∈ t, '\n' ∉ x) (hv : '\n' ∉ v) :
    printed t = v ++ ['\n'] ↔ t = [v] := by
  have hspan : ∀ {x : Line}, '\n' ∉ x → ∀ r : Line,
      (x ++ '\n' :: r).takeWhile (· ≠ '\n') = x ∧ (x ++ '\n' :: r).dropWhile (· ≠ '\n') = '\n' :: r :=
    fun hx r => span_append (p := (· ≠ '\n')) (x := '\n' :: r)
      (fun c hc => decide_eq_true fun e => hx (e ▸ hc)) (by simp)
  constructor
  · intro h
    cases t with
    | nil => simp [printed] at h
    | cons x t =>
      rw [printed, List.flatMap_cons, List.append_assoc, List.singleton_append] at h
      have hx := hspan (ht x List.mem_cons_self) (t.flatMap (· ++ ['\n']))
      rw [h] at hx
      obtain ⟨hv1, hv2⟩ := hspan hv []
      have hnil : t.flatMap (· ++ ['\n']) = [] := (List.cons.inj (hx.2.symm.trans hv2)).2
      cases t with
      | nil => rw [hx.1.symm.trans hv1]
      | cons y t => simp at hnil
  · rintro rfl
    simp [printed]

/-- What `get_value` prints has no white space in it but the newlines. -/
theorem solid_getValue {x : Line} (h : x ∈ getValue k l) : ∀ c ∈ x, isSpace c = false := by
  obtain ⟨w, hw, rfl⟩ := List.mem_map.mp h
  intro c hc
  exact solid_of_mem_xargsWords (List.mem_filter.mp hw).1 c
    ((List.dropWhile_sublist _).subset ((List.drop_sublist _ _).subset hc))

theorem length_cutFields {w : Line} (h : ((keyPat k).rest w).isSome) :
    (cutFields w).length + 1 ≤ w.length := by
  obtain ⟨r, hr⟩ := Option.isSome_iff_exists.mp h
  obtain ⟨m, rfl, -⟩ := rest_key hr
  have hmem : (m ++ '=' :: r).dropWhile (· ≠ '=') ≠ [] := by
    intro e
    have := List.dropWhile_eq_nil_iff.mp e '=' (by simp)
    simp at this
  have hpos := List.length_pos_iff.mpr hmem
  have hle := (List.dropWhile_sublist (· ≠ '=') (l := m ++ '=' :: r)).length_le
  rw [cutFields, List.length_drop]
  omega

/-- Each value is printed in the place of a longer word. -/
theorem length_printed_getValue (k l : Line) : (printed (getValue k l)).length ≤ l.length := by
  refine le_trans ?_ (length_flatten_xargsWords_le l)
  rw [getValue]
  induction xargsWords l with
  | nil => exact Nat.le_refl _
  | cons w ws ih =>
    rw [List.filter_cons, List.flatten_cons, List.length_append]
    split
    · rename_i hw
      have hlen := length_cutFields hw
      rw [List.map_cons, printed, List.flatMap_cons, List.length_append, List.length_append,
        List.length_singleton]
      rw [printed] at ih
      omega
    · omega

/-- A line without a textual match sets nothing. -/
theorem getValue_clean (h : (keyPat k).Clean l) (hl : ∀ c ∈ l, isSpace c = true → c = ' ') :
    getValue k l = [] := by
  rw [getValue_eq hl, tokenValues_clean h]

/-- A value with white space is not found again. -/
theorem printed_ne (hk : '=' ∉ k) (hs : ∀ c ∈ k, isSpace c = false)
    (hl : ∀ c ∈ l, isSpace c = true → c = ' ') (hv : ∃ c ∈ v, isSpace c = true) :
    printed (getValue k (setValue k v l)) ≠ v ++ ['\n'] := by
  intro h
  obtain ⟨c, hc, hspace⟩ := hv
  by_cases hn : '\n' ∈ v
  · cases hf : (keyPat k).find l with
    | some ab =>
      -- `sed` fails.
      have hnil : setValue k v l = [] := by rw [setValue, if_neg (not_clean hf), if_pos hn]
      rw [hnil] at h
      simp [printed, getValue, xargsWords] at h
    | none =>
      -- What the value becomes is too short.
      obtain ⟨v₀, d, r, rfl, hv₀, hd⟩ : ∃ v₀ d r, v = v₀ ++ d :: r ∧ (∀ c ∈ v₀, isSpace c = false) ∧
          isSpace d = true := by
        have hdrop : v.dropWhile (fun c => !isSpace c) ≠ [] := by
          intro e
          have := List.dropWhile_eq_nil_iff.mp e c hc
          rw [hspace] at this
          cases this
        obtain ⟨d, r, hr⟩ := List.exists_cons_of_ne_nil hdrop
        refine ⟨v.takeWhile (fun c => !isSpace c), d, r, ?_, fun c hc => ?_, ?_⟩
        · rw [← hr, List.takeWhile_append_dropWhile]
        · simpa using List.mem_takeWhile_imp hc
        · have := List.head?_dropWhile_not (fun c => !isSpace c) v
          rw [hr] at this
          simpa using this
      have hword : getValue k (keyWord k v₀) = [v₀] := by
        have hsolid : ∀ c ∈ keyWord k v₀, isSpace c = false := by
          intro c hc
          rcases List.mem_append.mp hc with h | h
          · exact hs c h
          · rcases List.mem_cons.mp h with rfl | h
            · rfl
            · exact hv₀ c h
        have hblank : Solid (keyWord k v₀) := fun c hc => Bool.eq_false_iff.mpr fun e =>
          Bool.false_ne_true ((hsolid c hc).symm.trans (isSpace_of_isBlank e))
        rw [getValue_eq fun c hc e => absurd ((hsolid c hc).symm.trans e) (by decide),
          tokenValues_word (keyWord_ne_nil k v₀) hblank, rest_keyWord, cutFields_keyWord hk]
        rfl
      have hset : getValue k (setValue k (v₀ ++ d :: r) l) = v₀ :: getValue k r := by
        rw [setValue_of_clean hf, getValue_append_space k l _ rfl, getValue_clean hf hl,
          List.nil_append, keyWord, ← List.cons_append, ← List.append_assoc,
          getValue_append_space k _ r hd]
        exact congrArg (· ++ getValue k r) hword
      have hlen := congrArg List.length h
      have hle := length_printed_getValue k r
      rw [hset, printed, List.flatMap_cons] at hlen
      rw [printed] at hle
      simp only [List.length_append, List.length_cons, List.length_nil] at hlen
      omega
  · -- No line that is printed has it.
    have hmem : c ∈ printed (getValue k (setValue k v l)) := by
      rw [h]
      exact List.mem_append_left _ hc
    obtain ⟨x, hx, hcx⟩ := List.mem_flatMap.mp hmem
    rcases List.mem_append.mp hcx with hcx | hcx
    · exact Bool.false_ne_true ((solid_getValue hx c hcx).symm.trans hspace)
    · rw [List.mem_singleton.mp hcx] at hc
      exact hn hc

/-- On command lines and for values without white space. -/
theorem laws_iff_of_solid (hk : IsKey k) (hl : IsCommandLine l) (hv : ∀ c ∈ v, isSpace c = false) :
    Laws k k' v l ↔ Lawful k k' v l := by
  obtain ⟨hk', hks⟩ := isKey_facts hk
  have hblank : ∀ {x : Line}, (∀ c ∈ x, isSpace c = false) → Solid x := fun hx c hc =>
    Bool.eq_false_iff.mpr fun e => Bool.false_ne_true ((hx c hc).symm.trans (isSpace_of_isBlank e))
  have hs := hblank hks
  have hn : '\n' ∉ v := fun h => Bool.false_ne_true ((hv _ h).symm.trans rfl)
  have hls : ∀ c ∈ l, isSpace c = true → c = ' ' := fun c hc => (hl c hc).1
  have hx : ∀ key, getValue key (setValue k v l) = tokenValues key (setValue k v l) :=
    getValue_eq (forall_setValue (fun c hc e => absurd ((hks c hc).symm.trans e) (by decide)) hls
      (fun c hc e => absurd ((hv c hc).symm.trans e) (by decide)) (by decide) fun _ => rfl)
  have hprint : printed (getValue k (setValue k v l)) = v ++ ['\n'] ↔
      tokenValues k (setValue k v l) = [v] := by
    rw [printed_eq (fun x hx h => Bool.false_ne_true ((solid_getValue hx _ h).symm.trans rfl)) hn, hx]
  have hlaws : Laws k k' v l ↔ tokenValues k (setValue k v l) = [v] ∧
      tokenValues k' (setValue k v l) = tokenValues k' l ∧
        otherWords k (setValue k v l) = otherWords k l ∧
          setValue k v (setValue k v l) = setValue k v l := by
    rw [← hprint, ← hx, ← getValue_eq hls]
    exact ⟨fun ⟨h1, h2, h3, h4⟩ => ⟨h1, h2, h3, h4⟩, fun ⟨h1, h2, h3, h4⟩ => ⟨h1, h2, h3, h4⟩⟩
  rw [hlaws]
  rw [Lawful]
  cases hf : (keyPat k).find l with
  | none => exact laws_of_clean hk' hs (hblank hv) hn hf
  | some ab =>
    obtain ⟨x, b⟩ := ab
    have htab : ∀ c ∈ l, c ≠ '\t' := by
      rintro c hc rfl
      exact absurd (hls _ hc rfl) (by decide)
    obtain ⟨a, u, m, rfl, h⟩ := exists_split htab hf
    have hline : l = a ++ u ++ keyWord k b ↔ m = k ++ ['='] := by
      have hl' := h.line
      rw [List.takeWhile_append_dropWhile] at hl'
      conv_lhs => rw [hl', List.append_assoc, List.append_right_inj, List.append_right_inj, eq_comm,
        keyWord_eq_append h.length_match]
      exact and_iff_left rfl
    simp only [LawfulAt, hline, endsBlank_iff h.ends h.solid.1, ← tokenValues_eq_nil]
    exact h.laws_iff hk' hs (hblank hv) hn

theorem isCommandLine_setValue (hk : IsKey k) (hl : IsCommandLine l) (hv : IsCommandLine v) :
    IsCommandLine (setValue k v l) := by
  refine forall_setValue (fun c hc => ⟨fun e => ?_, fun e => ?_⟩) hl hv (by decide) (by decide)
  · exact absurd (((isKey_facts hk).2 c hc).symm.trans e) (by decide)
  · refine notMem_of_isKey hk ?_ hc
    clear hc
    revert c
    decide

/-- For every value that `set_value` takes. -/
theorem laws_iff_lawful (hk : IsKey k) (hl : IsCommandLine l) :
    Laws k k' v l ↔ (∀ c ∈ v, isSpace c = false) ∧ Lawful k k' v l := by
  by_cases hv : ∀ c ∈ v, isSpace c = false
  · rw [laws_iff_of_solid hk hl hv]
    exact (and_iff_right hv).symm
  · refine iff_of_false (fun h => ?_) fun h => hv h.1
    simp only [not_forall, Bool.not_eq_false] at hv
    obtain ⟨c, hc, hspace⟩ := hv
    obtain ⟨hk', hks⟩ := isKey_facts hk
    exact printed_ne hk' hks (fun c hc => (hl c hc).1) ⟨c, hc, hspace⟩ h.get_set

end

/-! ## `set-primary` -/

def rootKey : Line := "root".toList
def raucSlotKey : Line := "rauc.slot".toList

theorem isKey_rootKey : IsKey rootKey := by
  unfold IsKey
  decide

theorem isKey_raucSlotKey : IsKey raucSlotKey := by
  unfold IsKey
  decide

/-- The words that set neither the root file system nor the slot. -/
def keptWords (l : Line) : List Line :=
  (words l).filter fun w =>
    !(raucSlotKey ++ ['=']).isPrefixOf w && !(rootKey ++ ['=']).isPrefixOf w

theorem keptWords_eq (l : Line) :
    keptWords l = (otherWords rootKey l).filter (fun w => !(raucSlotKey ++ ['=']).isPrefixOf w) ∧
      keptWords l = (otherWords raucSlotKey l).filter (fun w => !(rootKey ++ ['=']).isPrefixOf w) := by
  unfold keptWords otherWords
  rw [List.filter_filter, List.filter_filter]
  refine ⟨rfl, List.filter_congr fun w _ => Bool.and_comm _ _⟩

section

variable {s : Sys} {S : Slot}

/-- What `set-primary` writes to `cmdline-tryboot.txt`, past its early exit. -/
theorem setPrimary_cmdlineTrybootTxt (hp : getPrimary s.boot ≠ S.name)
    (hd : s.boot.isDir cmdlineTrybootTxt = false) :
    (s.step (.call (.setPrimary S))).boot.read cmdlineTrybootTxt =
      some [setValue raucSlotKey S.name (setValue rootKey (rootSlot S)
        (headLine s.boot cmdlineTxt))] := by
  show (((setPrimary S.name).run s).1).boot.read cmdlineTrybootTxt = _
  simp only [setPrimary, rootSlot?_name, Script.run_look]
  rw [if_neg hp]
  exact Fs.read_eq_some.mpr ((Fs.write_ne (by decide)).trans (Fs.write_self Fs.isDir_nil hd))

theorem slot_values (S : Slot) : (IsCommandLine (rootSlot S) ∧ ∀ c ∈ rootSlot S, c ∉ " /&\\".toList) ∧
    (∀ c ∈ rootSlot S, isSpace c = false) ∧ ∀ c ∈ S.name, isSpace c = false := by
  unfold IsCommandLine
  revert S
  decide +kernel

/-- What `get_value` finds of a value that it prints. -/
theorem getValue_of_printed {k v l : Line} (hv : ∀ c ∈ v, isSpace c = false)
    (h : printed (getValue k l) = v ++ ['\n']) : getValue k l = [v] :=
  (printed_eq (fun _ hx h => Bool.false_ne_true ((solid_getValue hx _ h).symm.trans rfl))
    fun h => Bool.false_ne_true ((hv _ h).symm.trans rfl)).mp h

/-- If both of its calls of `set_value` keep the laws, the line has the slot's
`root=` and `rauc.slot=`, and otherwise the words of `cmdline.txt`. -/
theorem setPrimary_words {l : Line}
    (h₁ : Laws rootKey raucSlotKey (rootSlot S) l)
    (h₂ : Laws raucSlotKey rootKey S.name (setValue rootKey (rootSlot S) l)) :
    let l' := setValue raucSlotKey S.name (setValue rootKey (rootSlot S) l)
    getValue rootKey l' = [rootSlot S] ∧ getValue raucSlotKey l' = [S.name] ∧
      keptWords l' = keptWords l := by
  obtain ⟨-, hR, hN⟩ := slot_values S
  refine ⟨h₂.get_set_other.trans (getValue_of_printed hR h₁.get_set),
    getValue_of_printed hN h₂.get_set, ?_⟩
  rw [(keptWords_eq _).2, h₂.others, ← (keptWords_eq _).2, (keptWords_eq _).1, h₁.others,
    ← (keptWords_eq _).1]

end

/-- On every command line, for all keys and for every value that `set_value`
takes, the accessors keep the laws exactly if `xargs` does not split the value
and they agree about the line; and where they do, `set-primary` writes a
`cmdline-tryboot.txt` with the slot's `root=` and `rauc.slot=`, and otherwise
the words of `cmdline.txt`. -/
theorem accessors_lawful_iff {k l v : Line} (hk : IsKey k) (hl : IsCommandLine l)
    (_hv : ∀ c ∈ v, c ∉ " /&\\".toList) :
    (∀ k' : Line, Laws k k' v l ↔ (∀ c ∈ v, isSpace c = false) ∧ Lawful k k' v l) ∧
    ∀ (s : Sys) (S : Slot), getPrimary s.boot ≠ S.name → s.boot.isDir cmdlineTrybootTxt = false →
      let l := headLine s.boot cmdlineTxt
      IsCommandLine l → Lawful rootKey raucSlotKey (rootSlot S) l →
      Lawful raucSlotKey rootKey S.name (setValue rootKey (rootSlot S) l) →
      ∃ l', (s.step (.call (.setPrimary S))).boot.read cmdlineTrybootTxt = some [l'] ∧
        getValue rootKey l' = [rootSlot S] ∧ getValue raucSlotKey l' = [S.name] ∧
          keptWords l' = keptWords l := by
  refine ⟨fun k' => laws_iff_lawful hk hl, ?_⟩
  intro s S hp hd l hl h₁ h₂
  obtain ⟨⟨hR, -⟩, hR', hN'⟩ := slot_values S
  have hl₁ := isCommandLine_setValue isKey_rootKey hl hR
  exact ⟨_, setPrimary_cmdlineTrybootTxt hp hd, setPrimary_words
    ((laws_iff_lawful isKey_rootKey hl).mpr ⟨hR', h₁⟩)
    ((laws_iff_lawful isKey_raucSlotKey hl₁).mpr ⟨hN', h₂⟩)⟩

/-- On the board's own command line, and on a new machine. -/
theorem accessors_lawful_factory :
    Laws rootKey raucSlotKey (rootSlot .B) factoryCmdline ∧
      ∃ l', (factory.step (.call (.setPrimary .B))).boot.read cmdlineTrybootTxt = some [l'] ∧
        getValue rootKey l' = [rootSlot .B] ∧ getValue raucSlotKey l' = [Slot.B.name] ∧
          keptWords l' = keptWords factoryCmdline := by
  have hline : headLine factory.boot cmdlineTxt = factoryCmdline :=
    factory_rep.headLine_cmdline.trans cmdlineFor_A
  have hp : getPrimary factory.boot ≠ Slot.B.name := by
    rw [factory_rep.getPrimary_eq]
    decide
  have hd : factory.boot.isDir cmdlineTrybootTxt = false :=
    factory_rep.isDir_file (l := .trybootCmdline) (by simp)
  have hl : IsCommandLine factoryCmdline := by
    rw [factoryCmdlineChars.2]
    decide +kernel
  obtain ⟨⟨-, hR⟩, hR', -⟩ := slot_values .B
  obtain ⟨h1, h2⟩ := accessors_lawful_iff isKey_rootKey hl hR
  have h := h2 factory .B hp hd
  rw [hline] at h
  refine ⟨(h1 _).mpr ⟨hR', ?_⟩, h hl ?_ ?_⟩
  · rw [factoryCmdlineChars.2]
    decide +kernel
  · rw [factoryCmdlineChars.2]
    decide +kernel
  · rw [factoryCmdlineChars.2]
    decide +kernel

/-- A machine that starts from slot A with this command line. -/
def withCmdline (l : Line) : Sys :=
  Sys.start ⟨factoryBoot.write cmdlineTxt [l], none, ⟨false, [], []⟩⟩ false

/-- A word that ends in the key is set in the key's place, and the dot of a key
stands for a blank, too. With `noroot=1`, `set-primary` leaves the root file
system of the other slot. -/
theorem accessors_unlawful :
    (∀ kl ∈ [(rootKey, "noroot=1".toList), (raucSlotKey, "rauc slot=1".toList)],
      IsKey kl.1 ∧ IsCommandLine kl.2 ∧ ((words kl.2).filter (kl.1 ++ ['=']).isPrefixOf).length ≤ 1 ∧
        ∀ k', ¬ Laws kl.1 k' "B".toList kl.2) ∧
    (let s := withCmdline ("noroot=1 root=".toList ++ rootSlotA ++ " rauc.slot=A".toList)
      ∃ l', (s.step (.call (.setPrimary .B))).boot.read cmdlineTrybootTxt = some [l'] ∧
        getValue rootKey l' = [rootSlotA] ∧ getValue raucSlotKey l' = ["B".toList]) := by
  refine ⟨fun kl hkl => ?_, ?_⟩
  · have key : ∀ kl ∈ [(rootKey, "noroot=1".toList), (raucSlotKey, "rauc slot=1".toList)],
        IsKey kl.1 ∧ IsCommandLine kl.2 ∧
          ((words kl.2).filter (kl.1 ++ ['=']).isPrefixOf).length ≤ 1 ∧
          otherWords kl.1 (setValue kl.1 "B".toList kl.2) ≠ otherWords kl.1 kl.2 := by
      decide +kernel
    obtain ⟨h1, h2, h3, h4⟩ := key kl hkl
    exact ⟨h1, h2, h3, fun k' h => h4 h.others⟩
  · exact ⟨_, setPrimary_cmdlineTrybootTxt (by decide +kernel) (by decide +kernel),
      by decide +kernel, by decide +kernel⟩

end HassOS.Tryboot
