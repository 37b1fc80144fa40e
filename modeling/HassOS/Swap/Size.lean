import HassOS.Framework.Awk

/-!
# The size of the swap file (`size2kilobytes`)

`haos-swapfile` has awk read the setting `SWAPSIZE`. The patterns that tell the
unit look at the end of the line only, and the number is the one that the first
field starts with, whatever stands between the two. `Reads` is the grammar of
sizes, and `ReadsRight` what the function is to return for a line.

It does so unless the setting is a size in bytes with blanks before its end, or
no size at all but ends like one, or an option of `echo` (`readsRight_iff`).
-/

namespace HassOS.Swap

open Framework Framework.Awk

/-- What `echo "$1"` gives awk as its line, if it prints anything: a lone
`-n`, `-e` or `-E` is an option. -/
def echo : Line → Option Line
  | '-' :: o :: os =>
    if ∀ c ∈ o :: os, c = 'n' ∨ c = 'e' ∨ c = 'E' then
      if 'n' ∈ o :: os then none else some []
    else some ('-' :: o :: os)
  | l => some l

/-- The line from its end, which the patterns see under `IGNORECASE`. -/
def lineEnd (l : Line) : Line := (l.map Char.toLower).reverse

/-- `/[0-9]B?$/` -/
def matchesBytes (l : Line) : Bool :=
  (lineEnd l).head?.any Char.isDigit ||
    (lineEnd l).head? = some 'b' && (lineEnd l).tail.head?.any Char.isDigit

/-- `/K(i?B)?$/`, and for the other units. -/
def matchesUnit (u : Char) (l : Line) : Bool :=
  [[u], ['b', u], ['b', 'i', u]].any (·.isPrefixOf (lineEnd l))

/-- `tobytes`, which prints kilobytes. -/
def tobytes (n : ℚ) (b p : ℕ) : ℤ := printU (n * b ^ p / 1024)

/-- The program of awk. -/
def awk (l : Line) : ℤ :=
  if matchesBytes l then tobytes (number (field1 l)) 1 0
  else if matchesUnit 'k' l then tobytes (number (field1 l)) 2 10
  else if matchesUnit 'm' l then tobytes (number (field1 l)) 2 20
  else if matchesUnit 'g' l then tobytes (number (field1 l)) 2 30
  else -1

/-- What the function prints: a number, or nothing. -/
def size2kilobytes (l : Line) : Option ℤ := (echo l).map awk

/-! ## Sizes -/

/-- The suffixes, in lower case, with their units. -/
def suffixes : List (Line × ℕ) :=
  [([], 1), (['b'], 1), (['k'], 2 ^ 10), (['k', 'b'], 2 ^ 10), (['k', 'i', 'b'], 2 ^ 10),
    (['m'], 2 ^ 20), (['m', 'b'], 2 ^ 20), (['m', 'i', 'b'], 2 ^ 20),
    (['g'], 2 ^ 30), (['g', 'b'], 2 ^ 30), (['g', 'i', 'b'], 2 ^ 30)]

/-- The line is a size: a numeral of the digits `i` and the fraction `g`, the
blanks `b`, and the suffix `x` of the unit `u`. -/
structure Reads (l i g b x : Line) (u : ℕ) : Prop where
  eq : l = numeral i g ++ (b ++ x)
  ne : i ≠ []
  int : ∀ c ∈ i, c.isDigit = true
  frac : ∀ c ∈ g, c.isDigit = true
  blank : ∀ c ∈ b, isBlank c = true
  unit : (x.map Char.toLower, u) ∈ suffixes

def IsSize (l : Line) : Prop := ∃ i g b x u, Reads l i g b x u

/-- The size in kilobytes, rounded down, or `-1` for what is no size. -/
structure ReadsRight (l : Line) : Prop where
  size : ∀ i g b x u, Reads l i g b x u → size2kilobytes l = some ⌊numeralValue i g * u / 1024⌋
  other : ¬ IsSize l → size2kilobytes l = some (-1)

/-- The patterns match nothing. -/
def Unmatched (l : Line) : Prop :=
  matchesBytes l = false ∧ ∀ u ∈ ['k', 'm', 'g'], matchesUnit u l = false

instance (l : Line) : Decidable (Unmatched l) := inferInstanceAs (Decidable (_ ∧ _))

/-! ## Lines that are sizes -/

theorem toLower_of_isDigit {c : Char} (h : c.isDigit = true) : c.toLower = c := by
  simp only [Char.isDigit, Bool.and_eq_true, decide_eq_true_eq] at h
  unfold Char.toLower
  rw [dif_neg]
  intro hc
  have h1 := h.2
  have h2 := hc.1
  simp only [UInt32.le_iff_toNat_le] at h1 h2
  simp at h1 h2
  omega

theorem lineEnd_append (a b : Line) : lineEnd (a ++ b) = lineEnd b ++ lineEnd a := by
  simp [lineEnd]

/-- The characters of suffixes. -/
theorem suffix_char {x : Line} {u : ℕ} (h : (x.map Char.toLower, u) ∈ suffixes) {c : Char}
    (hc : c ∈ x) : c.toLower ∈ ['b', 'k', 'm', 'g', 'i'] := by
  have hall : ∀ p ∈ suffixes, ∀ c ∈ p.1, c ∈ ['b', 'k', 'm', 'g', 'i'] := by decide
  exact hall _ h _ (List.mem_map_of_mem hc)

theorem suffix_ends {x : Line} {u : ℕ} (h : (x.map Char.toLower, u) ∈ suffixes) : Ends x := by
  intro c hc
  have hx := suffix_char h (List.mem_of_mem_head? hc)
  refine ⟨?_, ?_, ?_, ?_⟩
  · rw [Bool.eq_false_iff]
    intro hd
    have hall : ∀ c ∈ ['b', 'k', 'm', 'g', 'i'], c.isDigit = false := by decide
    rw [toLower_of_isDigit hd] at hx
    exact Bool.false_ne_true ((hall c hx).symm.trans hd)
  all_goals
    rintro rfl
    exact absurd hx (by decide)

theorem suffix_solid {x : Line} {u : ℕ} (h : (x.map Char.toLower, u) ∈ suffixes) :
    ∀ c ∈ x, isBlank c = false := by
  intro c hc
  have hx := decide_eq_true (suffix_char h hc)
  exact isBlank_eq_false (p := fun c => decide (c.toLower ∈ ['b', 'k', 'm', 'g', 'i'])) rfl rfl hx

theorem isBlank_of_isDigit {c : Char} (h : c.isDigit = true) : isBlank c = false :=
  isBlank_eq_false rfl rfl h

section

variable {l i g b x : Line} {u : ℕ}

theorem numeral_solid (hi : ∀ c ∈ i, c.isDigit = true) (hg : ∀ c ∈ g, c.isDigit = true) :
    ∀ c ∈ numeral i g, isBlank c = false := by
  intro c hc
  rcases List.mem_append.mp hc with hc | hc
  · exact isBlank_of_isDigit (hi c hc)
  · split at hc
    · cases hc
    · rcases List.mem_cons.mp hc with rfl | hc
      · rfl
      · exact isBlank_of_isDigit (hg c hc)

/-- A numeral ends in a digit. -/
theorem numeral_end (hne : i ≠ []) (hi : ∀ c ∈ i, c.isDigit = true)
    (hg : ∀ c ∈ g, c.isDigit = true) : ∃ w d, numeral i g = w ++ [d] ∧ d.isDigit = true := by
  unfold numeral
  split
  · obtain ⟨w, d, rfl⟩ := List.eq_nil_or_concat' i |>.resolve_left hne
    exact ⟨w, d, by rw [List.append_nil], hi d (by simp)⟩
  · rename_i h
    obtain ⟨w, d, rfl⟩ := List.eq_nil_or_concat' g |>.resolve_left h
    exact ⟨i ++ '.' :: w, d, by simp, hg d (by simp)⟩

/-- The number that awk reads in a size. -/
theorem Reads.number (h : Reads l i g b x u) : number (field1 l) = numeralValue i g := by
  have hne : numeral i g ≠ [] := by
    obtain ⟨w, d, he, -⟩ := numeral_end h.ne h.int h.frac
    rw [he]
    simp
  have hf : field1 l = numeral i g ++ (b ++ x).takeWhile fun c => !isBlank c := by
    rw [field1, h.eq, words_solid_append hne (numeral_solid h.int h.frac)]
    rfl
  rw [hf]
  apply number_decimal h.ne h.int h.frac
  cases b with
  | nil =>
    rw [List.nil_append, List.takeWhile_eq_self_iff.mpr fun c hc => by simp [suffix_solid h.unit c hc]]
    exact suffix_ends h.unit
  | cons c b =>
    simp [h.blank c List.mem_cons_self, Ends]

/-- What stands before the suffix. -/
theorem Reads.lineEnd (h : Reads l i g b x u) : ∃ d r, lineEnd l = (x.map Char.toLower).reverse ++ d :: r ∧
    if b = [] then d.isDigit = true else isBlank d = true := by
  obtain ⟨w, d, he, hd⟩ := numeral_end h.ne h.int h.frac
  rw [h.eq, lineEnd_append, lineEnd_append, he, lineEnd_append]
  rcases List.eq_nil_or_concat' b with rfl | ⟨b, c, rfl⟩
  · exact ⟨d, (w.map Char.toLower).reverse, by simp [Swap.lineEnd, toLower_of_isDigit hd], by simpa using hd⟩
  · have hc : isBlank c = true := h.blank c (by simp)
    have hl : c.toLower = c := by
      simp only [isBlank, Bool.or_eq_true, decide_eq_true_eq] at hc
      rcases hc with rfl | rfl <;> rfl
    exact ⟨c, _, by simp [Swap.lineEnd, hl]; rfl, by simpa using hc⟩

theorem tobytes_numeral (i g : Line) (b p : ℕ) :
    tobytes (numeralValue i g) b p = ⌊numeralValue i g * (b ^ p : ℕ) / 1024⌋ := by
  have := numeralValue_nonneg i g
  rw [tobytes, printU_eq_floor (by positivity)]
  push_cast
  rfl

/-- The units with a letter, and their powers of 2. -/
def letters : List (Char × ℕ) := [('k', 10), ('m', 20), ('g', 30)]

theorem suffix_cases {y : Line} (h : (y, u) ∈ suffixes) : u = 1 ∧ (y = [] ∨ y = ['b']) ∨
    ∃ q ∈ letters, u = 2 ^ q.2 ∧ y.reverse ∈ [[q.1], ['b', q.1], ['b', 'i', q.1]] := by
  have hall : ∀ p ∈ suffixes, p.2 = 1 ∧ (p.1 = [] ∨ p.1 = ['b']) ∨
      ∃ q ∈ letters, p.2 = 2 ^ q.2 ∧ p.1.reverse ∈ [[q.1], ['b', q.1], ['b', 'i', q.1]] := by decide
  exact hall _ h

theorem awk_letter {c : Char} {p : ℕ} {y r : Line} (hc : (c, p) ∈ letters)
    (hy : y ∈ [[c], ['b', c], ['b', 'i', c]]) (hl : lineEnd l = y ++ r) :
    awk l = tobytes (number (field1 l)) 2 p := by
  simp only [letters, List.mem_cons, Prod.mk.injEq, List.not_mem_nil, or_false] at hc hy
  rcases hc with ⟨rfl, rfl⟩ | ⟨rfl, rfl⟩ | ⟨rfl, rfl⟩ <;> rcases hy with rfl | rfl | rfl <;>
    simp [awk, matchesBytes, matchesUnit, hl]

/-- A size in bytes: the patterns look for a digit before the suffix. -/
theorem awk_bytes {y r : Line} {d : Char} (hy : y = [] ∨ y = ['b']) (hl : lineEnd l = y ++ d :: r)
    (hd : d.isDigit = true ∨ isBlank d = true) :
    awk l = if d.isDigit = true then tobytes (number (field1 l)) 1 0 else -1 := by
  have hne : ∀ c ∈ ['b', 'k', 'm', 'g', 'i'], d ≠ c := by
    have hall : ∀ c ∈ ['b', 'k', 'm', 'g', 'i'], c.isDigit = false ∧ isBlank c = false := by decide
    rintro c hc rfl
    simp [hall d hc] at hd
  simp only [List.forall_mem_cons] at hne
  obtain ⟨hb, hk, hm, hg, hi, -⟩ := hne
  rcases hy with rfl | rfl
  · simp [awk, matchesBytes, matchesUnit, hl, hb, Ne.symm hb, Ne.symm hk, Ne.symm hm, Ne.symm hg]
  · simp [awk, matchesBytes, matchesUnit, hl, Ne.symm hi, Ne.symm hk, Ne.symm hm, Ne.symm hg]

/-- What awk makes of a size. -/
theorem awk_reads (h : Reads l i g b x u) :
    awk l = if b = [] ∨ u ≠ 1 then ⌊numeralValue i g * u / 1024⌋ else -1 := by
  obtain ⟨d, r, hl, hd⟩ := h.lineEnd
  rcases suffix_cases h.unit with ⟨rfl, hy⟩ | ⟨⟨c, p⟩, hc, rfl, hy⟩
  · have hb := awk_bytes (y := (x.map Char.toLower).reverse) (by rcases hy with h | h <;> simp [h]) hl
    rw [h.number] at hb
    by_cases hb' : b = []
    · rw [if_pos hb'] at hd
      rw [hb (.inl hd), if_pos hd, if_pos (.inl hb'), tobytes_numeral, one_pow]
    · rw [if_neg hb'] at hd
      rw [hb (.inr hd), if_neg, if_neg (by simp [hb'])]
      intro hdig
      rw [isBlank_of_isDigit hdig] at hd
      cases hd
  · have hu : 2 ^ p ≠ 1 := by
      have hall : ∀ q ∈ letters, 2 ^ q.2 ≠ 1 := by decide
      exact hall _ hc
    rw [awk_letter hc hy hl, h.number, tobytes_numeral, if_pos (.inr hu)]

/-- The head of a size is a digit. -/
theorem Reads.head (h : Reads l i g b x u) : ∃ c r, l = c :: r ∧ c.isDigit = true := by
  rw [h.eq]
  cases i with
  | nil => exact absurd rfl h.ne
  | cons c i => exact ⟨c, _, rfl, h.int c List.mem_cons_self⟩

theorem Reads.echo (h : Reads l i g b x u) : echo l = some l := by
  obtain ⟨c, r, rfl, hc⟩ := h.head
  unfold Swap.echo
  split
  · rename_i he
    obtain ⟨rfl, -⟩ := List.cons.inj he
    cases hc
  · rfl

theorem tobytes_nonneg (n : ℚ) (b p : ℕ) : 0 ≤ tobytes n b p := printU_nonneg _

/-- awk prints `-1` where no pattern matches, and no other negative number. -/
theorem awk_range (l : Line) : if Unmatched l then awk l = -1 else 0 ≤ awk l := by
  by_cases hb : matchesBytes l = true
  · simp [awk, Unmatched, hb, tobytes_nonneg]
  by_cases hk : matchesUnit 'k' l = true
  · simp [awk, Unmatched, hb, hk, tobytes_nonneg]
  by_cases hm : matchesUnit 'm' l = true
  · simp [awk, Unmatched, hb, hk, hm, tobytes_nonneg]
  by_cases hg : matchesUnit 'g' l = true
  · simp [awk, Unmatched, hb, hk, hm, hg, tobytes_nonneg]
  · simp [awk, Unmatched, hb, hk, hm, hg]

theorem awk_eq_neg_one (l : Line) : awk l = -1 ↔ Unmatched l := by
  have h := awk_range l
  split at h
  · simp_all
  · rename_i hn
    exact iff_of_false (by omega) hn

end

/-- The function returns what it is to iff the line is no size in bytes with
blanks before its end, and if it is no size, `echo` prints a line that no
pattern matches. -/
theorem readsRight_iff (l : Line) : ReadsRight l ↔
    (∀ i g b x u, Reads l i g b x u → b = [] ∨ u ≠ 1) ∧ (¬ IsSize l → ∃ m ∈ echo l, Unmatched m) := by
  have hsize : ∀ i g b x u, Reads l i g b x u →
      (size2kilobytes l = some ⌊numeralValue i g * u / 1024⌋ ↔ b = [] ∨ u ≠ 1) := by
    intro i g b x u h
    have hv : 0 ≤ ⌊numeralValue i g * u / 1024⌋ := by
      have := numeralValue_nonneg i g
      exact Int.floor_nonneg.mpr (by positivity)
    rw [size2kilobytes, h.echo, Option.map_some, awk_reads h, Option.some.injEq]
    split
    · simp_all
    · rename_i hn
      exact iff_of_false (by omega) hn
  have hother : size2kilobytes l = some (-1) ↔ ∃ m ∈ echo l, Unmatched m := by
    simp only [size2kilobytes, Option.map_eq_some_iff, awk_eq_neg_one, Option.mem_def]
  constructor
  · intro h
    exact ⟨fun i g b x u hr => (hsize i g b x u hr).mp (h.size i g b x u hr),
      fun hn => hother.mp (h.other hn)⟩
  · intro h
    exact ⟨fun i g b x u hr => (hsize i g b x u hr).mpr (h.1 i g b x u hr),
      fun hn => hother.mpr (h.2 hn)⟩

/-- Text before a digit at the end: no size, but read as 0. -/
theorem text_read_as_zero : ¬ ReadsRight "abc5".toList := by
  intro h
  have hno : ¬ IsSize "abc5".toList := by
    rintro ⟨i, g, b, x, u, hr⟩
    obtain ⟨c, r, he, hc⟩ := hr.head
    obtain ⟨rfl, -⟩ := List.cons.inj he
    cases hc
  have hz : size2kilobytes "abc5".toList = some 0 := by decide +kernel
  have hm := h.other hno
  rw [hz] at hm
  cases hm

end HassOS.Swap
