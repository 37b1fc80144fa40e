import Mathlib.Data.List.DropRight

/-!
# Lines, patterns and words

Texts as the shell's line tools see them. A text is the list of its lines
(each ended by a newline), and a line is a list of characters. The regular
expressions in use are fixed-length ones (`Pat`: a character, or `.`),
optionally followed by `[^ ]*` or preceded by `\s*`:

* `Pat.find` is the leftmost match, `sedToken`, `sedDelete` and
  `sedDeleteAll` are sed's `s/p[^ ]*/v/`, `s/p//` and `s/\s*p//g`;
* `words` are the words of a line between its blanks.

A text that no match of a pattern can touch, wherever it stands, is a barrier
to the pattern (`Pat.Avoids`, which a finite check decides): the matches in
`a ++ x ++ b` are then those in `a` and those in `b` (`Pat.find_barrier`,
`Pat.clean_barrier`). Where every match of a word with a blank after it starts
a word, to delete it takes out what stands between two words (`sedDelete_word`),
and every match still starts a word (`startsWords_sedDelete`).
-/

namespace HassOS.Framework

/-- A line, without its newline. -/
abbrev Line := List Char

/-- The lines of a text. -/
abbrev Text := List Line

section

-- Decided along the line, not over all characters.
variable (l : Line) (o : Option Char) (p : Char → Prop) [DecidablePred p]

instance : Decidable (∀ c ∈ l, p c) := List.decidableBAll p l

instance : Decidable (∃ c ∈ l, p c) := List.decidableBEx p l

instance decidableForallOption : Decidable (∀ c ∈ o, p c) := decidable_of_iff (∀ c ∈ o.toList, p c) (by simp)

end

/-- A fixed-length regular expression: characters, and `none` for `.`. -/
abbrev Pat := List (Option Char)

namespace Pat

/-- The pattern of a regular expression whose only operator is `.`. -/
def ofRegex (re : Line) : Pat := re.map fun c => if c = '.' then none else some c

/-- What follows a match at the front of the line. -/
def rest : Pat → Line → Option Line
  | [], l => some l
  | _ :: _, [] => none
  | none :: p, _ :: l => rest p l
  | some c :: p, d :: l => if c = d then rest p l else none

/-- The leftmost match: what stands before it, and what follows it. -/
def find (p : Pat) : Line → Option (Line × Line)
  | [] => (p.rest []).map fun r => ([], r)
  | c :: l =>
    match p.rest (c :: l) with
    | some r => some ([], r)
    | none => (p.find l).map fun ab => (c :: ab.1, ab.2)

/-- No match in the line. -/
def Clean (p : Pat) (l : Line) : Prop := p.find l = none

instance (p : Pat) (l : Line) : Decidable (p.Clean l) := inferInstanceAs (Decidable (_ = none))

/-- The pattern and the line differ at a position that both have. -/
def clash : Pat → Line → Bool
  | [], _ => false
  | _ :: _, [] => false
  | none :: p, _ :: l => clash p l
  | some c :: p, d :: l => c != d || clash p l

/-- No match of the pattern can overlap `x`, wherever `x` stands: whether it
starts before `x` or inside it, it differs from `x` somewhere. -/
def Avoids (p : Pat) (x : Line) : Prop :=
  (∀ t < p.length, clash (p.drop t) x = true) ∧ ∀ k < x.length, clash p (x.drop k) = true

instance (p : Pat) (x : Line) : Decidable (p.Avoids x) := inferInstanceAs (Decidable (_ ∧ _))

theorem rest_of_clash {p : Pat} {x : Line} (h : clash p x = true) (y : Line) :
    p.rest (x ++ y) = none := by
  induction p, x using clash.induct with
  | case1 => simp [clash] at h
  | case2 => simp [clash] at h
  | case3 p d l ih =>
    simp only [clash] at h
    exact ih h
  | case4 c p d l ih =>
    simp only [clash, Bool.or_eq_true, bne_iff_ne] at h
    simp only [List.cons_append, rest]
    split
    · rename_i hc
      exact ih (h.resolve_left fun hne => hne hc)
    · rfl

/-- A match at the front of `a ++ x ++ b` lies within `a`, if it can never
reach into `x`. -/
theorem rest_append {p : Pat} {x : Line} (h : ∀ t < p.length, clash (p.drop t) x = true)
    (a b : Line) : p.rest (a ++ (x ++ b)) = (p.rest a).map (· ++ (x ++ b)) := by
  induction p generalizing a with
  | nil => rfl
  | cons o p ih =>
    have hp : ∀ t < p.length, clash (p.drop t) x = true := fun t ht => by
      simpa using h (t + 1) (by simpa using ht)
    cases a with
    | nil =>
      have h0 : clash (o :: p) x = true := h 0 (by simp)
      rw [List.nil_append, rest_of_clash h0]
      cases o <;> rfl
    | cons c a =>
      cases o with
      | none => exact ih hp a
      | some d =>
        simp only [List.cons_append, rest]
        split
        · exact ih hp a
        · rfl

theorem rest_cons {o : Option Char} {p : Pat} {c : Char} {l r : Line} :
    Pat.rest (o :: p) (c :: l) = some r ↔ (o = none ∨ o = some c) ∧ p.rest l = some r := by
  cases o with
  | none => simp [rest]
  | some d =>
    by_cases h : d = c
    · simp [rest, h]
    · simp [rest, h]

/-- A match is a part of the line, and it matches whatever follows it. -/
theorem rest_iff {p : Pat} {l r : Line} :
    p.rest l = some r ↔ ∃ m, l = m ++ r ∧ p.rest m = some [] := by
  induction p generalizing l with
  | nil =>
    constructor
    · intro h
      rw [rest, Option.some.injEq] at h
      exact ⟨[], h, rfl⟩
    · rintro ⟨m, rfl, hm⟩
      rw [rest, Option.some.injEq] at hm
      rw [hm, List.nil_append, rest]
  | cons o p ih =>
    cases l with
    | nil =>
      refine iff_of_false (by simp [rest]) ?_
      rintro ⟨m, hm, hr⟩
      rw [(List.append_eq_nil_iff.mp hm.symm).1] at hr
      cases hr
    | cons c l =>
      rw [rest_cons, ih]
      constructor
      · rintro ⟨ho, m, rfl, hm⟩
        exact ⟨c :: m, rfl, rest_cons.mpr ⟨ho, hm⟩⟩
      · rintro ⟨m, hl, hm⟩
        cases m with
        | nil => cases hm
        | cons d m =>
          obtain ⟨rfl, rfl⟩ := List.cons.inj hl
          obtain ⟨ho, hm⟩ := rest_cons.mp hm
          exact ⟨ho, m, rfl, hm⟩

theorem rest_eq_append {p : Pat} {l r : Line} (h : p.rest l = some r) : ∃ m, l = m ++ r :=
  let ⟨m, hm, _⟩ := rest_iff.mp h
  ⟨m, hm⟩

/-- A match has as many characters as the pattern. -/
theorem length_of_rest {p : Pat} {l r : Line} (h : p.rest l = some r) :
    l.length = p.length + r.length := by
  induction p generalizing l with
  | nil =>
    rw [rest, Option.some.injEq] at h
    rw [h, List.length_nil, Nat.zero_add]
  | cons o p ih =>
    cases l with
    | nil => simp [rest] at h
    | cons c l =>
      rw [List.length_cons, List.length_cons, ih (rest_cons.mp h).2]
      omega

/-- The leftmost match splits the line, and it is a match. -/
theorem find_eq_some {p : Pat} {l a b : Line} (h : p.find l = some (a, b)) :
    ∃ m, l = a ++ (m ++ b) ∧ p.rest (m ++ b) = some b := by
  induction l generalizing a with
  | nil =>
    simp only [find, Option.map_eq_some_iff, Prod.mk.injEq] at h
    obtain ⟨r, hr, rfl, rfl⟩ := h
    obtain ⟨m, hm⟩ := rest_eq_append hr
    exact ⟨m, hm, hm ▸ hr⟩
  | cons c l ih =>
    simp only [find] at h
    split at h
    · rename_i r hr
      simp only [Option.some.injEq, Prod.mk.injEq] at h
      obtain ⟨rfl, rfl⟩ := h
      obtain ⟨m, hm⟩ := rest_eq_append hr
      exact ⟨m, hm, hm ▸ hr⟩
    · simp only [Option.map_eq_some_iff, Prod.mk.injEq, Prod.exists] at h
      obtain ⟨a', b', hf, rfl, rfl⟩ := h
      obtain ⟨m, hm, hr⟩ := ih hf
      exact ⟨m, by rw [hm, List.cons_append], hr⟩

/-- There is no match further left. -/
theorem find_leftmost {p : Pat} {l a b u x : Line} (h : p.find l = some (a, b)) (hl : l = u ++ x)
    (hu : u.length < a.length) : p.rest x = none := by
  induction l generalizing a u with
  | nil =>
    simp only [find, Option.map_eq_some_iff, Prod.mk.injEq] at h
    obtain ⟨r, -, rfl, -⟩ := h
    cases hu
  | cons c l ih =>
    simp only [find] at h
    split at h
    · simp only [Option.some.injEq, Prod.mk.injEq] at h
      rw [← h.1] at hu
      cases hu
    · rename_i hr
      simp only [Option.map_eq_some_iff, Prod.mk.injEq, Prod.exists] at h
      obtain ⟨a', b', hf, rfl, rfl⟩ := h
      cases u with
      | nil =>
        rw [List.nil_append] at hl
        rwa [← hl]
      | cons d u =>
        obtain ⟨-, rfl⟩ := List.cons.inj hl
        exact ih hf rfl (Nat.lt_of_succ_lt_succ hu)

/-- A match that none is left of is the leftmost one. -/
theorem find_eq_of_leftmost {p : Pat} {a x b : Line} (hx : p.rest x = some b)
    (h : ∀ u y, a ++ x = u ++ y → u.length < a.length → p.rest y = none) :
    p.find (a ++ x) = some (a, b) := by
  induction a with
  | nil =>
    cases x with
    | nil =>
      rw [List.append_nil, find, hx]
      rfl
    | cons c x => rw [List.nil_append, find, hx]
  | cons c a ih =>
    have h0 : p.rest (c :: (a ++ x)) = none := h [] _ rfl (Nat.succ_pos _)
    rw [List.cons_append, find, h0, ih fun u y hy hu => ?_]
    · rfl
    · exact h (c :: u) y (by rw [List.cons_append, hy, List.cons_append]) (Nat.succ_lt_succ hu)

theorem find_of_rest {p : Pat} {l r : Line} (h : p.rest l = some r) : p.find l = some ([], r) := by
  cases l with
  | nil => rw [find, h]; rfl
  | cons c l => rw [find, h]

theorem find_cons {p : Pat} {c : Char} {l : Line} (h : p.rest (c :: l) = none) :
    p.find (c :: l) = (p.find l).map fun ab => (c :: ab.1, ab.2) := by
  rw [find, h]

/-! ## Lines without a match -/

theorem clean_cons {p : Pat} {c : Char} {l : Line} :
    p.Clean (c :: l) ↔ p.rest (c :: l) = none ∧ p.Clean l := by
  unfold Clean
  simp only [find]
  split
  · rename_i r hr
    simp [hr]
  · rename_i hr
    simp [hr]

theorem clean_iff {p : Pat} {l : Line} : p.Clean l ↔ ∀ a b, l = a ++ b → p.rest b = none := by
  induction l with
  | nil => simp [Clean, find]
  | cons c l ih =>
    rw [clean_cons, ih]
    constructor
    · rintro ⟨h0, h⟩ a b hab
      cases a with
      | nil =>
        rw [List.nil_append] at hab
        rwa [← hab]
      | cons d a =>
        simp only [List.cons_append, List.cons.injEq] at hab
        exact h a b hab.2
    · exact fun h => ⟨h [] _ rfl, fun a b hab => h (c :: a) b (by rw [hab]; rfl)⟩

theorem rest_append_right {p : Pat} {l r : Line} (h : p.rest l = some r) (b : Line) :
    p.rest (l ++ b) = some (r ++ b) := by
  obtain ⟨m, rfl, hm⟩ := rest_iff.mp h
  exact rest_iff.mpr ⟨m, List.append_assoc _ _ _, hm⟩

/-- A regular expression without operators matches itself. -/
theorem rest_ofRegex {re : Line} (h : '.' ∉ re) {l r : Line} :
    (ofRegex re).rest l = some r ↔ l = re ++ r := by
  induction re generalizing l with
  | nil =>
    show some l = some r ↔ _
    rw [Option.some.injEq, List.nil_append]
  | cons c re ih =>
    have hc : c ≠ '.' := fun e => h (by rw [e]; exact List.mem_cons_self)
    have hre : '.' ∉ re := fun hm => h (List.mem_cons_of_mem _ hm)
    have ho : ofRegex (c :: re) = some c :: ofRegex re := by
      rw [ofRegex, List.map_cons, if_neg hc]
      rfl
    rw [ho]
    cases l with
    | nil => simp [rest]
    | cons d l =>
      simp only [rest, List.cons_append, List.cons.injEq]
      by_cases hd : c = d
      · simp [hd, ih hre]
      · simp [hd, Ne.symm hd]

/-- A pattern that ends in a character. -/
theorem rest_concat {p : Pat} {c : Char} {l r : Line} :
    Pat.rest (p ++ [some c]) l = some r ↔ ∃ m, l = m ++ c :: r ∧ p.rest m = some [] := by
  induction p generalizing l with
  | nil =>
    simp only [rest, Option.some.injEq, exists_eq_right, List.nil_append]
    cases l with
    | nil => simp [rest]
    | cons d l => simp [rest, eq_comm]
  | cons o p ih =>
    cases l with
    | nil => simp [rest]
    | cons d l =>
      rw [List.cons_append, rest_cons, ih]
      constructor
      · rintro ⟨ho, m, rfl, hm⟩
        exact ⟨d :: m, rfl, rest_cons.mpr ⟨ho, hm⟩⟩
      · rintro ⟨m, hl, hm⟩
        cases m with
        | nil => cases hm
        | cons e m =>
          obtain ⟨rfl, rfl⟩ := List.cons.inj hl
          obtain ⟨ho, hm⟩ := rest_cons.mp hm
          exact ⟨ho, m, rfl, hm⟩

/-- A pattern that consists of two matches as the second does after the first. -/
theorem rest_append_pattern (p q : Pat) (l : Line) : Pat.rest (p ++ q) l = (p.rest l).bind q.rest := by
  induction p generalizing l with
  | nil => rfl
  | cons o p ih =>
    cases l with
    | nil => cases o <;> rfl
    | cons c l =>
      cases o with
      | none => exact ih l
      | some d =>
        simp only [List.cons_append, rest]
        split
        · exact ih l
        · rfl

/-- A regular expression whose only operator is `.` matches itself. -/
theorem rest_self (re : Line) : (ofRegex re).rest re = some [] := by
  induction re with
  | nil => rfl
  | cons c re ih =>
    refine rest_cons.mpr ⟨?_, ih⟩
    by_cases hc : c = '.'
    · exact .inl (if_pos hc)
    · exact .inr (if_neg hc)

/-- A part of a line without a match has none. -/
theorem Clean.append_left {p : Pat} {a b : Line} (h : p.Clean (a ++ b)) : p.Clean a := by
  rw [clean_iff] at h ⊢
  intro u v huv
  cases hr : p.rest v with
  | none => rfl
  | some r =>
    have := h u (v ++ b) (by rw [huv, List.append_assoc])
    rw [rest_append_right hr] at this
    cases this

/-- A match that is no longer than a front part of the line lies in it. -/
theorem rest_left {p : Pat} {a b r : Line} (h : p.rest (a ++ b) = some r)
    (hlen : p.length ≤ a.length) : ∃ d, p.rest a = some d := by
  obtain ⟨m, hl, hm⟩ := rest_iff.mp h
  have hm' : m.length = p.length := length_of_rest hm
  rcases List.append_eq_append_iff.mp hl with ⟨d, rfl, -⟩ | ⟨d, rfl, -⟩
  · rw [List.length_append] at hm'
    obtain rfl : d = [] := List.eq_nil_of_length_eq_zero (by omega)
    rw [List.append_nil] at hm
    exact ⟨[], hm⟩
  · exact ⟨d, rest_iff.mpr ⟨m, rfl, hm⟩⟩

/-- Nothing before the leftmost match has one. -/
theorem clean_of_find {p : Pat} (hp : p ≠ []) {l a b : Line} (h : p.find l = some (a, b)) :
    p.Clean a := by
  rw [clean_iff]
  intro u x hx
  cases hr : p.rest x with
  | none => rfl
  | some r =>
    obtain ⟨m, rfl, -⟩ := find_eq_some h
    have hx' : u.length < a.length := by
      have hlen := length_of_rest hr
      have hpos := List.length_pos_iff.mpr hp
      rw [hx, List.length_append]
      omega
    have hnone := find_leftmost h (u := u) (x := x ++ (m ++ b)) (by rw [hx, List.append_assoc]) hx'
    rw [rest_append_right hr] at hnone
    cases hnone

theorem Clean.append_right {p : Pat} {a b : Line} (h : p.Clean (a ++ b)) : p.Clean b := by
  rw [clean_iff] at h ⊢
  exact fun u v huv => h (a ++ u) v (by rw [huv, List.append_assoc])

/-! ## Barriers -/

/-- Up to a text that a match can never reach into, the leftmost match in
`a ++ x ++ b` is that in `a`; without one, it is that in `x ++ b`. -/
theorem find_append {p : Pat} {x : Line} (h : ∀ t < p.length, clash (p.drop t) x = true)
    (a b : Line) :
    p.find (a ++ (x ++ b)) =
      match p.find a with
      | some (u, v) => some (u, v ++ (x ++ b))
      | none => (p.find (x ++ b)).map fun uv => (a ++ uv.1, uv.2) := by
  induction a with
  | nil =>
    cases p with
    | nil => cases x ++ b <;> simp [find, rest]
    | cons o p => cases o <;> simp [find, rest]
  | cons c a ih =>
    have hr := rest_append h (c :: a) b
    rw [List.cons_append] at hr ⊢
    simp only [find]
    cases hc : p.rest (c :: a) with
    | some r =>
      rw [hc] at hr
      rw [hr]; rfl
    | none =>
      rw [hc] at hr
      rw [hr, ih]
      cases p.find a with
      | none => simp [Option.map_map, Function.comp_def]
      | some uv => rfl

theorem find_skip {p : Pat} {x : Line} (h : ∀ k < x.length, clash p (x.drop k) = true)
    (b : Line) : p.find (x ++ b) = (p.find b).map fun uv => (x ++ uv.1, uv.2) := by
  induction x with
  | nil => simp
  | cons c x ih =>
    have h0 : p.rest ((c :: x) ++ b) = none := rest_of_clash (h 0 (by simp)) b
    rw [List.cons_append] at h0 ⊢
    rw [find, h0, ih fun k hk => by simpa using h (k + 1) (by simpa using hk)]
    simp [Option.map_map, Function.comp_def]

/-- Across a barrier, the leftmost match is that in `a`, or else that in `b`. -/
theorem find_barrier {p : Pat} {x : Line} (h : p.Avoids x) (a b : Line) :
    p.find (a ++ (x ++ b)) =
      match p.find a with
      | some (u, v) => some (u, v ++ (x ++ b))
      | none => (p.find b).map fun uv => (a ++ (x ++ uv.1), uv.2) := by
  rw [find_append h.1, find_skip h.2]
  cases p.find a with
  | none => simp [Option.map_map, Function.comp_def]
  | some uv => rfl

theorem clean_barrier {p : Pat} {x : Line} (h : p.Avoids x) {a b : Line} :
    p.Clean (a ++ (x ++ b)) ↔ p.Clean a ∧ p.Clean b := by
  unfold Clean
  rw [find_barrier h]
  cases p.find a with
  | none => simp
  | some uv => simp

end Pat

/-- The longest run of characters of a class, where the next is not of it. -/
theorem span_append {p : Char → Bool} {i x : Line} (hi : ∀ c ∈ i, p c = true)
    (hx : ∀ c ∈ x.head?, p c = false) : (i ++ x).takeWhile p = i ∧ (i ++ x).dropWhile p = x := by
  induction i with
  | nil =>
    cases x with
    | nil => exact ⟨rfl, rfl⟩
    | cons c x => simp [hx c rfl]
  | cons c i ih =>
    obtain ⟨hc, hi⟩ := List.forall_mem_cons.mp hi
    obtain ⟨h1, h2⟩ := ih hi
    simp [hc, h1, h2]

/-! ## sed -/

/-- Trailing white space of a line removed, as `\s*` before a match takes it. -/
def rstrip (l : Line) : Line := l.rdropWhile fun c => c.isWhitespace || c = '\x0b' || c = '\x0c'

/-- `s/p[^ ]*/v/` -/
def sedToken (p : Pat) (v l : Line) : Line :=
  match p.find l with
  | none => l
  | some (a, b) => a ++ (v ++ b.dropWhile (· ≠ ' '))

/-- `s/p//` -/
def sedDelete (p : Pat) (l : Line) : Line :=
  match p.find l with
  | none => l
  | some (a, b) => a ++ b

/-- The first `n` substitutions of `s/\s*p//g`, for a `p` that does not start
with white space. -/
def sedDeleteN (p : Pat) : Nat → Line → Line
  | 0, l => l
  | n + 1, l =>
    match p.find l with
    | none => l
    | some (a, b) => rstrip a ++ sedDeleteN p n b

/-- `s/\s*p//g`: a line has no more matches than characters. -/
def sedDeleteAll (p : Pat) (l : Line) : Line := sedDeleteN p l.length l

theorem rstrip_append (x y : Line) :
    rstrip (x ++ y) = if rstrip y = [] then rstrip x else x ++ rstrip y := by
  unfold rstrip List.rdropWhile
  rw [List.reverse_append, List.dropWhile_append]
  by_cases h : y.reverse.dropWhile (fun c => c.isWhitespace || c = '\x0b' || c = '\x0c') = []
  · rw [h]
    rfl
  · rw [if_neg (by simpa using h), if_neg (by simpa using h), List.reverse_append,
      List.reverse_reverse]

/-- After a text that ends in no white space. -/
theorem rstrip_append_solid {v : Line} (hv : rstrip v = v) (hne : v ≠ []) (u w : Line) :
    rstrip (u ++ (v ++ w)) = u ++ (v ++ rstrip w) := by
  have hu : rstrip (u ++ v) = u ++ v := by
    rw [rstrip_append, hv, if_neg hne]
  rw [← List.append_assoc, rstrip_append, hu]
  split
  · rename_i h
    rw [h, List.append_nil]
  · rw [List.append_assoc]

theorem dropWhile_append_space (v r : Line) :
    (v ++ ' ' :: r).dropWhile (· ≠ ' ') = v.dropWhile (· ≠ ' ') ++ ' ' :: r := by
  induction v with
  | nil => simp
  | cons c v ih =>
    by_cases h : c = ' '
    · simp [h]
    · simpa [List.dropWhile_cons, h] using ih

theorem sedToken_cons {p : Pat} {c : Char} {l : Line} (h : p.rest (c :: l) = none) (v : Line) :
    sedToken p v (c :: l) = c :: sedToken p v l := by
  simp only [sedToken, Pat.find, h]
  cases p.find l <;> rfl

/-- A substitution on one side of a barrier that starts with a blank. -/
theorem sedToken_barrier {p : Pat} {x : Line} (h : p.Avoids (' ' :: x)) (v a b : Line) :
    sedToken p v (a ++ (' ' :: x ++ b)) =
      if p.Clean a then a ++ (' ' :: x ++ sedToken p v b) else sedToken p v a ++ (' ' :: x ++ b) := by
  by_cases ha : p.Clean a
  · rw [if_pos ha]
    unfold sedToken
    rw [Pat.find_barrier h, show p.find a = none from ha]
    cases p.find b <;> simp
  · rw [if_neg ha]
    obtain ⟨uw, hu⟩ := Option.ne_none_iff_exists'.mp ha
    unfold sedToken
    rw [Pat.find_barrier h, hu]
    simp only [List.cons_append, dropWhile_append_space, List.append_assoc]

/-- The substitution brings no match of a pattern that avoids what it puts. -/
theorem sedToken_clean {p q : Pat} {v : Line} (hv : q.Avoids v) {c l : Line}
    (h : q.Clean (c ++ l)) : q.Clean (c ++ sedToken p v l) := by
  unfold sedToken
  split
  · exact h
  · rename_i a b hf
    obtain ⟨m, rfl, -⟩ := Pat.find_eq_some hf
    rw [← List.append_assoc] at h ⊢
    refine (Pat.clean_barrier hv).mpr ⟨h.append_left, ?_⟩
    have hb : q.Clean b := h.append_right.append_right
    rw [← List.takeWhile_append_dropWhile (p := (· ≠ ' ')) (l := b)] at hb
    exact hb.append_right

theorem sedDeleteN_clean {p : Pat} {l : Line} (h : p.Clean l) (n : Nat) : sedDeleteN p n l = l := by
  cases n with
  | zero => rfl
  | succ n => simp only [sedDeleteN, show p.find l = none from h]

theorem sedDeleteAll_clean {p : Pat} {l : Line} (h : p.Clean l) : sedDeleteAll p l = l :=
  sedDeleteN_clean h _

/-! ## Words -/

/-- C's `isspace`. -/
def isSpace (c : Char) : Bool := c.isWhitespace || c = '\x0b' || c = '\x0c'

/-- A blank. -/
def isBlank (c : Char) : Bool := c = ' ' || c = '\t'

/-- A character of a class without blanks is none. -/
theorem isBlank_eq_false {p : Char → Bool} {c : Char} (hs : p ' ' = false) (ht : p '\t' = false)
    (h : p c = true) : isBlank c = false := by
  rw [Bool.eq_false_iff]
  intro hb
  simp only [isBlank, Bool.or_eq_true, decide_eq_true_eq] at hb
  rcases hb with rfl | rfl
  · exact absurd h (Bool.eq_false_iff.mp hs)
  · exact absurd h (Bool.eq_false_iff.mp ht)

/-- The words of a line. -/
def words (l : Line) : List Line := (l.splitOnP isBlank).filter (· ≠ [])

@[simp] theorem words_nil : words [] = [] := rfl

/-- A blank separates the words before it from those after it. -/
theorem words_append_blank (a b : Line) {c : Char} (hc : isBlank c = true) :
    words (a ++ c :: b) = words a ++ words b := by
  simp only [words, List.splitOnP_append_cons a b hc, List.filter_append]

theorem words_blank_cons (b : Line) {c : Char} (hc : isBlank c = true) :
    words (c :: b) = words b := words_append_blank [] b hc

/-- A word stands in the line. -/
theorem mem_words {w l : Line} (h : w ∈ words l) : ∃ a b, l = a ++ (w ++ b) := by
  simp only [words, List.mem_filter, decide_eq_true_eq] at h
  obtain ⟨h, -⟩ := h
  have key : ∀ l : Line, (∀ w ∈ (l.splitOnP isBlank).head?, ∃ b, l = w ++ b) ∧
      ∀ w ∈ l.splitOnP isBlank, ∃ a b, l = a ++ (w ++ b) := by
    intro l
    induction l with
    | nil => simp
    | cons c l ih =>
      rw [List.splitOnP_cons_eq_if_modifyHead]
      split
      · refine ⟨by simp, fun w hw => ?_⟩
        rcases List.mem_cons.mp hw with rfl | hw
        · exact ⟨[], _, rfl⟩
        · obtain ⟨a, b, hl⟩ := ih.2 w hw
          exact ⟨c :: a, b, by rw [hl]; rfl⟩
      · cases hs : l.splitOnP isBlank with
        | nil => exact absurd hs (List.splitOnP_ne_nil _ _)
        | cons v vs =>
          rw [hs] at ih
          obtain ⟨b, hb⟩ := ih.1 v (by simp)
          refine ⟨by simpa using ⟨b, hb⟩, fun w hw => ?_⟩
          rcases List.mem_cons.mp hw with rfl | hw
          · exact ⟨[], b, by rw [hb]; rfl⟩
          · obtain ⟨a, b, hl⟩ := ih.2 w (List.mem_cons_of_mem _ hw)
            exact ⟨c :: a, b, by rw [hl]; rfl⟩
  exact (key l).2 w h

/-- Words have no blanks in them. -/
theorem solid_of_mem_words {w l : Line} (h : w ∈ words l) : ∀ c ∈ w, isBlank c = false := by
  simp only [words, List.mem_filter] at h
  have key : ∀ l : Line, ∀ w ∈ l.splitOnP isBlank, ∀ c ∈ w, isBlank c = false := by
    intro l
    induction l with
    | nil => simp
    | cons d l ih =>
      rw [List.splitOnP_cons_eq_if_modifyHead]
      split
      · simpa using ih
      · rename_i hd
        cases hs : l.splitOnP isBlank with
        | nil => exact absurd hs (List.splitOnP_ne_nil _ _)
        | cons v vs =>
          rw [hs, List.forall_mem_cons] at ih
          rw [List.modifyHead_cons, List.forall_mem_cons, List.forall_mem_cons]
          exact ⟨⟨by simpa using hd, ih.1⟩, ih.2⟩
  exact key l w h.1

/-- A text without blanks is one word. -/
theorem words_solid {w : Line} (hne : w ≠ []) (hw : ∀ c ∈ w, isBlank c = false) : words w = [w] := by
  have hs : w.splitOnP isBlank = [w] := by
    clear hne
    induction w with
    | nil => rfl
    | cons c w ih =>
      rw [List.forall_mem_cons] at hw
      rw [List.splitOnP_cons_eq_if_modifyHead, if_neg (by rw [hw.1]; decide), ih hw.2]
      rfl
  rw [words, hs]
  simp [hne]

/-! ## Where words start -/

/-- Nothing, or a text that ends in a blank: a word can start after it. -/
def EndsBlank (a : Line) : Prop := ∀ c ∈ a.getLast?, isBlank c = true

instance (a : Line) : Decidable (EndsBlank a) :=
  inferInstanceAs (Decidable (∀ c ∈ a.getLast?, isBlank c = true))

theorem endsBlank_append {b : Line} (hb : b ≠ []) (a : Line) :
    EndsBlank (a ++ b) ↔ EndsBlank b := by
  unfold EndsBlank
  rw [List.getLast?_append_of_ne_nil _ hb]

theorem words_append {a : Line} (ha : EndsBlank a) (b : Line) :
    words (a ++ b) = words a ++ words b := by
  rcases List.eq_nil_or_concat a with rfl | ⟨a, c, rfl⟩
  · simp
  · have hc : isBlank c = true := ha c (by simp)
    rw [List.concat_eq_append, List.append_assoc, List.singleton_append, words_append_blank a b hc,
      words_append_blank a [] hc, words_nil, List.append_nil]

/-- Nothing, or a text that starts with a blank: a word can end before it. -/
def StartsBlank (b : Line) : Prop := ∀ c ∈ b.head?, isBlank c = true

theorem words_append_right {b : Line} (hb : StartsBlank b) (a : Line) :
    words (a ++ b) = words a ++ words b := by
  cases b with
  | nil => simp
  | cons c b =>
    have hc : isBlank c = true := hb c rfl
    rw [words_append_blank a b hc, words_blank_cons b hc]

theorem startsBlank_dropWhile (l : Line) : StartsBlank (l.dropWhile fun c => !isBlank c) := by
  intro c hc
  have := List.head?_dropWhile_not (fun c => !isBlank c) l
  rw [Option.mem_def.mp hc] at this
  simpa using this

/-- The first word of a line that does not start with a blank. -/
theorem words_solid_append {w : Line} (hne : w ≠ []) (hw : ∀ c ∈ w, isBlank c = false) (l : Line) :
    words (w ++ l) = (w ++ l.takeWhile fun c => !isBlank c) ::
      words (l.dropWhile fun c => !isBlank c) := by
  have hl : ∀ c ∈ w ++ l.takeWhile (fun c => !isBlank c), isBlank c = false := by
    intro c hc
    rcases List.mem_append.mp hc with h | h
    · exact hw c h
    · simpa using List.mem_takeWhile_imp h
  conv_lhs => rw [← List.takeWhile_append_dropWhile (p := fun c => !isBlank c) (l := l)]
  rw [← List.append_assoc, words_append_right (startsBlank_dropWhile l),
    words_solid (by simp [hne]) hl, List.singleton_append]

/-- A line ends in the part of a word that stands at its end, if any. -/
theorem exists_solid_suffix (a : Line) :
    ∃ b u, a = b ++ u ∧ EndsBlank b ∧ ∀ c ∈ u, isBlank c = false := by
  induction a using List.reverseRecOn with
  | nil => exact ⟨[], [], rfl, by simp [EndsBlank], by simp⟩
  | append_singleton a c ih =>
    cases hc : isBlank c with
    | true => exact ⟨a ++ [c], [], by simp, by simp [EndsBlank, hc], by simp⟩
    | false =>
      obtain ⟨b, u, rfl, hb, hu⟩ := ih
      refine ⟨b, u ++ [c], List.append_assoc _ _ _, hb, fun d hd => ?_⟩
      rcases List.mem_append.mp hd with h | h
      · exact hu d h
      · rw [List.mem_singleton.mp h, hc]

/-- What has no blanks in it stands within a word. -/
theorem exists_word_of_solid {w : Line} (hne : w ≠ []) (hw : ∀ c ∈ w, isBlank c = false) (a b : Line) :
    ∃ v ∈ words (a ++ (w ++ b)), ∃ u x, v = u ++ (w ++ x) := by
  obtain ⟨a, u, rfl, ha, hu⟩ := exists_solid_suffix a
  have hsolid : ∀ c ∈ u ++ w, isBlank c = false := by
    intro c hc
    exact (List.mem_append.mp hc).elim (hu c) (hw c)
  rw [List.append_assoc, words_append ha, ← List.append_assoc u, words_solid_append (by simp [hne]) hsolid]
  exact ⟨_, List.mem_append_right _ List.mem_cons_self, u, _, List.append_assoc _ _ _⟩

/-- Every match of the pattern starts where a word can. -/
def Pat.StartsWords (p : Pat) (l : Line) : Prop :=
  ∀ a b, l = a ++ b → p.rest b ≠ none → EndsBlank a

section

variable {w l : Line}

theorem startsWords_of_clean {p : Pat} (h : p.Clean l) : p.StartsWords l :=
  fun a b hl hb => absurd (Pat.clean_iff.mp h a b hl) hb

/-- A word and the blank after it are deleted. -/
theorem sedDelete_word (hdot : '.' ∉ w ++ [' ']) (h : (Pat.ofRegex (w ++ [' '])).StartsWords l) :
    sedDelete (Pat.ofRegex (w ++ [' '])) l = l ∨ ∃ a b, EndsBlank a ∧
      l = a ++ (w ++ ' ' :: b) ∧ sedDelete (Pat.ofRegex (w ++ [' '])) l = a ++ b := by
  unfold sedDelete
  split
  · exact .inl rfl
  · rename_i a b hf
    obtain ⟨m, rfl, hr⟩ := Pat.find_eq_some hf
    have ha : EndsBlank a := h a _ rfl (by rw [hr]; simp)
    have hm : m ++ b = w ++ ' ' :: b := by
      simpa using (Pat.rest_ofRegex hdot).mp hr
    exact .inr ⟨a, b, ha, by rw [hm], rfl⟩

/-- What is left has its matches where words can start, too. -/
theorem startsWords_sedDelete (hdot : '.' ∉ w ++ [' ']) (hw : ∀ c ∈ w, isBlank c = false)
    (h : (Pat.ofRegex (w ++ [' '])).StartsWords l) :
    (Pat.ofRegex (w ++ [' '])).StartsWords (sedDelete (Pat.ofRegex (w ++ [' '])) l) := by
  unfold sedDelete
  split
  · exact h
  · rename_i a b hf
    obtain ⟨m, rfl, hr⟩ := Pat.find_eq_some hf
    have ha : EndsBlank a := h a _ rfl (by rw [hr]; simp)
    intro u x hux hx
    obtain ⟨r, hr'⟩ := Option.ne_none_iff_exists'.mp hx
    obtain rfl := (Pat.rest_ofRegex hdot).mp hr'
    rcases List.append_eq_append_iff.mp hux with ⟨v, rfl, hb⟩ | ⟨v, rfl, hv⟩
    · -- The match lies in what stood after the deleted text.
      by_cases hv : v = []
      · rwa [hv, List.append_nil]
      · have hl := h (a ++ (m ++ v)) (w ++ [' '] ++ r) (by rw [hb]; simp only [List.append_assoc]) hx
        rw [← List.append_assoc] at hl
        rw [endsBlank_append hv] at hl ⊢
        exact hl
    · by_cases hvn : v = []
      · rwa [hvn, List.append_nil] at ha
      rw [endsBlank_append hvn] at ha
      obtain ⟨d, rfl⟩ : ∃ d, v = w ++ [' '] ++ d := by
        rcases List.append_eq_append_iff.mp hv with ⟨d, hd, -⟩ | ⟨d, hd, -⟩
        · exact ⟨d, hd⟩
        · rcases List.eq_nil_or_concat d with rfl | ⟨d, c, rfl⟩
          · exact ⟨[], by rw [hd, List.append_nil, List.append_nil]⟩
          · -- It would reach over the end of what stood before, but blanks end words.
            rw [List.concat_eq_append, ← List.append_assoc] at hd
            have hwv : w = v ++ d := (List.append_inj' hd rfl).1
            have hlast : v.getLast hvn ∈ w := by
              rw [hwv]
              exact List.mem_append_left _ (List.getLast_mem hvn)
            have hb : isBlank (v.getLast hvn) = true := ha _ (List.getLast?_eq_some_getLast hvn)
            rw [hw _ hlast] at hb
            cases hb
      -- It lies in what stood before.
      refine h u (w ++ [' '] ++ (d ++ (m ++ b))) (by simp only [List.append_assoc]) ?_
      rw [(Pat.rest_ofRegex hdot).mpr rfl]
      simp
end

/-! ## Literals

The kernel decodes a string literal slowly, and compares characters fast: a
text of literals is first replaced by its characters.
-/

theorem lines_nil : ([] : List String).map String.toList = [] := rfl

theorem lines_cons {l : Line} {ss : List String} {t : Text} (h : ss.map String.toList = t) :
    (String.ofList l :: ss).map String.toList = l :: t := by
  rw [List.map_cons, String.toList_ofList, h]

end HassOS.Framework
