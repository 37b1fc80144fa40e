import HassOS.Framework.Text
import Mathlib.Algebra.Order.Floor.Ring
import Mathlib.Data.Rat.Floor

/-!
# Numbers in awk

The fields of a line, the number that a text is converted to (the longest
decimal number that it starts with, after white space), and what `%u` prints.
The numbers are exact.

A plain decimal numeral that no part of a longer number follows is converted to
its value (`number_decimal`), and `%u` prints no sign (`printU_nonneg`).
-/

namespace HassOS.Framework.Awk

/-- The value of a list of digits. -/
def digits (l : Line) : ℕ := l.foldl (fun n c => 10 * n + (c.toNat - '0'.toNat)) 0

/-- Digits, with a fraction or not: their value, and what follows. -/
def mantissa (l : Line) : ℚ × Line :=
  let i := l.takeWhile Char.isDigit
  match l.dropWhile Char.isDigit with
  | '.' :: r =>
    let f := r.takeWhile Char.isDigit
    (digits (i ++ f) / 10 ^ f.length, r.dropWhile Char.isDigit)
  | r => (digits i, r)

/-- An exponent at the front of the text, 0 if there is none. -/
def exponent : Line → ℤ
  | [] => 0
  | e :: l =>
    if e = 'e' || e = 'E' then
      match l with
      | '-' :: l => -digits (l.takeWhile Char.isDigit)
      | '+' :: l => digits (l.takeWhile Char.isDigit)
      | l => digits (l.takeWhile Char.isDigit)
    else 0

def unsigned (l : Line) : ℚ := (mantissa l).1 * 10 ^ exponent (mantissa l).2

/-- The number of a text. -/
def number (l : Line) : ℚ :=
  match l.dropWhile isSpace with
  | '-' :: l => -unsigned l
  | '+' :: l => unsigned l
  | l => unsigned l

/-- `$1` -/
def field1 (l : Line) : Line := (words l).headD []

/-- `%u` cuts the fraction off, and takes a negative number modulo the size of
a word. -/
def printU (q : ℚ) : ℤ := if 0 ≤ q then ⌊q⌋ else ⌈q⌉ % 2 ^ 64

theorem printU_nonneg (q : ℚ) : 0 ≤ printU q := by
  unfold printU
  split
  · rename_i h
    exact Int.floor_nonneg.mpr h
  · exact Int.emod_nonneg _ (by norm_num)

theorem printU_eq_floor {q : ℚ} (h : 0 ≤ q) : printU q = ⌊q⌋ := if_pos h

theorem digits_append (a b : Line) : digits (a ++ b) = digits a * 10 ^ b.length + digits b := by
  have key : ∀ (b : Line) (n : ℕ), b.foldl (fun n c => 10 * n + (c.toNat - '0'.toNat)) n =
      n * 10 ^ b.length + digits b := by
    intro b
    induction b with
    | nil => intro n; simp [digits]
    | cons c b ih =>
      intro n
      have hd : digits (c :: b) = _ := ih (10 * 0 + (c.toNat - '0'.toNat))
      rw [List.foldl_cons, ih, hd, List.length_cons]
      ring
  rw [digits, List.foldl_append, key]
  rfl

/-- No part of a longer number. -/
def Ends (x : Line) : Prop := ∀ c ∈ x.head?, c.isDigit = false ∧ c ≠ '.' ∧ c ≠ 'e' ∧ c ≠ 'E'

instance (x : Line) : Decidable (Ends x) :=
  inferInstanceAs (Decidable (∀ c ∈ x.head?, c.isDigit = false ∧ c ≠ '.' ∧ c ≠ 'e' ∧ c ≠ 'E'))

section

variable {i f x : Line}

/-- A decimal numeral: its digits, and those of its fraction. -/
def numeral (i g : Line) : Line := i ++ if g = [] then [] else '.' :: g

def numeralValue (i g : Line) : ℚ := digits i + digits g / 10 ^ g.length

theorem numeralValue_nonneg (i g : Line) : 0 ≤ numeralValue i g := by
  unfold numeralValue
  positivity

theorem exponent_ends (hx : Ends x) : exponent x = 0 := by
  cases x with
  | nil => rfl
  | cons c x =>
    obtain ⟨-, -, h1, h2⟩ := hx c rfl
    simp [exponent, h1, h2]

theorem mantissa_numeral {g : Line} (hi : ∀ c ∈ i, c.isDigit = true) (hg : ∀ c ∈ g, c.isDigit = true)
    (hx : Ends x) : mantissa (numeral i g ++ x) = (numeralValue i g, x) := by
  have hdig : ∀ c ∈ x.head?, c.isDigit = false := fun c hc => (hx c hc).1
  unfold mantissa numeral numeralValue
  by_cases h : g = []
  · subst h
    obtain ⟨h1, h2⟩ := span_append hi hdig
    simp only [if_true, List.append_nil, h1, h2]
    split
    · rename_i c r
      exact absurd rfl (hx '.' rfl).2.1
    · simp [digits]
  · have hdot : ∀ c ∈ ('.' :: (g ++ x)).head?, c.isDigit = false := by simp
    obtain ⟨h1, h2⟩ := span_append hi hdot
    obtain ⟨h3, h4⟩ := span_append hg hdig
    simp only [if_neg h, List.append_assoc, List.cons_append, h1, h2, h3, h4, digits_append]
    push_cast
    rw [add_div, mul_div_cancel_right₀ _ (by positivity)]

/-- awk reads a decimal numeral, if nothing continues it. -/
theorem number_decimal {g : Line} (hne : i ≠ []) (hi : ∀ c ∈ i, c.isDigit = true)
    (hg : ∀ c ∈ g, c.isDigit = true) (hx : Ends x) :
    number (numeral i g ++ x) = numeralValue i g := by
  have hu : unsigned (numeral i g ++ x) = numeralValue i g := by
    rw [unsigned, mantissa_numeral hi hg hx, exponent_ends hx, zpow_zero, mul_one]
  cases i with
  | nil => exact absurd rfl hne
  | cons c i =>
    have hc : c.isDigit = true := hi c List.mem_cons_self
    have hsp : isSpace c = false := by
      rw [Bool.eq_false_iff]
      intro h
      simp only [isSpace, Char.isWhitespace, Bool.or_eq_true, decide_eq_true_eq] at h
      rcases h with (((((rfl | rfl) | rfl) | rfl) | rfl) | rfl) <;> cases hc
    have hd : (numeral (c :: i) g ++ x).dropWhile isSpace = numeral (c :: i) g ++ x := by
      simp [numeral, hsp]
    unfold number
    rw [hd]
    split
    · rename_i l he
      obtain ⟨rfl, -⟩ := List.cons.inj he
      cases hc
    · rename_i l he
      obtain ⟨rfl, -⟩ := List.cons.inj he
      cases hc
    · exact hu

end

end HassOS.Framework.Awk
