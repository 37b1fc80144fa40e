import HassOS.Framework.Text
import Mathlib.Data.Int.Notation
import Mathlib.Data.List.DropRight

/-!
# Texts in Python

The lines of a file, `str.rstrip`, and numbers as texts: `int(s, base)`, which takes blanks
around a number, a sign, the prefix of the base and underscores between digits, and `str` and
`hex`, which write one. Blanks and decimal digits from beyond ASCII count as those of ASCII
(`ascii`).

A line that is written with its `\n` is read back (`lines_append`), and so is what `str`
writes in base 10 and what `hex` writes in base 16 (`int_str`, `int_hex`).
-/

namespace HassOS.Framework.Python

/-- `str.isspace` -/
def isWhite (c : Char) : Bool :=
  (9 ≤ c.toNat && c.toNat ≤ 13) || (28 ≤ c.toNat && c.toNat ≤ 32) || c.toNat = 133 || c.toNat = 160 ||
    c.toNat = 5760 || (8192 ≤ c.toNat && c.toNat ≤ 8202) || c.toNat = 8232 || c.toNat = 8233 ||
    c.toNat = 8239 || c.toNat = 8287 || c.toNat = 12288

/-- `s.rstrip()` -/
def rstrip (s : Line) : Line := s.rdropWhile isWhite

/-- `s.replace(c, t)`, for a character -/
def replaceChar (c : Char) (t : Line) (s : Line) : Line := s.flatMap fun d => if d = c then t else [d]

/-- The lines of an open file, where `\n`, `\r\n` and `\r` all end one. -/
def lines : Line → Text
  | [] => []
  | '\r' :: '\n' :: s => [] :: lines s
  | '\r' :: s => [] :: lines s
  | '\n' :: s => [] :: lines s
  | c :: s => ((c :: (lines s).headD []) :: (lines s).tail)

/-- A blank of C's `isspace`. -/
def isSpace (c : Char) : Bool := c = ' ' || (9 ≤ c.toNat && c.toNat ≤ 13)

def strip (s : Line) : Line := (s.dropWhile isSpace).rdropWhile isSpace

/-- The zeros among the decimal digits of Unicode 14. The other nine digits follow each. -/
def decimalZeros : List ℕ :=
  [48, 1632, 1776, 1984, 2406, 2534, 2662, 2790, 2918, 3046, 3174, 3302, 3430, 3558, 3664, 3792, 3872, 4160,
    4240, 6112, 6160, 6470, 6608, 6784, 6800, 6992, 7088, 7232, 7248, 42528, 43216, 43264, 43472, 43504, 43600,
    44016, 65296, 66720, 68912, 69734, 69872, 69942, 70096, 70384, 70736, 70864, 71248, 71360, 71472, 71904,
    72016, 72784, 73040, 73120, 92768, 92864, 93008, 120782, 120792, 120802, 120812, 120822, 123200, 123632,
    125264, 130032]

/-- What a character counts as in a number: beyond ASCII a blank is a space and a decimal digit
is that of ASCII, and all others are none. -/
def ascii (c : Char) : Char :=
  if c.toNat < 127 then c
  else if isWhite c then ' '
  else match decimalZeros.find? fun z => z ≤ c.toNat && c.toNat < z + 10 with
    | some z => Nat.digitChar (c.toNat - z)
    | none => '?'

def digitValue (c : Char) : Option ℕ :=
  if 48 ≤ c.toNat ∧ c.toNat ≤ 57 then some (c.toNat - 48)
  else if 97 ≤ c.toNat ∧ c.toNat ≤ 122 then some (c.toNat - 87)
  else if 65 ≤ c.toNat ∧ c.toNat ≤ 90 then some (c.toNat - 55)
  else none

/-- A digit of the base. -/
def digit (base : ℕ) (c : Char) : Option ℕ := (digitValue c).filter (· < base)

/-- More digits after those of `acc`, with at most one underscore before each. -/
def moreDigits (base : ℕ) : ℕ → Line → Option ℕ
  | acc, [] => some acc
  | acc, '_' :: d :: s => (digit base d).bind fun v => moreDigits base (base * acc + v) s
  | acc, d :: s => (digit base d).bind fun v => moreDigits base (base * acc + v) s

def numeral (base : ℕ) : Line → Option ℕ
  | [] => none
  | d :: s => (digit base d).bind fun v => moreDigits base v s

/-- The base that a prefix tells, and what is after it. -/
def basePrefix : Line → Option (ℕ × Line)
  | '0' :: c :: s =>
    if c = 'x' ∨ c = 'X' then some (16, s)
    else if c = 'o' ∨ c = 'O' then some (8, s)
    else if c = 'b' ∨ c = 'B' then some (2, s)
    else none
  | _ => none

/-- A number without its sign. With base 0 the prefix tells the base, and a number without one
has no leading zeros. -/
def magnitude (base : ℕ) (s : Line) : Option ℕ :=
  match basePrefix s with
  | some (b, r) =>
    if base = 0 ∨ base = b then numeral b (if r.head? = some '_' then r.tail else r)
    else numeral base s
  | none =>
    if base = 0 then
      if s.head? = some '0' then (numeral 10 s).filter (· = 0) else numeral 10 s
    else numeral base s

/-- `int(s, base)`, where it raises no `ValueError`. -/
def int (base : ℕ) (s : Line) : Option ℤ :=
  match strip (s.map ascii) with
  | '-' :: r => (magnitude base r).map fun n : ℕ => -(n : ℤ)
  | '+' :: r => (magnitude base r).map fun n : ℕ => (n : ℤ)
  | r => (magnitude base r).map fun n : ℕ => (n : ℤ)

/-- A sign, and what is before the digits. -/
def signed (pre : Line) (base : ℕ) (z : ℤ) : Line :=
  (if z < 0 then ['-'] else []) ++ (pre ++ Nat.toDigits base z.natAbs)

/-- `str(z)` -/
def str (z : ℤ) : Line := signed [] 10 z

/-- `hex(z)` -/
def hex (z : ℤ) : Line := signed ['0', 'x'] 16 z

/-! ## Lines -/

/-- A line as it stands in a file. -/
def Solid (l : Line) : Prop := ∀ c ∈ l, c ≠ '\n' ∧ c ≠ '\r'

instance decidableSolid (l : Line) : Decidable (Solid l) :=
  inferInstanceAs (Decidable (∀ c ∈ l, c ≠ '\n' ∧ c ≠ '\r'))

theorem solid_append {l r : Line} : Solid (l ++ r) ↔ Solid l ∧ Solid r := List.forall_mem_append

theorem lines_cons {c : Char} (hn : c ≠ '\n') (hr : c ≠ '\r') (s : Line) :
    lines (c :: s) = (c :: (lines s).headD []) :: (lines s).tail := by
  rw [lines]
  · exact fun s' h => absurd h hr
  · exact hr
  · exact hn

theorem rstrip_append {r : Line} (hr : rstrip r = r) (hne : r ≠ []) (l : Line) :
    rstrip (l ++ r) = l ++ r := by
  refine List.rdropWhile_eq_self_iff.mpr fun hl => ?_
  rw [List.getLast_append_of_ne_nil hl hne]
  exact List.rdropWhile_eq_self_iff.mp hr hne

theorem digit_digitChar {base d : ℕ} (hb : base ≤ 16) (hd : d < base) :
    digit base (Nat.digitChar d) = some d := by
  have h : ∀ d < 16, digitValue (Nat.digitChar d) = some d := by decide
  rw [digit, h d (by omega)]
  simp [Option.filter, hd]

theorem digit_ne_underscore {base v : ℕ} {c : Char} (h : digit base c = some v) : c ≠ '_' := by
  rintro rfl
  have hnone : digitValue '_' = none := by decide
  rw [digit, hnone] at h
  exact absurd h.symm (Option.some_ne_none v)

theorem moreDigits_cons {base acc v : ℕ} {d : Char} (h : digit base d = some v) (s : Line) :
    moreDigits base acc (d :: s) = moreDigits base (base * acc + v) s := by
  have hne := digit_ne_underscore h
  rw [moreDigits, h]
  · rfl
  · intro d' s' he
    exact absurd he hne

theorem moreDigits_append {base acc acc' : ℕ} {s : Line} (hs : ∀ c ∈ s, ∃ v, digit base c = some v)
    (h : moreDigits base acc s = some acc') (t : Line) :
    moreDigits base acc (s ++ t) = moreDigits base acc' t := by
  induction s generalizing acc with
  | nil => rw [← Option.some.inj h]; rfl
  | cons d s ih =>
    obtain ⟨v, hv⟩ := hs d List.mem_cons_self
    rw [moreDigits_cons hv] at h
    rw [List.cons_append, moreDigits_cons hv]
    exact ih (fun c hc => hs c (List.mem_cons_of_mem _ hc)) h

theorem digits_toDigits {base : ℕ} (hb : 1 < base) (hb' : base ≤ 16) (n : ℕ) :
    (∀ c ∈ Nat.toDigits base n, ∃ v, digit base c = some v) ∧
      moreDigits base 0 (Nat.toDigits base n) = some n := by
  induction n using Nat.base_induction base hb with
  | single m hm =>
    have hd := digit_digitChar hb' hm
    rw [Nat.toDigits_of_lt_base hm]
    refine ⟨fun c hc => ⟨m, ?_⟩, ?_⟩
    · rw [List.mem_singleton.mp hc, hd]
    · rw [moreDigits_cons hd]
      simp [moreDigits]
  | digit m k hk hm ih =>
    have hd := digit_digitChar hb' hk
    rw [← Nat.toDigits_append_toDigits hb hm hk, Nat.toDigits_of_lt_base hk]
    refine ⟨fun c hc => ?_, ?_⟩
    · rcases List.mem_append.mp hc with hc | hc
      · exact ih.1 c hc
      · exact ⟨k, by rw [List.mem_singleton.mp hc, hd]⟩
    · rw [moreDigits_append ih.1 ih.2, moreDigits_cons hd]
      rfl

theorem numeral_toDigits {base : ℕ} (hb : 1 < base) (hb' : base ≤ 16) (n : ℕ) :
    numeral base (Nat.toDigits base n) = some n := by
  obtain ⟨hdigits, hvalue⟩ := digits_toDigits hb hb' n
  cases hs : Nat.toDigits base n with
  | nil => exact absurd hs Nat.toDigits_ne_nil
  | cons d s =>
    rw [hs] at hdigits hvalue
    obtain ⟨v, hv⟩ := hdigits d List.mem_cons_self
    rw [moreDigits_cons hv, Nat.mul_zero, Nat.zero_add] at hvalue
    rw [numeral, hv]
    exact hvalue

theorem ascii_of_lt {c : Char} (h : c.toNat < 127) : ascii c = c := if_pos h

theorem map_ascii {s : Line} (h : ∀ c ∈ s, c.toNat < 127) : s.map ascii = s :=
  (List.map_congr_left fun c hc => ascii_of_lt (h c hc)).trans (List.map_id s)

theorem digit_lt {base v : ℕ} {c : Char} (h : digit base c = some v) : c.toNat < 127 := by
  by_contra hge
  have hnone : digitValue c = none := by
    simp only [digitValue]
    rw [if_neg (by omega), if_neg (by omega), if_neg (by omega)]
  rw [digit, hnone] at h
  exact absurd h.symm (Option.some_ne_none v)

/-- The first digit is neither a sign nor a blank, and no last digit is a blank. -/
theorem digit_solid {base v : ℕ} {c : Char} (h : digit base c = some v) :
    isSpace c = false ∧ c ≠ '-' ∧ c ≠ '+' := by
  have hv : digitValue c ≠ none := by
    intro hnone
    rw [digit, hnone] at h
    exact absurd h.symm (Option.some_ne_none v)
  have hspace : isSpace c = true → digitValue c = none := by
    intro hs
    unfold isSpace at hs
    rcases Bool.or_eq_true_iff.mp hs with hs | hs
    · rw [of_decide_eq_true hs]
      rfl
    · have hle : c.toNat ≤ 13 := of_decide_eq_true (Bool.and_eq_true_iff.mp hs).2
      simp only [digitValue]
      rw [if_neg (by omega), if_neg (by omega), if_neg (by omega)]
  refine ⟨?_, ?_, ?_⟩
  · exact Bool.eq_false_iff.mpr fun hs => hv (hspace hs)
  · rintro rfl
    exact hv (by decide)
  · rintro rfl
    exact hv (by decide)

theorem strip_solid {s : Line} (hhead : ∀ c ∈ s.head?, isSpace c = false)
    (hlast : ∀ c ∈ s.getLast?, isSpace c = false) : strip s = s := by
  have hd : s.dropWhile isSpace = s := by
    cases s with
    | nil => rfl
    | cons c s => exact List.dropWhile_cons_of_neg (by simp [hhead c rfl])
  rw [strip, hd]
  cases hr : s.getLast? with
  | none => rw [List.getLast?_eq_none_iff.mp hr]; rfl
  | some c =>
    obtain ⟨init, rfl⟩ := List.getLast?_eq_some_iff.mp hr
    exact List.rdropWhile_concat_neg _ _ _ (by simp [hlast c hr])

/-- A number is read back, if its digits are after a prefix that the base takes. -/
theorem int_signed {pre : Line} {base : ℕ} (hb : 1 < base) (hb' : base ≤ 16)
    (hpre : ∀ c ∈ pre.head?, isSpace c = false ∧ c ≠ '-' ∧ c ≠ '+') (hascii : ∀ c ∈ pre, c.toNat < 127)
    (hmag : ∀ n, magnitude base (pre ++ Nat.toDigits base n) = some n) (z : ℤ) :
    int base (signed pre base z) = some z := by
  have hdigits := (digits_toDigits hb hb' z.natAbs).1
  -- what is after the sign starts with neither sign nor blank
  have hhead : ∀ c ∈ (pre ++ Nat.toDigits base z.natAbs).head?, isSpace c = false ∧ c ≠ '-' ∧ c ≠ '+' := by
    intro c hc
    cases hp : pre with
    | nil =>
      rw [hp, List.nil_append] at hc
      obtain ⟨v, hv⟩ := hdigits c (List.mem_of_mem_head? hc)
      exact digit_solid hv
    | cons d p =>
      rw [hp] at hc
      exact hpre c (by rw [hp]; exact hc)
  have hlast : ∀ c ∈ (signed pre base z).getLast?, isSpace c = false := by
    intro c hc
    rw [signed, ← List.append_assoc, List.getLast?_append_of_ne_nil _ Nat.toDigits_ne_nil] at hc
    obtain ⟨v, hv⟩ := hdigits c (List.mem_of_getLast? hc)
    exact (digit_solid hv).1
  have hstrip : strip (signed pre base z) = signed pre base z := by
    refine strip_solid (fun c hc => ?_) hlast
    unfold signed at hc
    split at hc
    · obtain rfl : '-' = c := Option.some.inj hc
      decide
    · exact (hhead c hc).1
  have hmap : (signed pre base z).map ascii = signed pre base z := by
    refine map_ascii fun c hc => ?_
    rcases List.mem_append.mp hc with hc | hc
    · split at hc
      · rw [List.mem_singleton.mp hc]
        decide
      · exact absurd hc List.not_mem_nil
    · rcases List.mem_append.mp hc with hc | hc
      · exact hascii c hc
      · obtain ⟨v, hv⟩ := hdigits c hc
        exact digit_lt hv
  rw [int, hmap, hstrip, signed]
  by_cases hz : z < 0
  · rw [if_pos hz]
    show (magnitude base (pre ++ Nat.toDigits base z.natAbs)).map _ = _
    have hval : -(z.natAbs : ℤ) = z := by omega
    rw [hmag]
    exact congrArg some hval
  · rw [if_neg hz, List.nil_append]
    have hval : (z.natAbs : ℤ) = z := by omega
    split
    · rename_i r hr
      exact absurd rfl (hhead '-' (by rw [hr]; rfl)).2.1
    · rename_i r hr
      exact absurd rfl (hhead '+' (by rw [hr]; rfl)).2.2
    · rw [hmag]
      exact congrArg some hval

/-- `str` writes what `int` reads. -/
theorem int_str (z : ℤ) : int 10 (str z) = some z := by
  refine int_signed (by decide) (by decide) (fun c hc => absurd hc.symm (by simp))
    (fun c hc => absurd hc List.not_mem_nil) (fun n => ?_) z
  rw [List.nil_append, magnitude]
  have hnum : numeral 10 (Nat.toDigits 10 n) = some n := numeral_toDigits (by decide) (by decide) n
  split
  · rename_i b r h
    have hb : b ≠ 10 := by
      unfold basePrefix at h
      split at h
      · split at h
        · rw [← (Prod.mk.inj (Option.some.inj h)).1]; decide
        · split at h
          · rw [← (Prod.mk.inj (Option.some.inj h)).1]; decide
          · split at h
            · rw [← (Prod.mk.inj (Option.some.inj h)).1]; decide
            · exact absurd h.symm (Option.some_ne_none _)
      · exact absurd h.symm (Option.some_ne_none _)
    rw [if_neg (by omega), hnum]
  · rw [if_neg (by decide), hnum]

/-- `hex` writes what `int` reads in base 16. -/
theorem int_hex (z : ℤ) : int 16 (hex z) = some z := by
  refine int_signed (by decide) (by decide) (fun c hc => ?_) (by decide) (fun n => ?_) z
  · obtain rfl : '0' = c := Option.some.inj hc
    decide
  · have hnum : numeral 16 (Nat.toDigits 16 n) = some n := numeral_toDigits (by decide) (by decide) n
    have hpre : basePrefix (['0', 'x'] ++ Nat.toDigits 16 n) = some (16, Nat.toDigits 16 n) := by
      simp [basePrefix]
    rw [magnitude, hpre]
    show (if (16 : ℕ) = 0 ∨ (16 : ℕ) = 16 then _ else _) = _
    rw [if_pos (.inr rfl), if_neg, hnum]
    intro hh
    have hdigits : ∀ c ∈ Nat.toDigits 16 n, ∃ v, digit 16 c = some v :=
      (digits_toDigits (by decide) (by decide) n).1
    obtain ⟨v, hv⟩ := hdigits '_' (List.mem_of_mem_head? hh)
    exact digit_ne_underscore hv rfl

end HassOS.Framework.Python
