import Mathlib.Data.List.Basic
import Mathlib.Data.Nat.Notation
import Mathlib.Logic.Function.Basic

/-!
# Buffers and the strings in them

A buffer keeps the offsets that have been accessed (`touched`), so that to stay
within its size is a property of the buffer left (`Within`). `At` says which
bytes stand from an offset on, and `cstring` reads a string up to its NUL.
-/

namespace HassOS.Framework

abbrev Bytes := List UInt8

structure Buffer where
  bytes : ℕ → UInt8
  touched : List ℕ

namespace Buffer

/-- `n` bytes from an offset on are accessed. -/
def touch (b : Buffer) (i n : ℕ) : Buffer := { b with touched := List.range' i n ++ b.touched }

/-- `buf[i] = c` -/
def write (b : Buffer) (i : ℕ) (c : UInt8) : Buffer :=
  { b.touch i 1 with bytes := Function.update b.bytes i c }

/-- The bytes `l` are put into the buffer, from an offset on. -/
def fill (b : Buffer) (i : ℕ) : Bytes → Buffer
  | [] => b
  | c :: l => (b.write i c).fill (i + 1) l

/-- The string that starts at an offset. -/
def cstring : ℕ → Buffer → ℕ → Option (Bytes × Buffer)
  | 0, _, _ => none
  | fuel + 1, b, i =>
    if b.bytes i = 0 then some ([], b.touch i 1)
    else (cstring fuel (b.touch i 1) (i + 1)).map fun r => (b.bytes i :: r.1, r.2)

/-- The bytes `l` stand in the buffer, from an offset on. -/
def At (b : Buffer) (i : ℕ) : Bytes → Prop
  | [] => True
  | c :: l => b.bytes i = c ∧ b.At (i + 1) l

/-- All accesses are below `n`. -/
def Within (b : Buffer) (n : ℕ) : Prop := ∀ a ∈ b.touched, a < n

section

variable {b : Buffer} {i j n m : ℕ} {c : UInt8} {l : Bytes}

@[simp] theorem bytes_touch : (b.touch i n).bytes = b.bytes := rfl

@[simp] theorem at_nil : b.At i [] := trivial

@[simp] theorem at_cons : b.At i (c :: l) ↔ b.bytes i = c ∧ b.At (i + 1) l := Iff.rfl

theorem at_congr {b' : Buffer} (h : ∀ j, i ≤ j → j < i + l.length → b'.bytes j = b.bytes j) :
    b'.At i l ↔ b.At i l := by
  induction l generalizing i with
  | nil => rfl
  | cons c l ih =>
    rw [List.length_cons] at h
    rw [at_cons, at_cons, h i (by omega) (by omega), ih fun j hj hl => h j (by omega) (by omega)]

theorem at_append {m : Bytes} : b.At i (l ++ m) ↔ b.At i l ∧ b.At (i + l.length) m := by
  induction l generalizing i with
  | nil => simp
  | cons c l ih =>
    rw [List.cons_append, at_cons, at_cons, ih, List.length_cons, and_assoc,
      show i + 1 + l.length = i + (l.length + 1) by omega]

@[simp] theorem at_touch : (b.touch j n).At i l ↔ b.At i l := at_congr fun _ _ _ => rfl

theorem bytes_write_ne (h : j ≠ i) : (b.write i c).bytes j = b.bytes j := Function.update_of_ne h _ _

@[simp] theorem bytes_write_self : (b.write i c).bytes i = c := Function.update_self _ _ _

/-- What stands elsewhere stays. -/
theorem at_write (h : j < i ∨ i + l.length ≤ j) : (b.write j c).At i l ↔ b.At i l :=
  at_congr fun k hk hl => bytes_write_ne (by omega)

theorem bytes_fill_ne (h : j < i ∨ i + l.length ≤ j) : (b.fill i l).bytes j = b.bytes j := by
  induction l generalizing b i with
  | nil => rfl
  | cons c l ih =>
    rw [List.length_cons] at h
    rw [fill, ih (by omega), bytes_write_ne (by omega)]

theorem at_fill_of_disjoint {m : Bytes} (h : i + m.length ≤ j ∨ j + l.length ≤ i) :
    (b.fill j l).At i m ↔ b.At i m := at_congr fun k hk hl => bytes_fill_ne (by omega)

theorem at_fill : (b.fill i l).At i l := by
  induction l generalizing b i with
  | nil => trivial
  | cons c l ih =>
    refine ⟨?_, ih⟩
    rw [fill, bytes_fill_ne (by omega), bytes_write_self]

@[simp] theorem within_touch : (b.touch i n).Within m ↔ (n = 0 ∨ i + n ≤ m) ∧ b.Within m := by
  simp only [Within, touch, List.mem_append, List.mem_range'_1, or_imp, forall_and]
  refine and_congr_left fun _ => ⟨fun h => ?_, fun h a ha => by omega⟩
  by_cases hn : n = 0
  · exact .inl hn
  · have := h (i + (n - 1)) (by omega)
    omega

@[simp] theorem within_write : (b.write i c).Within m ↔ i < m ∧ b.Within m := by
  show (b.touch i 1).Within m ↔ _
  rw [within_touch]
  exact and_congr_left fun _ => by omega

theorem within_fill (hb : b.Within m) (h : i + l.length ≤ m) : (b.fill i l).Within m := by
  induction l generalizing b i with
  | nil => exact hb
  | cons c l ih =>
    rw [List.length_cons] at h
    exact ih (within_write.mpr ⟨by omega, hb⟩) (by omega)

/-- The string `l`, once its end is cut. -/
theorem at_cut {b' : Buffer} (h : b.At i l) (hb : b'.bytes = Function.update b.bytes (i + l.length) 0) :
    b'.At i (l ++ [0]) := by
  refine at_append.mpr ⟨(at_congr fun j hj hl => ?_).mpr h, ?_, trivial⟩
  · rw [hb, Function.update_of_ne (by omega)]
  · rw [hb, Function.update_self]

/-- A string that stands in the buffer is read, up to its end. -/
theorem cstring_spec (hl : 0 ∉ l) (hat : b.At i (l ++ [0])) (hb : b.Within m) (hm : i + l.length < m) :
    ∃ b' : Buffer, (∀ fuel > l.length, cstring fuel b i = some (l, b')) ∧ b'.Within m := by
  induction l generalizing b i with
  | nil =>
    have h0 : b.bytes i = 0 := hat.1
    refine ⟨b.touch i 1, fun fuel hfuel => ?_, within_touch.mpr ⟨.inr hm, hb⟩⟩
    obtain ⟨fuel, rfl⟩ : ∃ f, fuel = f + 1 := ⟨fuel - 1, by omega⟩
    rw [cstring, if_pos h0]
  | cons c l ih =>
    rw [List.length_cons] at hm ⊢
    rw [List.mem_cons, not_or] at hl
    obtain ⟨hc, hat⟩ := hat
    have hb1 : (b.touch i 1).Within m := within_touch.mpr ⟨.inr (by omega), hb⟩
    obtain ⟨b', hb', hw⟩ := ih hl.2 (at_touch.mpr hat) hb1 (by omega)
    refine ⟨b', fun fuel hfuel => ?_, hw⟩
    obtain ⟨fuel, rfl⟩ : ∃ f, fuel = f + 1 := ⟨fuel - 1, by omega⟩
    rw [cstring, if_neg (by rw [hc]; exact Ne.symm hl.1), hb' fuel (by omega), hc]
    rfl

end

end Buffer

end HassOS.Framework
