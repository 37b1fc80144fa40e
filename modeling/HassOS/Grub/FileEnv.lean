import HassOS.Framework.Buffer
import HassOS.Framework.Text

/-!
# The command line read from a file (`file_env` and `fileenv`)

GRUB's `file_env` reads the file in as many parts as the file system gives it
(`reads`), looks through each, and leaves the variable alone if a read fails.
U-Boot's `fileenv` has the whole file loaded and looks through it at once. Both
cut the file at its first byte that is not printable, so they set the variable
alike (`fileEnv_agree`), whatever the parts, and stay within the size of the file
and one byte for the NUL.
-/

namespace HassOS.FileEnv

open Framework

/-- The bytes that are printable, of which NUL is none. -/
structure Printable where
  test : UInt8 → Bool
  nul : test 0 = false

/-- `isprint`, for ASCII -/
def asciiIsprint : Printable := ⟨fun c => 32 ≤ c && c ≤ 126, rfl⟩

abbrev Vars := Line → Option Bytes

/-- The variables and the buffer that a command leaves. -/
structure Result where
  vars : Vars
  buf : Buffer

/-! ## GRUB -/

/-- A file, and what each read of it returns, unless it asks for less. -/
structure File where
  content : Bytes
  reads : ℕ → ℤ

/-- The variables of `grub_cmd_file_env`, and the position in the file. -/
structure State where
  buf : Buffer
  offset : ℕ
  size : ℕ
  pos : ℕ

/-- `grub_file_read (file, buf + offset, size)`, for the `k`-th time. -/
def grubFileRead (f : File) (k : ℕ) (s : State) : ℤ × State :=
  let ret := min (f.reads k) s.size
  (ret, { s with
    buf := (s.buf.touch s.offset s.size).fill s.offset ((f.content.drop s.pos).take ret.toNat)
    pos := s.pos + ret.toNat })

/-- The inner loop. -/
def scan (isprint : Printable) : ℕ → State → State
  | 0, s => s
  | ret + 1, s =>
    if isprint.test (s.buf.bytes s.offset) then
      scan isprint ret
        { s with buf := s.buf.touch s.offset 1, size := s.size - 1, offset := s.offset + 1 }
    else { s with buf := (s.buf.touch s.offset 1).write s.offset 0, size := 0 }

/-- The outer loop, and whether it ended without `goto fail`. -/
def readLoop (isprint : Printable) (f : File) : ℕ → ℕ → State → Option (Bool × State)
  | 0, _, _ => none
  | fuel + 1, k, s =>
    if s.size > 0 then
      let (ret, s) := grubFileRead f k s
      if ret ≤ 0 then some (false, s) else readLoop isprint f fuel (k + 1) (scan isprint ret.toNat s)
    else some (true, s)

/-- `grub_cmd_file_env`, for a buffer that holds anything at first. -/
def grubCmdFileEnv (isprint : Printable) (f : File) (memory : ℕ → UInt8) (name : Line) (vars : Vars)
    (fuel : ℕ) : Option Result := do
  let size := f.content.length
  let buf := Buffer.write ⟨memory, []⟩ size 0
  let (ok, s) ← readLoop isprint f fuel 0 ⟨buf, 0, size, 0⟩
  if ok then
    let (value, buf) ← Buffer.cstring fuel s.buf 0
    some ⟨Function.update vars name (some value), buf⟩
  else some ⟨vars, s.buf⟩

/-! ## U-Boot -/

/-- The loop that prepares the string. -/
def terminate (isprint : Printable) : ℕ → Buffer → ℕ → Option Buffer
  | 0, _, _ => none
  | fuel + 1, b, s =>
    if b.bytes s = 0 then some (b.touch s 1)
    else if isprint.test (b.bytes s) then terminate isprint fuel (b.touch s 1) (s + 1)
    else terminate isprint fuel ((b.touch s 1).write s 0) s

/-- `env_set`, to which an empty value is none. -/
def envSet (vars : Vars) (name : Line) (value : Bytes) : Vars :=
  Function.update vars name (if value = [] then none else some value)

/-- `do_fileenv`: `fatload` puts the file into memory, or fails. It also sets
`filesize` and `fileaddr`, which is left out. -/
def doFileenv (isprint : Printable) (load : Option Bytes) (memory : ℕ → UInt8) (name : Line)
    (vars : Vars) (fuel : ℕ) : Option Result :=
  match load with
  | none => some ⟨vars, ⟨memory, []⟩⟩
  | some content => do
    let size := content.length
    let buf ← terminate isprint fuel ((Buffer.fill ⟨memory, []⟩ 0 content).write size 0) 0
    let (value, buf) ← Buffer.cstring fuel buf 0
    some ⟨envSet vars name value, buf⟩

/-! ## What they are to read -/

/-- The longest printable part at the start of the file. -/
def value (isprint : Printable) (content : Bytes) : Bytes := content.takeWhile isprint.test

/-- How much of the file the first `k` reads deliver. -/
def delivered (f : File) : ℕ → ℕ
  | 0 => 0
  | k + 1 => delivered f k + min (f.reads k).toNat (f.content.length - delivered f k)

/-- The first `k` reads deliver all that the value depends on: the byte after
it, or the whole file. -/
def Complete (isprint : Printable) (f : File) (k : ℕ) : Prop :=
  (value isprint f.content).length < delivered f k ∨ delivered f k = f.content.length

/-- A read fails before. -/
def ReadFails (isprint : Printable) (f : File) : Prop :=
  ∃ k, f.reads k ≤ 0 ∧ ¬ Complete isprint f k

section

variable {isprint : Printable} {content w : Bytes}

theorem envSet_self {vars : Vars} {name : Line} : (envSet vars name w name).getD [] = w := by
  rw [envSet, Function.update_self]
  split
  · rename_i hw
    rw [hw, Option.getD_none]
  · rfl

theorem not_mem_of_printable (hw : ∀ c ∈ w, isprint.test c = true) : 0 ∉ w := by
  intro h
  have h0 := hw 0 h
  rw [isprint.nul] at h0
  exact absurd h0 (by simp)

theorem printable_value : ∀ c ∈ value isprint content, isprint.test c = true :=
  fun _ h => List.mem_takeWhile_imp h

theorem value_append (hw : ∀ c ∈ w, isprint.test c = true) (l : Bytes) :
    value isprint (w ++ l) = w ++ value isprint l := List.takeWhile_append_of_pos hw

theorem value_cons_of_not {c : UInt8} (hc : isprint.test c = false) (l : Bytes) :
    value isprint (c :: l) = [] := List.takeWhile_cons_of_neg (by simp [hc])

/-- With its NUL, the file has a byte that is not printable. -/
theorem exists_stop (isprint : Printable) (content : Bytes) : ∃ c l,
    content ++ [0] = value isprint content ++ c :: l ∧ isprint.test c = false := by
  induction content with
  | nil => exact ⟨0, [], rfl, isprint.nul⟩
  | cons c content ih =>
    cases h : isprint.test c with
    | true =>
      obtain ⟨d, l, hl, hd⟩ := ih
      refine ⟨d, l, ?_, hd⟩
      rw [value, List.takeWhile_cons_of_pos h, List.cons_append, hl]
      rfl
    | false =>
      refine ⟨c, content ++ [0], ?_, h⟩
      rw [value_cons_of_not h]
      rfl

end

/-! ## U-Boot's loop -/

section

variable {isprint : Printable} {b : Buffer} {i n : ℕ} {w l : Bytes} {c : UInt8}

theorem terminate_nul (h : b.bytes i = 0) {fuel : ℕ} (hfuel : fuel > 0) :
    terminate isprint fuel b i = some (b.touch i 1) := by
  obtain ⟨fuel, rfl⟩ : ∃ f, fuel = f + 1 := ⟨fuel - 1, by omega⟩
  rw [terminate, if_pos h]

/-- The byte that is put in place of one that is not printable ends the loop. -/
theorem terminate_cut (h : b.bytes i ≠ 0) (hc : isprint.test (b.bytes i) = false) {fuel : ℕ}
    (hfuel : fuel > 1) :
    terminate isprint fuel b i = some (((b.touch i 1).write i 0).touch i 1) := by
  obtain ⟨fuel, rfl⟩ : ∃ f, fuel = f + 1 := ⟨fuel - 1, by omega⟩
  rw [terminate, if_neg h, if_neg (by simp [hc]), terminate_nul Buffer.bytes_write_self (by omega)]

theorem terminate_spec (hw : ∀ c ∈ w, isprint.test c = true) (hc : isprint.test c = false)
    (hat : b.At i (w ++ c :: l)) (hb : b.Within n) (hn : i + w.length < n) :
    ∃ b' : Buffer, (∀ fuel > w.length + 1, terminate isprint fuel b i = some b') ∧
      b'.bytes = Function.update b.bytes (i + w.length) 0 ∧ b'.Within n := by
  induction w generalizing b i with
  | nil =>
    have hi : b.bytes i = c := hat.1
    have hn : i < n := hn
    by_cases h0 : b.bytes i = 0
    · refine ⟨b.touch i 1, fun fuel hfuel => terminate_nul h0 (by omega), ?_, by simp [hb]; omega⟩
      rw [List.length_nil, Nat.add_zero, ← h0, Function.update_eq_self]
      rfl
    · have hbad : isprint.test (b.bytes i) = false := by rw [hi, hc]
      exact ⟨_, fun fuel hfuel => terminate_cut h0 hbad hfuel, rfl, by simp [hb]; omega⟩
  | cons d w ih =>
    obtain ⟨hd, hw⟩ := List.forall_mem_cons.mp hw
    obtain ⟨hi, hat⟩ := hat
    rw [List.length_cons] at hn ⊢
    have hb1 : (b.touch i 1).Within n := Buffer.within_touch.mpr ⟨.inr (by omega), hb⟩
    obtain ⟨b', hb', hbytes, hwithin⟩ := ih hw (Buffer.at_touch.mpr hat) hb1 (by omega)
    refine ⟨b', fun fuel hfuel => ?_, ?_, hwithin⟩
    · obtain ⟨fuel, rfl⟩ : ∃ f, fuel = f + 1 := ⟨fuel - 1, by omega⟩
      have hne : b.bytes i ≠ 0 := by
        intro h0
        rw [hi] at h0
        rw [h0, isprint.nul] at hd
        exact absurd hd (by simp)
      rw [terminate, if_neg hne, if_pos (by rw [hi, hd]), hb' fuel (by omega)]
    · rw [hbytes, show i + 1 + w.length = i + (w.length + 1) by omega]
      rfl

/-- `fileenv` sets the variable to the value of the file. -/
theorem doFileenv_spec (isprint : Printable) (content : Bytes) (memory : ℕ → UInt8) (name : Line)
    (vars : Vars) : ∃ b : Buffer, b.Within (content.length + 1) ∧ ∀ fuel > content.length + 1,
      doFileenv isprint (some content) memory name vars fuel =
        some ⟨envSet vars name (value isprint content), b⟩ := by
  obtain ⟨c, l, hl, hc⟩ := exists_stop isprint content
  have hlen : (value isprint content).length ≤ content.length := (List.takeWhile_prefix _).length_le
  have hwithin : (Buffer.write (Buffer.fill ⟨memory, []⟩ 0 content) content.length 0).Within
      (content.length + 1) :=
    Buffer.within_write.mpr ⟨by omega, Buffer.within_fill (by simp [Buffer.Within]) (by omega)⟩
  have hat : (Buffer.write (Buffer.fill ⟨memory, []⟩ 0 content) content.length 0).At 0
      (value isprint content ++ c :: l) := by
    rw [← hl, Buffer.at_append, Buffer.at_write (by omega)]
    exact ⟨Buffer.at_fill, by simp, trivial⟩
  obtain ⟨b, hb, hbytes, hw⟩ := terminate_spec printable_value hc hat hwithin (by omega)
  have hval : b.At 0 (value isprint content ++ [0]) :=
    Buffer.at_cut (Buffer.at_append.mp hat).1 hbytes
  obtain ⟨b', hb', hw'⟩ := Buffer.cstring_spec (not_mem_of_printable printable_value) hval hw (by omega)
  refine ⟨b', hw', fun fuel hfuel => ?_⟩
  simp only [doFileenv, hb fuel (by omega), hb' fuel (by omega), Option.bind_eq_bind, Option.bind_some]

end

/-! ## GRUB's loops -/

section

variable {isprint : Printable} {f : File} {k k' : ℕ}

theorem delivered_le (f : File) (k : ℕ) : delivered f k ≤ f.content.length := by
  induction k with
  | zero => exact Nat.zero_le _
  | succ k ih => simp only [delivered]; omega

theorem delivered_mono (h : k ≤ k') : delivered f k ≤ delivered f k' := by
  induction h with
  | refl => exact Nat.le_refl _
  | step _ ih => exact ih.trans (Nat.le_add_right _ _)

theorem Complete.mono (hc : Complete isprint f k) (h : k ≤ k') : Complete isprint f k' := by
  have h1 := delivered_mono (f := f) h
  have h2 := delivered_le f k'
  unfold Complete at hc ⊢
  omega

/-- Once all is delivered, no read can fail that matters. -/
theorem not_readFails (hc : Complete isprint f k) (hk : ∀ j < k, 0 < f.reads j) :
    ¬ ReadFails isprint f := by
  intro h
  obtain ⟨j, hj, hn⟩ := h
  by_cases hjk : j < k
  · have := hk j hjk
    omega
  · exact hn (hc.mono (by omega))

variable {buf : Buffer} {offset n : ℕ} {w l : Bytes}

/-- Printable bytes are passed over. -/
theorem scan_printable (ret size pos : ℕ) (hw : ∀ c ∈ w, isprint.test c = true)
    (hat : buf.At offset w) (hb : buf.Within n) (hn : offset + w.length ≤ n) :
    ∃ buf' : Buffer, buf'.bytes = buf.bytes ∧ buf'.Within n ∧
      scan isprint (w.length + ret) ⟨buf, offset, size, pos⟩ =
        scan isprint ret ⟨buf', offset + w.length, size - w.length, pos⟩ := by
  induction w generalizing buf offset size with
  | nil => exact ⟨buf, rfl, hb, by simp⟩
  | cons c w ih =>
    obtain ⟨hc, hw⟩ := List.forall_mem_cons.mp hw
    obtain ⟨hi, hat⟩ := hat
    rw [List.length_cons] at hn ⊢
    have hb1 : (buf.touch offset 1).Within n := Buffer.within_touch.mpr ⟨.inr (by omega), hb⟩
    obtain ⟨buf', hbytes, hwithin, hscan⟩ :=
      ih (size - 1) hw (Buffer.at_touch.mpr hat) hb1 (by omega)
    refine ⟨buf', hbytes, hwithin, ?_⟩
    rw [show w.length + 1 + ret = w.length + ret + 1 by omega, scan, if_pos (by rw [hi, hc]), hscan,
      show offset + 1 + w.length = offset + (w.length + 1) by omega,
      show size - 1 - w.length = size - (w.length + 1) by omega]

/-- The first byte that is not printable is cut, and is the last to be read. -/
theorem scan_cut (size pos : ℕ) {c : UInt8} (hw : ∀ c ∈ w, isprint.test c = true)
    (hc : isprint.test c = false) (hat : buf.At offset (w ++ c :: l)) (hb : buf.Within n)
    (hn : offset + w.length < n) :
    ∃ buf' : Buffer, buf'.bytes = Function.update buf.bytes (offset + w.length) 0 ∧ buf'.Within n ∧
      scan isprint (w ++ c :: l).length ⟨buf, offset, size, pos⟩ =
        ⟨buf', offset + w.length, 0, pos⟩ := by
  obtain ⟨hatw, hi, -⟩ := Buffer.at_append.mp hat
  obtain ⟨b, hbytes, hwithin, hscan⟩ :=
    scan_printable (l.length + 1) size pos hw hatw hb (by omega)
  refine ⟨(b.touch (offset + w.length) 1).write (offset + w.length) 0, by rw [← hbytes]; rfl,
    by simp [hwithin]; omega, ?_⟩
  rw [List.length_append, List.length_cons, hscan, scan, if_neg (by rw [hbytes, hi]; simp [hc])]

/-- A part of the file is printable, or has a first byte that is not. -/
theorem value_cases (isprint : Printable) (l : Bytes) : (∀ c ∈ l, isprint.test c = true) ∨
    ∃ c m, l = value isprint l ++ c :: m ∧ isprint.test c = false := by
  induction l with
  | nil => exact .inl (by simp)
  | cons c l ih =>
    cases h : isprint.test c with
    | true =>
      rw [value, List.takeWhile_cons_of_pos h, List.forall_mem_cons]
      refine ih.imp (fun hl => ⟨h, hl⟩) fun hl => ?_
      obtain ⟨d, m, hm, hd⟩ := hl
      exact ⟨d, m, congrArg (c :: ·) hm, hd⟩
    | false =>
      rw [value_cons_of_not h]
      exact .inr ⟨c, l, rfl, h⟩

theorem readLoop_end {s : State} (h : s.size = 0) {fuel : ℕ} (hfuel : fuel > 0) :
    readLoop isprint f fuel k s = some (true, s) := by
  obtain ⟨fuel, rfl⟩ : ∃ f, fuel = f + 1 := ⟨fuel - 1, by omega⟩
  rw [readLoop, if_neg (by omega)]

theorem readLoop_next {s s' : State} {m : ℕ} (hs : s.size > 0) (hm : 0 < m)
    (hread : grubFileRead f k s = ((m : ℤ), s')) (fuel : ℕ) :
    readLoop isprint f (fuel + 1) k s = readLoop isprint f fuel (k + 1) (scan isprint m s') := by
  rw [readLoop, if_pos hs, hread]
  exact if_neg (by omega)

/-- What the loop comes to: whether it ended without an error, and the state. -/
structure Ends (isprint : Printable) (f : File) (ok : Bool) (s : State) : Prop where
  within : s.buf.Within (f.content.length + 1)
  fails : ok = false ↔ ReadFails isprint f
  value : ok = true → s.buf.At 0 (value isprint f.content ++ [0])

/-- Where the loop is before its `k`-th read: `w` was read and is printable, and
`l` is left. -/
structure Reading (isprint : Printable) (f : File) (k : ℕ) (w l : Bytes) (buf : Buffer) : Prop where
  content : f.content = w ++ l
  printable : ∀ c ∈ w, isprint.test c = true
  read : buf.At 0 w
  nul : buf.bytes f.content.length = 0
  within : buf.Within (f.content.length + 1)
  delivered : delivered f k = w.length
  reads : ∀ j < k, 0 < f.reads j

namespace Reading

theorem length (h : Reading isprint f k w l buf) : f.content.length = w.length + l.length := by
  rw [h.content, List.length_append]

/-- The whole file has been read. -/
theorem ends (h : Reading isprint f k w [] buf) : Ends isprint f true ⟨buf, w.length, 0, w.length⟩ := by
  have hf : f.content = w := by rw [h.content, List.append_nil]
  have hc : Complete isprint f k := .inr (by rw [h.delivered, hf])
  refine ⟨h.within, by simp [not_readFails hc h.reads], fun _ => ?_⟩
  have hval : FileEnv.value isprint f.content = w := by
    rw [hf]
    exact List.takeWhile_eq_self_iff.mpr h.printable
  rw [hval]
  refine Buffer.at_append.mpr ⟨h.read, ?_, trivial⟩
  rw [Nat.zero_add, ← hf]
  exact h.nul

/-- The read may access all that is left of the buffer. -/
theorem within_touch (h : Reading isprint f k w l buf) :
    (buf.touch w.length l.length).Within (f.content.length + 1) := by
  have hlen := h.length
  exact Buffer.within_touch.mpr ⟨.inr (by omega), h.within⟩

/-- A read fails, before the end of the value is known. -/
theorem fails (h : Reading isprint f k w l buf) (hl : 0 < l.length) (hread : f.reads k ≤ 0) :
    Ends isprint f false (grubFileRead f k ⟨buf, w.length, l.length, w.length⟩).2 := by
  have hlen := h.length
  have hval : (FileEnv.value isprint f.content).length ≥ w.length := by
    rw [h.content, value_append h.printable, List.length_append]
    omega
  have hdel := h.delivered
  have hfail : ReadFails isprint f := ⟨k, hread, by unfold Complete; omega⟩
  have hret : (min (f.reads k) l.length).toNat = 0 := by omega
  refine ⟨?_, by simp [hfail], by simp⟩
  simp only [grubFileRead, hret, List.take_zero]
  exact h.within_touch

variable {m : ℕ}

/-- A read that delivers some of what is left. -/
theorem grubFileRead_eq (h : Reading isprint f k w l buf) (hl : 0 < l.length) (hread : 0 < f.reads k) :
    ∃ m : ℕ, 0 < m ∧ m ≤ l.length ∧ FileEnv.delivered f (k + 1) = w.length + m ∧
      grubFileRead f k ⟨buf, w.length, l.length, w.length⟩ = ((m : ℤ),
        ⟨(buf.touch w.length l.length).fill w.length (l.take m), w.length, l.length, w.length + m⟩) := by
  have hlen := h.length
  refine ⟨min (f.reads k).toNat l.length, by omega, by omega, ?_, ?_⟩
  · rw [FileEnv.delivered, h.delivered, hlen]
    omega
  · have hret : min (f.reads k) l.length = (min (f.reads k).toNat l.length : ℕ) := by omega
    simp only [grubFileRead, hret, Int.toNat_natCast, h.content, List.drop_left]

theorem reads_succ (h : Reading isprint f k w l buf) (hread : 0 < f.reads k) :
    ∀ j < k + 1, 0 < f.reads j := fun j hj => by
  by_cases hjk : j < k
  · exact h.reads j hjk
  · obtain rfl : j = k := by omega
    exact hread

/-- The buffer with the part that was read. -/
theorem filled (h : Reading isprint f k w l buf) (hm : m ≤ l.length) :
    let buf' := (buf.touch w.length l.length).fill w.length (l.take m)
    buf'.At 0 w ∧ buf'.At w.length (l.take m) ∧ buf'.bytes f.content.length = 0 ∧
      buf'.Within (f.content.length + 1) := by
  have hlen := h.length
  have hchunk : (l.take m).length = m := List.length_take_of_le hm
  refine ⟨(Buffer.at_fill_of_disjoint (.inl (by omega))).mpr (Buffer.at_touch.mpr h.read),
    Buffer.at_fill, ?_, Buffer.within_fill h.within_touch (by omega)⟩
  rw [Buffer.bytes_fill_ne (by omega), Buffer.bytes_touch, h.nul]

/-- All of the part is printable: the loop goes on. -/
theorem scan_on (h : Reading isprint f k w l buf) (hread : 0 < f.reads k) (hm : m ≤ l.length)
    (hdel : FileEnv.delivered f (k + 1) = w.length + m)
    (hall : ∀ c ∈ l.take m, isprint.test c = true) : ∃ buf' : Buffer,
      Reading isprint f (k + 1) (w ++ l.take m) (l.drop m) buf' ∧
      scan isprint m ⟨(buf.touch w.length l.length).fill w.length (l.take m), w.length, l.length,
        w.length + m⟩ = ⟨buf', (w ++ l.take m).length, (l.drop m).length, (w ++ l.take m).length⟩ := by
  have hlen := h.length
  have hchunk : (l.take m).length = m := List.length_take_of_le hm
  obtain ⟨hw, hl, hnul, hwithin⟩ := h.filled hm
  obtain ⟨b, hbytes, hb, hscan⟩ := scan_printable 0 l.length (w.length + m) hall hl hwithin (by omega)
  rw [hchunk, Nat.add_zero, scan] at hscan
  refine ⟨b, ⟨?_, List.forall_mem_append.mpr ⟨h.printable, hall⟩, ?_, by rw [hbytes, hnul], hb, ?_,
    h.reads_succ hread⟩, ?_⟩
  · rw [List.append_assoc, List.take_append_drop, h.content]
  · refine (Buffer.at_congr fun j _ _ => by rw [hbytes]).mpr (Buffer.at_append.mpr ⟨hw, ?_⟩)
    rwa [Nat.zero_add]
  · rw [hdel, List.length_append, hchunk]
  · rw [hscan, List.length_append, hchunk, List.length_drop]

/-- The part has the end of the value: the size is set so that the loop ends. -/
theorem scan_off (h : Reading isprint f k w l buf) (hread : 0 < f.reads k) (hm : m ≤ l.length)
    (hdel : FileEnv.delivered f (k + 1) = w.length + m) {c : UInt8} {r : Bytes}
    (hr : l.take m = FileEnv.value isprint (l.take m) ++ c :: r) (hc : isprint.test c = false) :
    ∃ s : State, s.size = 0 ∧ Ends isprint f true s ∧
      scan isprint m ⟨(buf.touch w.length l.length).fill w.length (l.take m), w.length, l.length,
        w.length + m⟩ = s := by
  have hlen := h.length
  have hchunk : (l.take m).length = m := List.length_take_of_le hm
  obtain ⟨hw, hl, -, hwithin⟩ := h.filled hm
  have hcut : (FileEnv.value isprint (l.take m)).length < m := by
    have := congrArg List.length hr
    rw [hchunk, List.length_append, List.length_cons] at this
    omega
  have hval : FileEnv.value isprint f.content = w ++ FileEnv.value isprint (l.take m) := by
    have hsplit : l = FileEnv.value isprint (l.take m) ++ c :: (r ++ l.drop m) := by
      rw [← List.cons_append, ← List.append_assoc, ← hr, List.take_append_drop]
    rw [h.content, value_append h.printable]
    conv_lhs => rw [hsplit, value_append printable_value, value_cons_of_not hc, List.append_nil]
  have hl' : ((buf.touch w.length l.length).fill w.length (l.take m)).At w.length
      (FileEnv.value isprint (l.take m) ++ c :: r) := by
    rw [← hr]
    exact hl
  obtain ⟨b, hbytes, hb, hscan⟩ := scan_cut l.length (w.length + m)
    printable_value hc hl' hwithin (by omega)
  rw [← hr, hchunk] at hscan
  have hc : Complete isprint f (k + 1) := .inl (by rw [hval, hdel, List.length_append]; omega)
  refine ⟨_, rfl, ⟨hb, by simp [not_readFails hc (h.reads_succ hread)], fun _ => ?_⟩, hscan⟩
  rw [hval]
  refine Buffer.at_cut (Buffer.at_append.mpr ⟨hw, ?_⟩) (by rw [hbytes, List.length_append, Nat.zero_add])
  rw [Nat.zero_add]
  exact (Buffer.at_append.mp hl').1

end Reading

/-- The loop ends, from wherever it is. -/
theorem readLoop_spec (h : Reading isprint f k w l buf) : ∃ ok s, Ends isprint f ok s ∧
    ∀ fuel > l.length,
      readLoop isprint f fuel k ⟨buf, w.length, l.length, w.length⟩ = some (ok, s) := by
  induction hn : l.length using Nat.strong_induction_on generalizing k buf w l with
  | _ n ih =>
    subst hn
    by_cases hl : l = []
    · subst hl
      exact ⟨true, _, h.ends, fun fuel hfuel => readLoop_end rfl hfuel⟩
    have hpos : 0 < l.length := List.length_pos_iff.mpr hl
    by_cases hread : f.reads k ≤ 0
    · refine ⟨false, _, h.fails hpos hread, fun fuel hfuel => ?_⟩
      obtain ⟨fuel, rfl⟩ : ∃ f, fuel = f + 1 := ⟨fuel - 1, by omega⟩
      rw [readLoop, if_pos hpos]
      exact if_pos (show min (f.reads k) l.length ≤ 0 by omega)
    have hread' : 0 < f.reads k := by omega
    obtain ⟨m, hm0, hm, hdel, hgot⟩ := h.grubFileRead_eq hpos hread'
    rcases value_cases isprint (l.take m) with hall | ⟨c, r, hr, hc⟩
    · obtain ⟨b, hb, hscan⟩ := h.scan_on hread' hm hdel hall
      have hrest : (l.drop m).length = l.length - m := List.length_drop
      obtain ⟨ok, s, hends, hloop⟩ := ih (l.drop m).length (by omega) hb rfl
      refine ⟨ok, s, hends, fun fuel hfuel => ?_⟩
      obtain ⟨fuel, rfl⟩ : ∃ f, fuel = f + 1 := ⟨fuel - 1, by omega⟩
      rw [readLoop_next hpos hm0 hgot, hscan]
      exact hloop fuel (by omega)
    · obtain ⟨s, hs, hends, hscan⟩ := h.scan_off hread' hm hdel hr hc
      refine ⟨true, s, hends, fun fuel hfuel => ?_⟩
      obtain ⟨fuel, rfl⟩ : ∃ f, fuel = f + 1 := ⟨fuel - 1, by omega⟩
      rw [readLoop_next hpos hm0 hgot, hscan]
      exact readLoop_end hs (by omega)

/-- `file_env` sets the variable to the value of the file, unless a read fails
before the end of the value is known. -/
theorem grubCmdFileEnv_spec (isprint : Printable) (f : File) (memory : ℕ → UInt8) (name : Line)
    (vars : Vars) : ∃ r : Result,
      (∀ fuel > f.content.length + 1, grubCmdFileEnv isprint f memory name vars fuel = some r) ∧
      r.buf.Within (f.content.length + 1) ∧ (ReadFails isprint f → r.vars = vars) ∧
      (¬ ReadFails isprint f →
        r.vars = Function.update vars name (some (value isprint f.content))) := by
  have hb : (Buffer.write ⟨memory, []⟩ f.content.length 0).Within (f.content.length + 1) :=
    Buffer.within_write.mpr ⟨by omega, by simp [Buffer.Within]⟩
  have hstart : Reading isprint f 0 [] f.content (Buffer.write ⟨memory, []⟩ f.content.length 0) :=
    ⟨rfl, by simp, trivial, Buffer.bytes_write_self, hb, rfl, by omega⟩
  obtain ⟨ok, s, hends, hloop⟩ := readLoop_spec hstart
  cases ok with
  | false =>
    have hfail : ReadFails isprint f := hends.fails.mp rfl
    refine ⟨⟨vars, s.buf⟩, fun fuel hfuel => ?_, hends.within, fun _ => rfl, fun h => absurd hfail h⟩
    have hl := hloop fuel (by omega)
    simp only [List.length_nil] at hl
    simp [grubCmdFileEnv, hl]
  | true =>
    have hlen : (value isprint f.content).length ≤ f.content.length := (List.takeWhile_prefix _).length_le
    have hok : ¬ ReadFails isprint f := by simp [← hends.fails]
    obtain ⟨b, hb, hw⟩ := Buffer.cstring_spec (not_mem_of_printable printable_value) (hends.value rfl)
      hends.within (by omega)
    refine ⟨⟨Function.update vars name (some (value isprint f.content)), b⟩, fun fuel hfuel => ?_, hw,
      fun h => absurd h hok, fun _ => rfl⟩
    have hl := hloop fuel (by omega)
    simp only [List.length_nil] at hl
    simp [grubCmdFileEnv, hl, hb fuel (by omega)]

end

/-- The variables that U-Boot's load of a file sets. -/
def loadVars : List Line := ["filesize".toList, "fileaddr".toList]

/-- With fuel for every byte and the NUL, `fileenv` and `file_env` end and have
set the variable to the longest printable part at the start of the file (an empty
value being none), with no access beyond its size and the NUL. If a read fails
before that part is complete, `file_env` leaves the variable as it was. -/
theorem fileEnv_agree (isprint : Printable) (f : File) (memory memory' : ℕ → UInt8) (name : Line)
    (vars vars' : Vars) : ∃ r r' : Result,
      (∀ fuel > f.content.length + 1,
        doFileenv isprint (some f.content) memory name vars fuel = some r ∧
        grubCmdFileEnv isprint f memory' name vars' fuel = some r') ∧
      (∀ a ∈ r.buf.touched, a < f.content.length + 1) ∧
      (∀ a ∈ r'.buf.touched, a < f.content.length + 1) ∧
      (r.vars name).getD [] = f.content.takeWhile isprint.test ∧
      (¬ ReadFails isprint f → (r'.vars name).getD [] = f.content.takeWhile isprint.test) ∧
      (ReadFails isprint f → r'.vars name = vars' name) ∧
      ∀ other ≠ name, (other ∉ loadVars → r.vars other = vars other) ∧ r'.vars other = vars' other := by
  obtain ⟨b, hb, hrun⟩ := doFileenv_spec isprint f.content memory name vars
  obtain ⟨r', hrun', hb', hfail, hok⟩ := grubCmdFileEnv_spec isprint f memory' name vars'
  refine ⟨_, r', fun fuel hfuel => ⟨hrun fuel hfuel, hrun' fuel hfuel⟩, hb, hb', ?_, ?_, ?_, ?_⟩
  · exact envSet_self
  · intro h
    rw [hok h, Function.update_self]
    rfl
  · intro h
    rw [hfail h]
  · intro other hne
    refine ⟨fun _ => Function.update_of_ne hne _ _, ?_⟩
    by_cases h : ReadFails isprint f
    · rw [hfail h]
    · rw [hok h, Function.update_of_ne hne]

/-- A line break ends the value. -/
example : (doFileenv asciiIsprint (some [97, 61, 49, 10, 98]) (fun _ => 0) "x".toList (fun _ => none) 7).map
    (fun r => r.vars "x".toList) = some (some [97, 61, 49]) := by decide

end HassOS.FileEnv
