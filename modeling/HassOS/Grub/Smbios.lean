import HassOS.Framework.Reads
import Mathlib.Data.Nat.Digits.Defs
import Mathlib.Logic.Relation

/-!
# The SMBIOS scan of the EFI loader (`grub_efi_has_broken_efi_stub_loader`)

Before it starts a kernel, the patched loader looks for the id of a processor
with a broken firmware in the SMBIOS structures. From each structure it goes to
the next by the length byte and then behind the first two NULs (`scan`,
`skipStrings`). Addresses are offsets from the start of the table, which does not
wrap around.

`Next` is the walk from structure to structure as the table means it; `Reached`
are the structures it comes to. The loader reads nothing outside the table, and
then finds the right answer, iff there is an entry point and the table holds what
is read of each of these structures (`scans_right_iff`): the header, the id of a
processor, the strings of another one up to their end. It tests that at the start
of a structure only.
-/

namespace HassOS.Grub

open Framework
open Framework.Reads (byte)

/-- The SMBIOS structures, as an entry point describes them. -/
structure Table where
  /-- The memory from the start of the table on, also behind its end. -/
  memory : ℕ → UInt8
  /-- `table_end`, from the start of the table. -/
  tableEnd : ℕ
  structures : UInt16

/-- `struct grub_smbios_eps3` -/
structure Eps3 where
  table : ℕ → UInt8
  maximumTableLength : UInt32

/-- `struct grub_smbios_eps` -/
structure Eps where
  table : ℕ → UInt8
  tableLength : UInt16
  structures : UInt16

/-- The EFI configuration tables with SMBIOS. -/
structure ConfigurationTables where
  eps3 : Option Eps3
  eps : Option Eps

def smbiosTypeProcessor : UInt8 := 4

def smbiosTypeEndOfTable : UInt8 := 127

/-- D2xxx/N2xxx, D525, AMD GX-212JC (HP t520), Intel i5-2xxx (Macbook Air A1370). -/
def brokenIds : List ℕ := [0xbfebfbff00030661, 0xbfebfbff000106ca, 0x00730f01178bfbff, 0xbfebfbff000206a7]

/-- The processor id at an address, little endian. -/
def idAt (memory : ℕ → UInt8) (ptr : ℕ) : ℕ :=
  Nat.ofDigits 256 ((List.range 8).map fun i => (memory (ptr + i)).toNat)

/-- `grub_get_unaligned64` -/
def getUnaligned64 (memory : ℕ → UInt8) (ptr : ℕ) : Reads ℕ := ⟨idAt memory ptr, (List.range 8).map (ptr + ·)⟩

/-- The table, unless there is no entry point. -/
def ConfigurationTables.table (cs : ConfigurationTables) : Option Table :=
  match cs.eps3 with
  | some eps3 => some ⟨eps3.table, eps3.maximumTableLength.toNat, 0⟩
  | none => cs.eps.map fun eps => ⟨eps.table, eps.tableLength.toNat, eps.structures⟩

namespace Table

variable (t : Table)

/-- `while ((*ptr++ != 0 || *ptr++ != 0) && ptr < table_end);`, with `ptr` at its end. -/
def skipStrings (ptr : ℕ) : Reads {next // ptr < next} := do
  if (← byte t.memory ptr) ≠ 0 then
    if ptr + 1 < t.tableEnd then
      let ⟨next, h⟩ ← skipStrings (ptr + 1)
      return ⟨next, by omega⟩
    else return ⟨ptr + 1, by omega⟩
  else if (← byte t.memory (ptr + 1)) ≠ 0 then
    if ptr + 2 < t.tableEnd then
      let ⟨next, h⟩ ← skipStrings (ptr + 2)
      return ⟨next, by omega⟩
    else return ⟨ptr + 2, by omega⟩
  else return ⟨ptr + 2, by omega⟩
termination_by t.tableEnd - ptr

/-- The loop over the structures. -/
def scan (ptr : ℕ) (structureCount : UInt16) : Reads Bool := do
  if ptr < t.tableEnd then
    if 4 ≤ (← byte t.memory (ptr + 1)) ∧ (structureCount < t.structures ∨ t.structures = 0) then
      let structureType ← byte t.memory ptr
      if structureType = smbiosTypeProcessor then
        let processorId ← getUnaligned64 t.memory (ptr + 8)
        return brokenIds.contains processorId
      else
        let length ← byte t.memory (ptr + 1)
        let ⟨ptr', h⟩ ← t.skipStrings (ptr + length.toNat)
        if structureType = smbiosTypeEndOfTable then return false
        else scan ptr' (structureCount + 1)
    else return false
  else return false
termination_by t.tableEnd - ptr

end Table

/-- `grub_efi_has_broken_efi_stub_loader`; without an entry point (`none`), it reads
through a null pointer. -/
def hasBrokenEfiStubLoader (cs : ConfigurationTables) : Option (Reads Bool) := cs.table.map (·.scan 0 0)

namespace Table

variable (t : Table)

/-- Two NULs stand at `ptr`. -/
def DoubleNul (ptr : ℕ) : Prop := t.memory ptr = 0 ∧ t.memory (ptr + 1) = 0

/-- The string area from `ptr` ends with its first two NULs, at `r`. -/
structure Strings (ptr r : ℕ) : Prop where
  le : ptr ≤ r
  inside : r + 2 ≤ t.tableEnd
  nul : t.DoubleNul r
  first : ∀ j, ptr ≤ j → j < r → ¬ t.DoubleNul j

/-- The `k`-th structure stands at `ptr`. -/
structure Header (k ptr : ℕ) : Prop where
  inside : ptr + 1 < t.tableEnd
  length : 4 ≤ t.memory (ptr + 1)
  counted : k < t.structures.toNat ∨ t.structures = 0

/-- Where the strings of the structure at `ptr` start. -/
def stringsAt (ptr : ℕ) : ℕ := ptr + (t.memory (ptr + 1)).toNat

/-- The walk goes on from a structure to the one after its strings. -/
inductive Next : ℕ × ℕ → ℕ × ℕ → Prop
  | strings {k ptr r : ℕ} (hh : t.Header k ptr) (hp : t.memory ptr ≠ smbiosTypeProcessor)
      (he : t.memory ptr ≠ smbiosTypeEndOfTable) (hs : t.Strings (t.stringsAt ptr) r) :
      Next (k, ptr) (k + 1, r + 2)

/-- The `k`-th structure of the walk from `x`, if it is one, stands at `ptr`. -/
def Reached (x : ℕ × ℕ) (k ptr : ℕ) : Prop := Relation.ReflTransGen t.Next x (k, ptr)

/-- The walk comes to a processor with one of the ids. -/
def BrokenFrom (x : ℕ × ℕ) : Prop :=
  ∃ k ptr, t.Reached x k ptr ∧ t.Header k ptr ∧ t.memory ptr = smbiosTypeProcessor ∧
    ptr + 16 ≤ t.tableEnd ∧ idAt t.memory (ptr + 8) ∈ brokenIds

/-- The table holds what is read of the structure at `ptr`: both bytes of its
header, the whole id of a processor, and of another structure at least the first
byte of its strings, which end in the table, or else the table does not end in
a NUL. -/
structure Holds (k ptr : ℕ) : Prop where
  header : ptr < t.tableEnd → ptr + 1 < t.tableEnd
  processor : t.Header k ptr → t.memory ptr = smbiosTypeProcessor → ptr + 16 ≤ t.tableEnd
  strings : t.Header k ptr → t.memory ptr ≠ smbiosTypeProcessor →
    t.stringsAt ptr < t.tableEnd ∧
      ((∃ r, t.Strings (t.stringsAt ptr) r) ∨ t.memory (t.tableEnd - 1) ≠ 0)

/-- It holds that of all structures that the walk comes to. -/
def Whole : Prop := ∀ k ptr, t.Reached (0, 0) k ptr → t.Holds k ptr

end Table

/-- Nothing but the table is read, and the loader knows a broken processor. -/
def ScansRight (cs : ConfigurationTables) : Prop :=
  ∃ r, hasBrokenEfiStubLoader cs = some r ∧ (∀ a ∈ r.addrs, ∃ t ∈ cs.table, a < t.tableEnd) ∧
    (r.value = true ↔ ∃ t ∈ cs.table, t.BrokenFrom (0, 0))

namespace Table

variable {t : Table} {ptr r n : ℕ}

theorem strings_iff_succ (h : ¬ t.DoubleNul ptr) : t.Strings ptr r ↔ t.Strings (ptr + 1) r := by
  constructor
  · intro hs
    have hne : r ≠ ptr := fun he => h (he ▸ hs.nul)
    have hle := hs.le
    exact ⟨by omega, hs.inside, hs.nul, fun j hj hr => hs.first j (by omega) hr⟩
  · intro hs
    have hle := hs.le
    refine ⟨by omega, hs.inside, hs.nul, fun j hj hr => ?_⟩
    by_cases he : j = ptr
    · exact he ▸ h
    · exact hs.first j (by omega) hr

theorem strings_iff_here (h : t.DoubleNul ptr) : t.Strings ptr r ↔ r = ptr ∧ ptr + 2 ≤ t.tableEnd := by
  constructor
  · intro hs
    have hle := hs.le
    have hin := hs.inside
    have hge : ¬ ptr < r := fun hlt => hs.first ptr le_rfl hlt h
    exact ⟨by omega, by omega⟩
  · rintro ⟨rfl, hin⟩
    exact ⟨le_rfl, hin, h, fun j hj hr => absurd hj (by omega)⟩

theorem skipStrings_char (h : t.memory ptr ≠ 0) :
    ((t.skipStrings ptr).Below n ↔ ptr < n ∧ (ptr + 1 < t.tableEnd → (t.skipStrings (ptr + 1)).Below n)) ∧
    (t.skipStrings ptr).value.1 =
      if ptr + 1 < t.tableEnd then (t.skipStrings (ptr + 1)).value.1 else ptr + 1 := by
  rw [skipStrings]
  by_cases ht : ptr + 1 < t.tableEnd
  · simp [h, ht]
  · simp [h, ht]

theorem skipStrings_nul (h : t.memory ptr = 0) (h1 : t.memory (ptr + 1) ≠ 0) :
    ((t.skipStrings ptr).Below n ↔ (ptr < n ∧ ptr + 1 < n) ∧
      (ptr + 2 < t.tableEnd → (t.skipStrings (ptr + 2)).Below n)) ∧
    (t.skipStrings ptr).value.1 =
      if ptr + 2 < t.tableEnd then (t.skipStrings (ptr + 2)).value.1 else ptr + 2 := by
  rw [skipStrings]
  by_cases ht : ptr + 2 < t.tableEnd
  · simp [h, h1, ht, and_assoc]
  · simp [h, ht]

theorem skipStrings_here (h : t.DoubleNul ptr) :
    ((t.skipStrings ptr).Below n ↔ ptr < n ∧ ptr + 1 < n) ∧ (t.skipStrings ptr).value.1 = ptr + 2 := by
  rw [skipStrings]
  simp [h.1, h.2]

/-- What the search for the end of a string area reads and finds. -/
structure SkipSpec (t : Table) (ptr : ℕ) : Prop where
  below : (t.skipStrings ptr).Below t.tableEnd ↔
    ptr < t.tableEnd ∧ ((∃ r, t.Strings ptr r) ∨ t.memory (t.tableEnd - 1) ≠ 0)
  found : ∀ r, t.Strings ptr r → (t.skipStrings ptr).value.1 = r + 2
  behind : (¬ ∃ r, t.Strings ptr r) → t.tableEnd ≤ (t.skipStrings ptr).value.1

/-- A round of the loop that passes NULs and then another byte, up to `next`. -/
theorem SkipSpec.of_round {next : ℕ} (hlt : ptr < next) (hnul : ∀ j, ptr ≤ j → j + 1 < next → t.memory j = 0)
    (hlast : t.memory (next - 1) ≠ 0) (hs : ∀ r, t.Strings ptr r ↔ t.Strings next r)
    (hb : (t.skipStrings ptr).Below t.tableEnd ↔
      next ≤ t.tableEnd ∧ (next < t.tableEnd → (t.skipStrings next).Below t.tableEnd))
    (hv : (t.skipStrings ptr).value.1 = if next < t.tableEnd then (t.skipStrings next).value.1 else next)
    (ih : next < t.tableEnd → SkipSpec t next) : SkipSpec t ptr := by
  rcases Nat.lt_or_ge next t.tableEnd with hn | hn
  · obtain ⟨ib, ifound, ibehind⟩ := ih hn
    rw [if_pos hn] at hv
    simp only [ib, hn, hn.le, true_and, forall_const] at hb
    constructor
    · simp only [hb, hs, hlt.trans hn, true_and]
    · intro r hr
      rw [hv, ifound r ((hs r).mp hr)]
    · intro hr
      rw [hv]
      exact ibehind (by simpa only [hs] using hr)
  · have hno : ∀ r, ¬ t.Strings ptr r := by
      intro r hr
      have hle := ((hs r).mp hr).le
      have hin := hr.inside
      omega
    rw [if_neg (Nat.not_lt.mpr hn)] at hv
    constructor
    · rw [hb]
      constructor
      · intro h
        have he : t.tableEnd = next := by omega
        exact ⟨by omega, .inr (he ▸ hlast)⟩
      · intro h
        rcases h.2 with ⟨r, hr⟩ | hend
        · exact absurd hr (hno r)
        · refine ⟨?_, fun hc => absurd hc (by omega)⟩
          by_contra hc
          have hp := h.1
          exact hend (hnul (t.tableEnd - 1) (by omega) (by omega))
    · intro r hr
      exact absurd hr (hno r)
    · intro _
      omega

theorem skipSpec (t : Table) (ptr : ℕ) : SkipSpec t ptr := by
  induction ptr using skipStrings.induct t with
  | case1 ptr ih1 ih2 =>
    by_cases h : t.memory ptr = 0
    · by_cases h1 : t.memory (ptr + 1) = 0
      · have hd : t.DoubleNul ptr := ⟨h, h1⟩
        obtain ⟨hb, hv⟩ := skipStrings_here (n := t.tableEnd) hd
        constructor
        · rw [hb]
          simp only [strings_iff_here hd, exists_eq_left]
          constructor
          · intro hp
            exact ⟨hp.1, .inl hp.2⟩
          · rintro ⟨hp, he | he⟩
            · exact ⟨hp, he⟩
            · refine ⟨hp, ?_⟩
              by_contra hc
              have hlast : t.tableEnd - 1 = ptr := by omega
              exact he (hlast ▸ h)
        · intro r hr
          rw [hv, ((strings_iff_here hd).mp hr).1]
        · intro hr
          rw [hv]
          by_contra hc
          exact hr ⟨ptr, (strings_iff_here hd).mpr ⟨rfl, by omega⟩⟩
      · -- a single NUL, then the start of the next string
        obtain ⟨hb, hv⟩ := skipStrings_nul (n := t.tableEnd) h h1
        refine .of_round (show ptr < ptr + 2 by omega) (fun j hj hlt => ?_) h1 (fun r => ?_) ?_ hv ih2
        · rwa [show j = ptr by omega]
        · rw [strings_iff_succ fun hd => h1 hd.2, strings_iff_succ fun hd => h1 hd.1]
        · rw [hb]
          exact and_congr_left fun _ => by omega
    · obtain ⟨hb, hv⟩ := skipStrings_char (n := t.tableEnd) h
      refine .of_round (Nat.lt_succ_self ptr) (fun j hj hlt => absurd hlt (by omega)) h (fun r => ?_) hb hv ih1
      exact strings_iff_succ fun hd => h hd.1

theorem below_getUnaligned64 (memory : ℕ → UInt8) (ptr n : ℕ) :
    (getUnaligned64 memory ptr).Below n ↔ ptr + 8 ≤ n := by
  simp only [getUnaligned64, Reads.Below, List.forall_mem_map, List.mem_range]
  constructor
  · intro h
    have h7 := h 7 (by omega)
    omega
  · intro h i hi
    omega

/-- `structure_count` at the `k`-th structure: it counts as long as it matters. -/
def Counts (t : Table) (k : ℕ) (c : UInt16) : Prop :=
  t.structures ≠ 0 → k ≤ t.structures.toNat ∧ c.toNat = k

variable {k : ℕ} {c : UInt16}

theorem Counts.lt_iff (hc : t.Counts k c) :
    c < t.structures ∨ t.structures = 0 ↔ k < t.structures.toNat ∨ t.structures = 0 := by
  by_cases h0 : t.structures = 0
  · simp [h0]
  · rw [UInt16.lt_iff_toNat_lt, (hc h0).2]

theorem Counts.succ (hc : t.Counts k c) (hk : k < t.structures.toNat ∨ t.structures = 0) :
    t.Counts (k + 1) (c + 1) := by
  intro h0
  obtain ⟨-, he⟩ := hc h0
  have hk := hk.resolve_right h0
  have hlt := t.structures.toNat_lt
  refine ⟨hk, ?_⟩
  rw [UInt16.toNat_add, he]
  simp only [UInt16.toNat_one]
  omega

theorem Strings.unique {r' : ℕ} (h : t.Strings ptr r) (h' : t.Strings ptr r') : r = r' := by
  rcases Nat.lt_trichotomy r r' with hlt | heq | hgt
  · exact absurd h.nul (h'.first r h.le hlt)
  · exact heq
  · exact absurd h'.nul (h.first r' h'.le hgt)

theorem Next.unique {x y z : ℕ × ℕ} (hy : t.Next x y) (hz : t.Next x z) : y = z := by
  obtain ⟨-, -, -, hs⟩ := hy
  obtain ⟨-, -, -, hs'⟩ := hz
  rw [hs.unique hs']

theorem Next.header {y : ℕ × ℕ} (h : t.Next (k, ptr) y) : t.Header k ptr := by
  obtain ⟨hh, -, -, -⟩ := h
  exact hh

theorem Next.ne_endOfTable {y : ℕ × ℕ} (h : t.Next (k, ptr) y) : t.memory ptr ≠ smbiosTypeEndOfTable := by
  obtain ⟨-, -, he, -⟩ := h
  exact he

theorem Next.strings_end {y : ℕ × ℕ} (h : t.Next (k, ptr) y) : ∃ r, t.Strings (t.stringsAt ptr) r := by
  obtain ⟨-, -, -, hs⟩ := h
  exact ⟨_, hs⟩

theorem Next.ne_processor {y : ℕ × ℕ} (h : t.Next (k, ptr) y) : t.memory ptr ≠ smbiosTypeProcessor := by
  obtain ⟨-, hp, -, -⟩ := h
  exact hp

/-- Where the walk ends, nothing else is reached; -/
theorem reached_of_last {k' ptr' : ℕ} (h : ∀ y, ¬ t.Next (k, ptr) y) :
    t.Reached (k, ptr) k' ptr' ↔ k' = k ∧ ptr' = ptr := by
  rw [Reached, Relation.ReflTransGen.cases_head_iff]
  simp [h, eq_comm]

/-- and else what the walk reaches from the next structure. -/
theorem reached_of_next {x y : ℕ × ℕ} {k' ptr' : ℕ} (h : t.Next x y) :
    t.Reached x k' ptr' ↔ x = (k', ptr') ∨ t.Reached y k' ptr' := by
  rw [Reached, Relation.ReflTransGen.cases_head_iff]
  refine or_congr_right ⟨?_, fun hr => ⟨y, h, hr⟩⟩
  rintro ⟨z, hz, hr⟩
  rwa [h.unique hz]

/-- What the loop reads from a structure on, and what it returns. -/
structure ScanSpec (t : Table) (k ptr : ℕ) (c : UInt16) : Prop where
  below : (t.scan ptr c).Below t.tableEnd ↔ ∀ k' ptr', t.Reached (k, ptr) k' ptr' → t.Holds k' ptr'
  value : (t.scan ptr c).Below t.tableEnd → ((t.scan ptr c).value = true ↔ t.BrokenFrom (k, ptr))

theorem ScanSpec.of_last (h : ∀ y, ¬ t.Next (k, ptr) y)
    (hb : (t.scan ptr c).Below t.tableEnd ↔ t.Holds k ptr)
    (hv : t.Holds k ptr → ((t.scan ptr c).value = true ↔ t.Header k ptr ∧
      t.memory ptr = smbiosTypeProcessor ∧ ptr + 16 ≤ t.tableEnd ∧ idAt t.memory (ptr + 8) ∈ brokenIds)) :
    ScanSpec t k ptr c := by
  constructor
  · simp only [reached_of_last h, hb, and_imp, forall_eq_apply_imp_iff, forall_eq]
  · intro hbelow
    simp only [BrokenFrom, reached_of_last h, hv (hb.mp hbelow), and_assoc, exists_and_left, exists_eq_left]

theorem ScanSpec.of_next {k' ptr' : ℕ} {c' : UInt16} (h : t.Next (k, ptr) (k', ptr'))
    (hb : (t.scan ptr c).Below t.tableEnd ↔ t.Holds k ptr ∧ (t.scan ptr' c').Below t.tableEnd)
    (hv : (t.scan ptr c).value = (t.scan ptr' c').value) (ih : ScanSpec t k' ptr' c') : ScanSpec t k ptr c := by
  constructor
  · rw [hb, ih.below]
    simp only [reached_of_next h, Prod.mk.injEq, or_imp, forall_and, and_imp]
    exact and_congr_left fun _ => ⟨fun hh i p hi hp => hi ▸ hp ▸ hh, fun hh => hh k ptr rfl rfl⟩
  · intro hbelow
    rw [hv, ih.value (hb.mp hbelow).2]
    refine exists₂_congr fun i p => ?_
    rw [reached_of_next h]
    constructor
    · rintro ⟨hr, hh⟩
      exact ⟨.inr hr, hh⟩
    · rintro ⟨hr | hr, hh⟩
      · cases hr
        exact absurd hh.2.1 h.ne_processor
      · exact ⟨hr, hh⟩

theorem scan_end (h : ¬ ptr < t.tableEnd) : t.scan ptr c = pure false := by
  rw [scan, if_neg h]

theorem scan_header (h : ptr < t.tableEnd) (hb : (t.scan ptr c).Below n) : ptr + 1 < n := by
  rw [scan, if_pos h] at hb
  exact (Reads.below_bind _ _).mp hb |>.1 |> (Reads.below_byte _ _).mp

theorem scan_stop (h : ptr < t.tableEnd)
    (hh : ¬ (4 ≤ t.memory (ptr + 1) ∧ (c < t.structures ∨ t.structures = 0))) :
    ((t.scan ptr c).Below n ↔ ptr + 1 < n) ∧ (t.scan ptr c).value = false := by
  rw [scan, if_pos h]
  simp [hh]

theorem scan_processor (h : ptr < t.tableEnd)
    (hh : 4 ≤ t.memory (ptr + 1) ∧ (c < t.structures ∨ t.structures = 0))
    (hp : t.memory ptr = smbiosTypeProcessor) :
    ((t.scan ptr c).Below n ↔ ptr + 16 ≤ n) ∧
      ((t.scan ptr c).value = true ↔ idAt t.memory (ptr + 8) ∈ brokenIds) := by
  rw [scan, if_pos h]
  simp only [Reads.below_bind, Reads.value_bind, Reads.below_byte, Reads.value_byte, hh, hp, ↓reduceIte,
    below_getUnaligned64, Reads.below_pure, Reads.value_pure, and_true, List.contains_iff_mem]
  exact ⟨by omega, Iff.rfl⟩

theorem scan_endOfTable (h : ptr < t.tableEnd)
    (hh : 4 ≤ t.memory (ptr + 1) ∧ (c < t.structures ∨ t.structures = 0))
    (he : t.memory ptr = smbiosTypeEndOfTable) :
    ((t.scan ptr c).Below n ↔ ptr + 1 < n ∧ (t.skipStrings (t.stringsAt ptr)).Below n) ∧
      (t.scan ptr c).value = false := by
  have hp : smbiosTypeEndOfTable ≠ smbiosTypeProcessor := by decide
  rw [scan, if_pos h]
  simp only [Reads.below_bind, Reads.value_bind, Reads.below_byte, Reads.value_byte, hh, he, hp,
    ↓reduceIte, Reads.below_pure, Reads.value_pure, and_true]
  rw [stringsAt]
  exact ⟨fun hb => hb.2.2, fun hb => ⟨hb.1, by omega, hb⟩⟩

theorem scan_other (h : ptr < t.tableEnd)
    (hh : 4 ≤ t.memory (ptr + 1) ∧ (c < t.structures ∨ t.structures = 0))
    (hp : t.memory ptr ≠ smbiosTypeProcessor) (he : t.memory ptr ≠ smbiosTypeEndOfTable) :
    ((t.scan ptr c).Below n ↔ (ptr + 1 < n ∧ (t.skipStrings (t.stringsAt ptr)).Below n) ∧
      (t.scan (t.skipStrings (t.stringsAt ptr)).value.1 (c + 1)).Below n) ∧
      (t.scan ptr c).value = (t.scan (t.skipStrings (t.stringsAt ptr)).value.1 (c + 1)).value := by
  rw [scan, if_pos h]
  simp only [Reads.below_bind, Reads.value_bind, Reads.below_byte, Reads.value_byte, hh, hp, he, and_self,
    ↓reduceIte]
  rw [stringsAt]
  exact ⟨⟨fun hb => ⟨⟨hb.1, hb.2.2.2.1⟩, hb.2.2.2.2⟩, fun hb => ⟨hb.1.1, by omega, hb.1.1, hb.1.2, hb.2⟩⟩, rfl⟩

/-- The formatted area of a structure and its strings are read if the table holds them. -/
theorem holds_iff_of_other (hh : t.Header k ptr) (hp : t.memory ptr ≠ smbiosTypeProcessor) :
    t.Holds k ptr ↔ ptr + 1 < t.tableEnd ∧ (t.skipStrings (t.stringsAt ptr)).Below t.tableEnd := by
  rw [(skipSpec t _).below]
  exact ⟨fun h => ⟨hh.inside, h.strings hh hp⟩,
    fun h => ⟨fun _ => h.1, fun _ he => absurd he hp, fun _ _ => h.2⟩⟩

theorem scanSpec (t : Table) (k ptr : ℕ) (c : UInt16) (hc : t.Counts k c) : ScanSpec t k ptr c := by
  induction ptr, c using scan.induct t generalizing k with
  | case2 ptr c h =>
    have hno : ¬ t.Header k ptr := fun hh => h (Nat.lt_of_succ_lt hh.inside)
    refine .of_last (fun y hn => hno hn.header) ?_ fun _ => ?_
    · rw [scan_end h]
      refine iff_of_true (Reads.below_pure _) ⟨fun hp => absurd hp h,
        fun hh => absurd hh hno, fun hh => absurd hh hno⟩
    · rw [scan_end h]
      simp [hno]
  | case1 ptr c h ih =>
    by_cases hin : ptr + 1 < t.tableEnd
    · by_cases hg : 4 ≤ t.memory (ptr + 1) ∧ (c < t.structures ∨ t.structures = 0)
      · have hh : t.Header k ptr := ⟨hin, hg.1, hc.lt_iff.mp hg.2⟩
        by_cases hp : t.memory ptr = smbiosTypeProcessor
        · obtain ⟨hb, hv⟩ := scan_processor (n := t.tableEnd) h hg hp
          refine .of_last (fun y hn => hn.ne_processor hp) ?_ fun hholds => ?_
          · rw [hb]
            exact ⟨fun h16 => ⟨fun _ => hin, fun _ _ => h16, fun _ hne => absurd hp hne⟩,
              fun hholds => hholds.processor hh hp⟩
          · simp only [hv, hh, hp, hholds.processor hh hp, true_and]
        · by_cases he : t.memory ptr = smbiosTypeEndOfTable
          · obtain ⟨hb, hv⟩ := scan_endOfTable (n := t.tableEnd) h hg he
            refine .of_last (fun y hn => hn.ne_endOfTable he) ?_ fun _ => ?_
            · rw [hb, holds_iff_of_other hh hp]
            · simp only [hv, hp, false_and, and_false, Bool.false_eq_true]
          · obtain ⟨hb, hv⟩ := scan_other (n := t.tableEnd) h hg hp he
            rw [← holds_iff_of_other hh hp] at hb
            have hsk := skipSpec t (t.stringsAt ptr)
            by_cases hs : ∃ r, t.Strings (t.stringsAt ptr) r
            · -- the walk goes on
              obtain ⟨r, hr⟩ := hs
              have hlt := (t.skipStrings (t.stringsAt ptr)).value.2
              rw [hsk.found r hr] at hb hv hlt
              exact .of_next (.strings hh hp he hr) hb hv
                (ih (t.memory (ptr + 1)) (r + 2) hlt (k + 1) (hc.succ hh.counted))
            · -- the end of the table, within the strings
              have hend := scan_end (c := c + 1) (Nat.not_lt.mpr (hsk.behind hs))
              rw [hend] at hb hv
              refine .of_last (fun y hn => hs hn.strings_end) ?_ fun _ => ?_
              · rw [hb]
                exact and_iff_left (Reads.below_pure _)
              · simp [hv, hp]
      · have hno : ¬ t.Header k ptr := fun hh => hg ⟨hh.length, hc.lt_iff.mpr hh.counted⟩
        obtain ⟨hb, hv⟩ := scan_stop (n := t.tableEnd) h hg
        refine .of_last (fun y hn => hno hn.header) ?_ fun _ => ?_
        · rw [hb]
          exact iff_of_true hin ⟨fun _ => hin, fun hh => absurd hh hno, fun hh => absurd hh hno⟩
        · simp [hv, hno]
    · have hno : ¬ t.Holds k ptr := fun hholds => hin (hholds.header h)
      refine .of_last (fun y hn => hin hn.header.inside) ?_ fun hholds => absurd hholds hno
      exact iff_of_false (fun hb => hin (scan_header h hb)) hno

end Table

theorem scans_right_iff (cs : ConfigurationTables) : ScansRight cs ↔ ∃ t ∈ cs.table, t.Whole := by
  unfold ScansRight hasBrokenEfiStubLoader
  cases cs.table with
  | none => simp
  | some t =>
    have hs := t.scanSpec 0 0 0 fun _ => ⟨Nat.zero_le _, rfl⟩
    simp only [Option.map_some, Option.some.injEq, exists_eq_left', Option.mem_def]
    rw [Table.Whole, ← hs.below]
    exact ⟨fun h => h.1, fun h => ⟨h, hs.value h⟩⟩

/-- A table of six bytes: a processor without an id. -/
def shortProcessor : ConfigurationTables := ⟨some ⟨fun a => [4, 4, 0, 0, 0, 0].getD a 0, 6⟩, none⟩

/-- The id is read behind its end. -/
theorem short_processor_overread : ¬ ScansRight shortProcessor := by
  rintro ⟨r, hr, hin, -⟩
  cases hr
  have hb : (Table.scan ⟨fun a => [4, 4, 0, 0, 0, 0].getD a 0, 6, 0⟩ 0 0).Below 6 := by
    intro a ha
    obtain ⟨t, ht, hlt⟩ := hin a ha
    cases ht
    exact hlt
  rw [(Table.scan_processor (by decide) (by decide) rfl).1] at hb
  omega

end HassOS.Grub
