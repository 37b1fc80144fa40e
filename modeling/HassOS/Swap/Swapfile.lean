import HassOS.Swap.Size

/-!
# The swap file (`haos-swapfile`)

The script on a volume with its free 4 KiB blocks, and what it does to the swap
file: remove it, write it anew (`dd`, which truncates it first) or format it.
Shell arithmetic is exact. The default size is 33% of the memory; then a file
within 32 MB of it is kept. `systemd-makefs` formats a file only if it finds no
file system or other signature in it, and is content with what it finds.

A run that ends well leaves the volume as a further run finds it (`Rests`,
`allocate_rests`), so that the file is not written again at every boot; and the
file is formatted, unless it is an old one that `systemd-makefs` left alone
(`haosSwapfile_converges`). The space check asks for the whole new file beside
the old one, which `dd` would have truncated (`fits_iff`).
-/

namespace HassOS.Swap

open Framework

structure Swapfile where
  bytes : List UInt8
  /-- The blocks that it occupies. -/
  blocks : ℕ

/-- `/mnt/data` -/
structure Volume where
  swapfile : Option Swapfile
  /-- `stat -f -c '%f'` -/
  free : ℕ

/-- What `systemd-makefs` finds when it probes a file. -/
inductive Probe where
  | nothing
  /-- A file system, a swap area or another signature of that kind. -/
  | found
  /-- Several of them, or the probe fails. -/
  | failed
  deriving DecidableEq

/-- The tools for swap areas, which are not part of the repository. -/
structure Tools where
  /-- `swaplabel` succeeds: the file is a swap area. -/
  swaplabel : List UInt8 → Bool
  probe : List UInt8 → Probe
  /-- `mkswap`: whether it succeeds, and what it leaves. -/
  mkswap : List UInt8 → Bool × List UInt8
  length_mkswap (b : List UInt8) : (mkswap b).2.length = b.length

/-- What the tools are documented to do: `mkswap` makes a swap area, and zeros
carry no signature. -/
structure Tools.Documented (T : Tools) : Prop where
  swaplabel_mkswap (b : List UInt8) : (T.mkswap b).1 = true → T.swaplabel (T.mkswap b).2 = true
  probe_zeros (n : ℕ) : T.probe (List.replicate n 0) = .nothing

namespace Volume

variable (v : Volume)

/-- `CURRENT_SIZE` -/
def currentSize : ℤ := v.swapfile.elim 0 fun f => f.bytes.length

/-- `[ -s "${SWAPFILE}" ]` -/
def nonempty : Bool := v.swapfile.any fun f => f.bytes ≠ []

/-- The blocks of the swap file, if any. -/
def occupied : ℕ := v.swapfile.elim 0 Swapfile.blocks

/-- `rm -f "${SWAPFILE}"` -/
def remove : Volume := ⟨none, v.free + v.occupied⟩

/-- `dd if=/dev/zero of="${SWAPFILE}" bs=4k count=n`: it writes as much as there
is room for once the file is truncated. -/
def dd (n : ℕ) : Bool × Volume :=
  let m := min n (v.free + v.occupied)
  (m = n, ⟨some ⟨List.replicate (m * 4096) 0, m⟩, v.free + v.occupied - m⟩)

end Volume

/-- A change of the swap file. -/
inductive Act where
  | rm
  | dd
  | mkswap
  deriving DecidableEq

inductive Exit where
  | ok
  /-- `Not enough space to allocate swapfile` -/
  | notEnoughSpace
  /-- `dd` or `systemd-makefs` fails. -/
  | failed
  deriving DecidableEq

structure Result where
  exit : Exit
  volume : Volume
  acts : List Act

/-- `SWAPSIZE` and `SWAPSIZE_TOLERANCE`, from the setting and `MemTotal`. -/
def request (setting : Line) (memTotal : ℕ) : ℤ × ℤ :=
  match size2kilobytes setting with
  | some n => if n = -1 then ((memTotal * 33 / 100 : ℕ), 32 * 1024) else (n, 0)
  | none => ((memTotal * 33 / 100 : ℕ), 32 * 1024)

/-- `SWAPSIZE_BLOCKS` -/
def swapsizeBlocks (req : ℤ) : ℤ := req.tdiv 4

/-- The size is within the tolerance. -/
def accepts (req tol : ℤ) (v : Volume) : Bool :=
  v.nonempty && (req - tol) * 1024 ≤ v.currentSize && v.currentSize ≤ (req + tol) * 1024

/-- `systemd-makefs swap` of the file `f`. -/
def systemdMakefs (T : Tools) (acts : List Act) (v : Volume) (f : Swapfile) : Result :=
  match T.probe f.bytes with
  | .found => ⟨.ok, v, acts⟩
  | .failed => ⟨.failed, v, acts⟩
  | .nothing =>
    let (ok, b) := T.mkswap f.bytes
    ⟨if ok then .ok else .failed, { v with swapfile := some { f with bytes := b } }, acts ++ [.mkswap]⟩

/-- `swaplabel`, and `systemd-makefs` if it fails. -/
def format (T : Tools) (acts : List Act) (v : Volume) : Result :=
  match v.swapfile with
  | none => ⟨.failed, v, acts⟩
  | some f => if T.swaplabel f.bytes then ⟨.ok, v, acts⟩ else systemdMakefs T acts v f

/-- The script, for a size in kilobytes and its tolerance. -/
def allocate (T : Tools) (req tol : ℤ) (v : Volume) : Result :=
  let n := swapsizeBlocks req
  if n < 10 then ⟨.ok, v.remove, if v.swapfile.isSome then [.rm] else []⟩
  else if accepts req tol v then format T [] v
  else if !v.nonempty || v.currentSize ≠ n * 4096 then
    if v.free < n then ⟨.notEnoughSpace, v, []⟩
    else
      match v.dd n.toNat with
      | (true, v') => format T [.dd] v'
      | (false, v') => ⟨.failed, v', [.dd]⟩
  else format T [] v

def haosSwapfile (T : Tools) (setting : Line) (memTotal : ℕ) (v : Volume) : Result :=
  allocate T (request setting memTotal).1 (request setting memTotal).2 v

/-- The swap file is of about the size. -/
def Sized (req tol : ℤ) (f : Swapfile) : Prop :=
  (f.bytes.length : ℤ) = 4096 * (req / 4) ∨
    (req - tol) * 1024 ≤ f.bytes.length ∧ (f.bytes.length : ℤ) ≤ (req + tol) * 1024

/-- What the script is for: too small a request and no swap file, or one of about
the size that is formatted. It is content with an old file that is no swap area,
but has another signature. -/
def Settled (T : Tools) (req tol : ℤ) (old v : Volume) : Prop :=
  (req / 4 < 10 ∧ v.swapfile = none) ∨
    ∃ f, v.swapfile = some f ∧ Sized req tol f ∧
      (T.swaplabel f.bytes = true ∨ (T.probe f.bytes = .found ∧ old.swapfile = some f))

/-- The file is not to be written anew. -/
def Acceptable (req tol : ℤ) (v : Volume) : Prop :=
  v.nonempty = true ∧ (v.currentSize = swapsizeBlocks req * 4096 ∨
    (req - tol) * 1024 ≤ v.currentSize ∧ v.currentSize ≤ (req + tol) * 1024)

instance (req tol : ℤ) (v : Volume) : Decidable (Acceptable req tol v) :=
  inferInstanceAs (Decidable (_ ∧ _))

section

variable {T : Tools} {req tol : ℤ} {v : Volume}

/-! ## The ways of the script -/

theorem allocate_small (h : swapsizeBlocks req < 10) :
    allocate T req tol v = ⟨.ok, v.remove, if v.swapfile.isSome then [.rm] else []⟩ := if_pos h

theorem allocate_acceptable (h : 10 ≤ swapsizeBlocks req) (ha : Acceptable req tol v) :
    allocate T req tol v = format T [] v := by
  unfold allocate
  rw [if_neg (by omega)]
  obtain ⟨hne, hsize⟩ := ha
  by_cases hw : (req - tol) * 1024 ≤ v.currentSize ∧ v.currentSize ≤ (req + tol) * 1024
  · rw [if_pos (by simp [accepts, hne, hw])]
  · rw [if_neg (by simpa [accepts, hne] using hw), if_neg (by simp [hne, hsize.resolve_right hw])]

theorem not_acceptable (ha : ¬ Acceptable req tol v) : accepts req tol v = false ∧
    (!v.nonempty || v.currentSize ≠ swapsizeBlocks req * 4096) = true := by
  unfold Acceptable at ha
  unfold accepts
  cases hne : v.nonempty with
  | false => simp
  | true =>
    simp only [hne, true_and, not_or] at ha
    simpa using ⟨fun h => by omega, ha.1⟩

theorem allocate_no_space (h : 10 ≤ swapsizeBlocks req) (ha : ¬ Acceptable req tol v)
    (hf : v.free < swapsizeBlocks req) : allocate T req tol v = ⟨.notEnoughSpace, v, []⟩ := by
  obtain ⟨h1, h2⟩ := not_acceptable ha
  unfold allocate
  rw [if_neg (by omega), if_neg (by simp [h1]), if_pos h2, if_pos hf]

theorem allocate_dd (h : 10 ≤ swapsizeBlocks req) (ha : ¬ Acceptable req tol v)
    (hf : swapsizeBlocks req ≤ v.free) :
    allocate T req tol v = format T [.dd] (v.dd (swapsizeBlocks req).toNat).2 := by
  obtain ⟨h1, h2⟩ := not_acceptable ha
  have hdd : (v.dd (swapsizeBlocks req).toNat).1 = true := by
    simp only [Volume.dd, decide_eq_true_eq]
    omega
  unfold allocate
  rw [if_neg (by omega), if_neg (by simp [h1]), if_pos h2, if_neg (by omega)]
  generalize v.dd _ = d at hdd
  obtain ⟨ok, v'⟩ := d
  obtain rfl : ok = true := hdd
  rfl

theorem currentSize_dd {n : ℕ} (h : n ≤ v.free + v.occupied) : (v.dd n).2.currentSize = n * 4096 := by
  simp [Volume.dd, Volume.currentSize, Nat.min_eq_left h]

/-- What formatting can come to: nothing is to be done, or nothing is done, or
`mkswap` has its way. -/
theorem format_cases (acts : List Act) :
    ((format T acts v).volume = v ∧ (format T acts v).acts = acts ∧
      ((format T acts v).exit = .failed ∨ ((format T acts v).exit = .ok ∧
        ∃ f, v.swapfile = some f ∧ (T.swaplabel f.bytes = true ∨ T.probe f.bytes = .found)))) ∨
    ∃ f, v.swapfile = some f ∧ format T acts v =
      ⟨if (T.mkswap f.bytes).1 then .ok else .failed,
        { v with swapfile := some { f with bytes := (T.mkswap f.bytes).2 } }, acts ++ [.mkswap]⟩ := by
  unfold format
  split
  · exact .inl ⟨rfl, rfl, .inl rfl⟩
  · rename_i f hf
    split
    · rename_i hl
      exact .inl ⟨rfl, rfl, .inr ⟨rfl, f, hf, .inl hl⟩⟩
    · unfold systemdMakefs
      split
      · rename_i hp
        exact .inl ⟨rfl, rfl, .inr ⟨rfl, f, hf, .inr hp⟩⟩
      · exact .inl ⟨rfl, rfl, .inl rfl⟩
      · exact .inr ⟨f, hf, rfl⟩

/-- Formatting keeps the size, -/
theorem currentSize_format (acts : List Act) : (format T acts v).volume.currentSize = v.currentSize := by
  rcases format_cases (T := T) (v := v) acts with ⟨hv, -⟩ | ⟨f, hf, he⟩
  · rw [hv]
  · rw [he, Volume.currentSize, Volume.currentSize, hf]
    exact congrArg Int.ofNat (T.length_mkswap f.bytes)

/-- and only that, or nothing, is done beside what was done before. -/
theorem acts_format (acts : List Act) :
    (format T acts v).acts = acts ∨ (format T acts v).acts = acts ++ [.mkswap] := by
  rcases format_cases (T := T) (v := v) acts with ⟨-, ha, -⟩ | ⟨f, -, he⟩
  · exact .inl ha
  · exact .inr (by rw [he])

/-- Where it ends well, the file is a swap area, or is as it was, with another
signature. -/
theorem format_ok (hT : T.Documented) {acts : List Act} (h : (format T acts v).exit = .ok) :
    ∃ f, (format T acts v).volume.swapfile = some f ∧
      (T.swaplabel f.bytes = true ∨ (T.probe f.bytes = .found ∧ v.swapfile = some f)) := by
  rcases format_cases (T := T) (v := v) acts with ⟨hv, -, hf | ⟨-, f, hf, hl⟩⟩ | ⟨f, -, he⟩
  · rw [hf] at h
    cases h
  · exact ⟨f, by rw [hv, hf], hl.imp_right fun hp => ⟨hp, hf⟩⟩
  · rw [he] at h ⊢
    refine ⟨_, rfl, .inl (hT.swaplabel_mkswap _ ?_)⟩
    by_contra hm
    simp [hm] at h

theorem format_formatted {f : Swapfile} (hf : v.swapfile = some f)
    (hl : T.swaplabel f.bytes = true ∨ T.probe f.bytes = .found) (acts : List Act) :
    format T acts v = ⟨.ok, v, acts⟩ := by
  unfold format systemdMakefs
  rw [hf]
  rcases hl with hl | hp
  · exact if_pos hl
  · simp only [hp, ite_self]

theorem not_enough_format (acts : List Act) : (format T acts v).exit ≠ .notEnoughSpace := by
  rcases format_cases (T := T) (v := v) acts with ⟨-, -, hf | ⟨hf, -⟩⟩ | ⟨f, -, he⟩
  · simp [hf]
  · simp [hf]
  · rw [he]
    dsimp only
    split <;> simp

theorem nonempty_iff : v.nonempty = true ↔ 0 < v.currentSize := by
  unfold Volume.nonempty Volume.currentSize
  cases v.swapfile with
  | none => simp
  | some f => simp [List.length_pos_iff]

/-! ## Convergence -/

/-- A run finds nothing to do. -/
def Rests (T : Tools) (req tol : ℤ) (v : Volume) : Prop :=
  (swapsizeBlocks req < 10 ∧ v.swapfile = none) ∨
    (10 ≤ swapsizeBlocks req ∧ Acceptable req tol v ∧
      ∃ f, v.swapfile = some f ∧ (T.swaplabel f.bytes = true ∨ T.probe f.bytes = .found))

theorem Rests.allocate (h : Rests T req tol v) : allocate T req tol v = ⟨.ok, v, []⟩ := by
  rcases h with ⟨hn, hf⟩ | ⟨hn, ha, f, hf, hl⟩
  · obtain ⟨file, free⟩ := v
    obtain rfl : file = none := hf
    exact allocate_small hn
  · rw [allocate_acceptable hn ha, format_formatted hf hl]

/-- It does not depend on the free space. -/
theorem Rests.free (h : Rests T req tol v) (n : ℕ) : Rests T req tol { v with free := n } := h

theorem swapsizeBlocks_eq (h : 0 ≤ req) : swapsizeBlocks req = req / 4 := Int.tdiv_eq_ediv_of_nonneg h

theorem Acceptable.sized (ha : Acceptable req tol v) (hreq : 0 ≤ req) {f : Swapfile}
    (hf : v.swapfile = some f) : Sized req tol f := by
  have hs : v.currentSize = f.bytes.length := by simp [Volume.currentSize, hf]
  have ha' := ha.2
  rw [hs, swapsizeBlocks_eq hreq] at ha'
  unfold Sized
  omega

/-- What a run leaves that ends well, of a size that is not too small. -/
theorem allocate_ok (hT : T.Documented) (hn : 10 ≤ swapsizeBlocks req)
    (h : (allocate T req tol v).exit = .ok) : Acceptable req tol (allocate T req tol v).volume ∧
      ∃ f, (allocate T req tol v).volume.swapfile = some f ∧
        (T.swaplabel f.bytes = true ∨ (T.probe f.bytes = .found ∧ v.swapfile = some f)) := by
  by_cases ha : Acceptable req tol v
  · rw [allocate_acceptable hn ha] at h ⊢
    refine ⟨?_, format_ok hT h⟩
    unfold Acceptable at ha ⊢
    rwa [nonempty_iff, currentSize_format, ← nonempty_iff]
  · by_cases hf : swapsizeBlocks req ≤ v.free
    · rw [allocate_dd hn ha hf] at h ⊢
      constructor
      · unfold Acceptable
        rw [nonempty_iff, currentSize_format, currentSize_dd (by omega)]
        omega
      · -- `dd` leaves zeros, in which nothing is found.
        obtain ⟨f, hv, hl | ⟨hp, hf⟩⟩ := format_ok hT h
        · exact ⟨f, hv, .inl hl⟩
        · obtain rfl := Option.some.inj hf
          rw [hT.probe_zeros] at hp
          cases hp
    · rw [allocate_no_space hn ha (by omega)] at h
      cases h

/-- A run that ends well leaves nothing to do. -/
theorem allocate_rests (hT : T.Documented) (h : (allocate T req tol v).exit = .ok) :
    Rests T req tol (allocate T req tol v).volume := by
  by_cases hn : swapsizeBlocks req < 10
  · rw [allocate_small hn]
    exact .inl ⟨hn, rfl⟩
  · obtain ⟨ha, f, hf, hl⟩ := allocate_ok hT (by omega) h
    exact .inr ⟨by omega, ha, f, hf, hl.imp_right And.left⟩

theorem allocate_settled (hT : T.Documented) (hreq : 0 ≤ req)
    (h : (allocate T req tol v).exit = .ok) : Settled T req tol v (allocate T req tol v).volume := by
  have hb := swapsizeBlocks_eq hreq
  by_cases hn : swapsizeBlocks req < 10
  · rw [allocate_small hn]
    exact .inl ⟨by omega, rfl⟩
  · obtain ⟨ha, f, hf, hl⟩ := allocate_ok hT (by omega) h
    exact .inr ⟨f, hf, ha.sized hreq hf, hl⟩

theorem allocate_no_space_keeps (h : (allocate T req tol v).exit = .notEnoughSpace) :
    (allocate T req tol v).volume = v := by
  by_cases hn : swapsizeBlocks req < 10
  · rw [allocate_small hn] at h
    cases h
  have hn : 10 ≤ swapsizeBlocks req := by omega
  by_cases ha : Acceptable req tol v
  · rw [allocate_acceptable hn ha] at h
    exact absurd h (not_enough_format _)
  · by_cases hf : swapsizeBlocks req ≤ v.free
    · rw [allocate_dd hn ha hf] at h
      exact absurd h (not_enough_format _)
    · rw [allocate_no_space hn ha (by omega)]

theorem request_nonneg (setting : Line) (memTotal : ℕ) : 0 ≤ (request setting memTotal).1 := by
  unfold request
  split
  · rename_i n hn
    obtain ⟨m, -, rfl⟩ := Option.map_eq_some_iff.mp hn
    have hr := awk_range m
    split
    · exact Int.natCast_nonneg _
    · rename_i hne
      split at hr
      · exact absurd hr hne
      · exact hr
  · exact Int.natCast_nonneg _

/-- After a run that ends well the swap file is as it is to be, and a further
run with any free space changes nothing; a run that ends for lack of space
changes nothing either. -/
theorem haosSwapfile_converges {T : Tools} (hT : T.Documented) (setting : Line) (memTotal : ℕ)
    (v : Volume) :
    ((haosSwapfile T setting memTotal v).exit = .ok →
      Settled T (request setting memTotal).1 (request setting memTotal).2 v
        (haosSwapfile T setting memTotal v).volume ∧
      ∀ n, haosSwapfile T setting memTotal { (haosSwapfile T setting memTotal v).volume with free := n } =
        ⟨.ok, { (haosSwapfile T setting memTotal v).volume with free := n }, []⟩) ∧
    ((haosSwapfile T setting memTotal v).exit = .notEnoughSpace →
      (haosSwapfile T setting memTotal v).volume = v) := by
  refine ⟨fun h => ?_, allocate_no_space_keeps⟩
  have hr := allocate_rests hT h
  exact ⟨allocate_settled hT (request_nonneg _ _) h, fun n => (hr.free n).allocate⟩

/-! ## Space -/

/-- The script ends for lack of space iff the file is not acceptable and there
is no room for the new one in its place; otherwise it keeps an acceptable file,
or creates one of the requested blocks. -/
structure Fits (T : Tools) (req tol : ℤ) (v : Volume) : Prop where
  notEnough : (allocate T req tol v).exit = .notEnoughSpace ↔
    ¬ Acceptable req tol v ∧ v.free + v.occupied < swapsizeBlocks req
  keeps : Acceptable req tol v → .dd ∉ (allocate T req tol v).acts ∧
    (allocate T req tol v).volume.currentSize = v.currentSize
  creates : ¬ Acceptable req tol v → swapsizeBlocks req ≤ v.free + v.occupied →
    .dd ∈ (allocate T req tol v).acts ∧
      (allocate T req tol v).volume.currentSize = swapsizeBlocks req * 4096

/-- It does so iff it is not the room of the old file that the new one needs. -/
theorem fits_iff (T : Tools) (setting : Line) (memTotal : ℕ) (v : Volume)
    (h : 10 ≤ swapsizeBlocks (request setting memTotal).1) :
    Fits T (request setting memTotal).1 (request setting memTotal).2 v ↔
      Acceptable (request setting memTotal).1 (request setting memTotal).2 v ∨
        swapsizeBlocks (request setting memTotal).1 ≤ v.free ∨
        v.free + v.occupied < swapsizeBlocks (request setting memTotal).1 := by
  generalize (request setting memTotal).1 = req at h
  generalize (request setting memTotal).2 = tol
  constructor
  · intro hfits
    by_contra hc
    simp only [not_or, not_le, not_lt] at hc
    obtain ⟨ha, hf, hr⟩ := hc
    have hno := hfits.notEnough.mp (by rw [allocate_no_space h ha hf])
    omega
  · intro hc
    by_cases ha : Acceptable req tol v
    · have he := allocate_acceptable (T := T) h ha
      refine ⟨?_, fun _ => ?_, fun hn => absurd ha hn⟩
      · rw [he]
        exact iff_of_false (not_enough_format _) fun hx => hx.1 ha
      · rw [he, currentSize_format]
        exact ⟨by rcases acts_format (T := T) (v := v) [] with e | e <;> simp [e], rfl⟩
    · have hc := hc.resolve_left ha
      by_cases hf : swapsizeBlocks req ≤ v.free
      · have he := allocate_dd (T := T) h ha hf
        refine ⟨?_, fun hx => absurd hx ha, fun _ _ => ?_⟩
        · rw [he]
          exact iff_of_false (not_enough_format _) fun hx => by omega
        · rw [he, currentSize_format, currentSize_dd (by omega)]
          refine ⟨?_, by omega⟩
          rcases acts_format (T := T) (v := (v.dd (swapsizeBlocks req).toNat).2) [.dd] with e | e <;> simp [e]
      · have he := allocate_no_space (T := T) h ha (by omega)
        refine ⟨?_, fun hx => absurd hx ha, fun _ hr => by omega⟩
        rw [he]
        exact iff_of_true rfl ⟨ha, by omega⟩

end

/-! ## Swap headers -/

/-- The last 10 bytes of the first page. -/
def magic (b : List UInt8) : List UInt8 := (b.drop 4086).take 10

/-- `SWAPSPACE2` -/
def swapspace2 : List UInt8 := [0x53, 0x57, 0x41, 0x50, 0x53, 0x50, 0x41, 0x43, 0x45, 0x32]

/-- `S1SUSPEND`, which marks an image of a suspended system. -/
def s1suspend : List UInt8 := [0x53, 0x31, 0x53, 0x55, 0x53, 0x50, 0x45, 0x4e, 0x44, 0]

/-- The version and the last page of a swap area of this many bytes. -/
def header (n : ℕ) : List UInt8 :=
  [1, 0, 0, 0] ++ (List.range 4).map fun i => UInt8.ofNat ((n / 4096 - 1) / 256 ^ i)

theorem length_header (n : ℕ) : (header n).length = 8 := rfl

theorem length_swapspace2 : swapspace2.length = 10 := rfl

/-- Tools that know two signatures. A swap area has at least 10 pages, and no
label and no identifier here. -/
def headerTools : Tools where
  swaplabel b := magic b = swapspace2
  probe b := if magic b = swapspace2 ∨ magic b = s1suspend then .found else .nothing
  mkswap b :=
    if b.length < 10 * 4096 then (false, b)
    else (true, List.replicate 1024 0 ++ header b.length ++ List.replicate 3054 0 ++ swapspace2 ++
      b.drop 4096)
  length_mkswap b := by
    split
    · rfl
    · rename_i hb
      simp only [List.length_append, List.length_replicate, List.length_drop, length_header,
        length_swapspace2]
      omega

/-- Zeros are none of the signatures. -/
theorem magic_zeros (n : ℕ) : magic (List.replicate n 0) ≠ swapspace2 ∧
    magic (List.replicate n 0) ≠ s1suspend := by
  have key : ∀ l ∈ [swapspace2, s1suspend], magic (List.replicate n 0) ≠ l := by
    intro l hl e
    have hzero : ∀ c ∈ l, c = 0 := by
      rw [← e, magic, List.drop_replicate, List.take_replicate]
      exact fun c hc => List.eq_of_mem_replicate hc
    clear e
    revert l
    decide
  exact ⟨key _ (by simp), key _ (by simp)⟩

theorem documented_headerTools : headerTools.Documented where
  swaplabel_mkswap b h := by
    by_cases hb : b.length < 10 * 4096
    · have hno : (ite (b.length < 10 * 4096) (false, b) _ : Bool × List UInt8).1 = true := h
      rw [if_pos hb] at hno
      cases hno
    · have hlen : (List.replicate 1024 (0 : UInt8) ++ header b.length ++ List.replicate 3054 0).length =
          4086 := by
        simp only [List.length_append, List.length_replicate, length_header]
      have hmagic : magic (List.replicate 1024 0 ++ header b.length ++ List.replicate 3054 0 ++
          swapspace2 ++ b.drop 4096) = swapspace2 := by
        rw [magic, List.append_assoc, ← hlen, List.drop_left]
        rfl
      show decide (magic (ite _ _ _ : Bool × List UInt8).2 = swapspace2) = true
      rw [if_neg hb, hmagic]
      rfl
  probe_zeros n := by
    obtain ⟨h1, h2⟩ := magic_zeros n
    exact if_neg (by simp [h1, h2])

/-- On zeros they make a swap area. -/
theorem format_zeros {v : Volume} {n m : ℕ} (hn : 10 ≤ n)
    (hf : v.swapfile = some ⟨List.replicate (n * 4096) 0, m⟩) (acts : List Act) :
    (format headerTools acts v).exit = .ok := by
  have hlabel : headerTools.swaplabel (List.replicate (n * 4096) 0) = false :=
    decide_eq_false (magic_zeros _).1
  have hmkswap : (headerTools.mkswap (List.replicate (n * 4096) 0)).1 = true := by
    show (ite _ _ _ : Bool × List UInt8).1 = true
    rw [List.length_replicate, if_neg (by omega)]
  unfold format systemdMakefs
  simp only [hf, hlabel, documented_headerTools.probe_zeros, hmkswap, Bool.false_eq_true, if_false,
    if_true]

theorem request_40K : request "40K".toList 0 = (40, 0) := by decide +kernel

/-- On an empty volume a swap file of 10 blocks is created, and formatted. -/
theorem haosSwapfile_creates :
    let r := haosSwapfile headerTools "40K".toList 0 ⟨none, 10⟩
    r.exit = .ok ∧ Settled headerTools (request "40K".toList 0).1 (request "40K".toList 0).2
        ⟨none, 10⟩ r.volume ∧
      ∀ n, haosSwapfile headerTools "40K".toList 0 { r.volume with free := n } =
        ⟨.ok, { r.volume with free := n }, []⟩ := by
  have hok : (haosSwapfile headerTools "40K".toList 0 ⟨none, 10⟩).exit = .ok := by
    rw [haosSwapfile, request_40K, allocate_dd (by decide) (by decide) (by decide)]
    exact format_zeros (n := 10) (by decide) rfl _
  exact ⟨hok, (haosSwapfile_converges documented_headerTools "40K".toList 0 ⟨none, 10⟩).1 hok⟩

theorem currentSize_some (f : Swapfile) (free : ℕ) :
    (⟨some f, free⟩ : Volume).currentSize = f.bytes.length := rfl

/-- A swap area that marks an image of a suspended system, in `n` more blocks. -/
def suspendedArea (n : ℕ) : List UInt8 :=
  List.replicate 4086 0 ++ (s1suspend ++ List.replicate (n * 4096) 0)

theorem magic_suspendedArea (n : ℕ) : magic (suspendedArea n) = s1suspend := by
  rw [magic, suspendedArea, List.drop_left' List.length_replicate]
  exact List.take_left' rfl

theorem length_suspendedArea (n : ℕ) : (suspendedArea n).length = (n + 1) * 4096 := by
  have hlen : s1suspend.length = 10 := rfl
  rw [suspendedArea, List.length_append, List.length_append, List.length_replicate,
    List.length_replicate, hlen]
  omega

/-- It is no swap area, but `systemd-makefs` finds its mark. -/
theorem tools_suspendedArea (n : ℕ) : headerTools.swaplabel (suspendedArea n) = false ∧
    headerTools.probe (suspendedArea n) = .found := by
  have hm := magic_suspendedArea n
  generalize suspendedArea n = b at hm
  have hne : magic b ≠ swapspace2 := by
    rw [hm]
    decide
  exact ⟨decide_eq_false hne, if_pos (.inr hm)⟩

/-- A swap file of 10 blocks, from before the system was suspended. -/
def suspended : Volume := ⟨some ⟨suspendedArea 9, 10⟩, 0⟩

/-- The script leaves it as it is, and ends well. -/
theorem suspended_unformatted : headerTools.Documented ∧
    haosSwapfile headerTools "40K".toList 0 suspended = ⟨.ok, suspended, []⟩ ∧
      ∃ f, suspended.swapfile = some f ∧ headerTools.swaplabel f.bytes = false := by
  have hsize : suspended.currentSize = 10 * 4096 := by
    rw [suspended, currentSize_some, length_suspendedArea]
    norm_num
  have ha : Acceptable 40 0 suspended := by
    rw [Acceptable, nonempty_iff, hsize]
    decide
  refine ⟨documented_headerTools, ?_, ⟨suspendedArea 9, 10⟩, rfl, (tools_suspendedArea 9).1⟩
  rw [haosSwapfile, request_40K, allocate_acceptable (by decide) ha]
  exact format_formatted (f := ⟨suspendedArea 9, 10⟩) rfl (.inr (tools_suspendedArea 9).2) []

/-- A swap file of 11 blocks. -/
def elevenBlocks (free : ℕ) : Volume :=
  ⟨some ⟨(headerTools.mkswap (List.replicate (11 * 4096) 0)).2, 11⟩, free⟩

theorem elevenBlocks_size (free : ℕ) : (elevenBlocks free).currentSize = 11 * 4096 := by
  rw [elevenBlocks, currentSize_some, headerTools.length_mkswap, List.length_replicate]
  norm_num

/-- Beside it, there is room for one of 10 blocks. -/
theorem fits_beside :
    Fits headerTools (request "40K".toList 0).1 (request "40K".toList 0).2 (elevenBlocks 10) :=
  (fits_iff headerTools "40K".toList 0 (elevenBlocks 10) (by rw [request_40K]; decide)).mpr
    (.inr (.inl (by rw [request_40K]; decide)))

/-- Beside it there is none, but in its place there is. -/
theorem shrink_refused : 10 ≤ swapsizeBlocks (request "40K".toList 0).1 ∧
    ¬ Fits headerTools (request "40K".toList 0).1 (request "40K".toList 0).2 (elevenBlocks 5) := by
  rw [request_40K]
  refine ⟨by decide, fun h => ?_⟩
  have ha : ¬ Acceptable 40 0 (elevenBlocks 5) := by
    rw [Acceptable, nonempty_iff, elevenBlocks_size]
    decide
  have hno := h.notEnough.mp (by rw [allocate_no_space (by decide) ha (by decide)])
  exact absurd hno.2 (by decide)

end HassOS.Swap
