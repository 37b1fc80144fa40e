import HassOS.Framework.Run
import HassOS.Framework.Text

/-!
# The container images of a build (`fetch-container-image.sh`)

All builds share a download directory (`HASSIO_DL_DIR`). An invocation finds
out the name of its image, the tag and, from `skopeo inspect`, the digest; the
file of that name in the directory is taken if it is there, and else fetched
with `skopeo copy`, which is tried four times. The file is then copied to the
directory of the build. A lock makes that one step.

The directory keeps the first file that an invocation leaves under a name, as
complete as it is: a later invocation for the same name takes it
(`only_complete_iff`), also if it is for another architecture (`own_images_iff`).
-/

namespace HassOS.Images

open Framework

variable {α : Type}

/-- A file of the download directory; the archives are those of `skopeo`. -/
inductive File (α : Type) where
  /-- As a copy that succeeded left it. -/
  | archive (a : α)
  /-- As a copy left it that did not succeed. -/
  | truncated
  deriving DecidableEq

/-- How an attempt of `skopeo copy` ends. -/
inductive Copy where
  | ok
  /-- It fails, and has written to the file or not. -/
  | failed (wrote : Bool)
  /-- The script is killed during the copy, or else before the next one. -/
  | killed (wrote : Bool)
  deriving DecidableEq

/-- `version.json` -/
structure Versions where
  images : Line → Option Line
  tags : Line → Option Line

structure Invocation where
  arch : Line
  machine : Line
  version : Versions
  imageJsonName : Line
  /-- What `skopeo inspect` reports, unless all its attempts fail. -/
  digest : Option Line
  /-- The ends of the attempts of `skopeo copy`. -/
  copies : ℕ → Copy

/-- An image as the invocation names it. -/
structure Image where
  name : Line
  fullName : Line
  digest : Line

/-- jq's `sub(pattern; s)` for a pattern without operators: the first occurrence. -/
def sub (pattern s l : Line) : Line :=
  match (Pat.ofRegex pattern).find l with
  | some (a, b) => a ++ (s ++ b)
  | none => l

/-- `${l//[:\/]/_}` -/
def clean (l : Line) : Line := l.map fun c => if c = ':' ∨ c = '/' then '_' else c

/-- `image_file_name` -/
def Image.fileName (m : Image) : Line := clean m.fullName ++ '@' :: clean m.digest

/-- What a copy leaves of the file. -/
def left (wrote : Bool) (f : Option (File α)) : Option (File α) := if wrote then some .truncated else f

/-- `retry`: the file, and whether a copy succeeded. -/
def retry (a : α) : ℕ → (ℕ → Copy) → Option (File α) → Option (File α) × Bool
  | 0, copies, f =>
    match copies 0 with
    | .ok => (some (.archive a), true)
    | .failed w | .killed w => (left w f, false)
  | n + 1, copies, f =>
    match copies 0 with
    | .ok => (some (.archive a), true)
    | .failed w => retry a n (fun k => copies (k + 1)) (left w f)
    | .killed w => (left w f, false)

/-- The attempt `k` is made: the earlier ones failed. -/
def Attempted (copies : ℕ → Copy) (retries k : ℕ) : Prop := k ≤ retries ∧ ∀ j < k, ∃ w, copies j = .failed w

/-- A copy succeeds. -/
def Completes (copies : ℕ → Copy) (retries : ℕ) : Prop := ∃ k, Attempted copies retries k ∧ copies k = .ok

/-- A copy that does not succeed writes to the file. -/
def Writes (copies : ℕ → Copy) (retries : ℕ) : Prop :=
  ∃ k, Attempted copies retries k ∧ (copies k = .failed true ∨ copies k = .killed true)

namespace Invocation

variable (i : Invocation)

/-- The image, unless the script stops before (`set -e`). -/
def image : Option Image := do
  let template ← i.version.images i.imageJsonName
  let tag ← i.version.tags i.imageJsonName
  let digest ← i.digest
  let name := sub "{machine}".toList i.machine (sub "{arch}".toList i.arch template)
  some ⟨name, name ++ ':' :: tag, digest⟩

/-- The architecture as `skopeo` has it. -/
def ociArch : Line := if i.arch = "aarch64".toList then "arm64".toList else i.arch

variable (registry : Line → Line → α)

/-- The archive that a copy stores: `registry` has one for each architecture and
each `name@digest`. -/
def archive (m : Image) : α := registry i.ociArch (m.name ++ '@' :: m.digest)

/-- The download, into no file. -/
def download (m : Image) : Option (File α) × Bool := retry (i.archive registry m) 3 i.copies none

/-- The step under the lock: the download directory, and what is copied to the
build. -/
def fetch (dl : Line → Option (File α)) : (Line → Option (File α)) × Option (File α) :=
  match i.image with
  | none => (dl, none)
  | some m =>
    match dl m.fileName with
    | some f => (dl, some f)
    | none =>
      let (f, ok) := i.download registry m
      (Function.update dl m.fileName f, if ok then f else none)

/-- The file in the download directory. -/
def path : Option Line := i.image.map Image.fileName

/-- What is left there, if there was no file before. -/
def leaves : Option (File α) := i.image.bind fun m => (i.download registry m).1

/-- It copies the whole image, if there is no file yet; -/
def Complete : Prop := i.image.isSome ∧ Completes i.copies 3

/-- or it leaves a part of it. -/
def Part : Prop := i.image.isSome ∧ ¬ Completes i.copies 3 ∧ Writes i.copies 3

/-- The archive of the invocation's own image. -/
def own : Option α := i.image.map (i.archive registry)

end Invocation

/-- The download directory after some invocations, from an empty one. -/
def directory (registry : Line → Line → α) (is : List Invocation) : Line → Option (File α) :=
  run (fun dl i => (i.fetch registry dl).1) (fun _ => none) is

/-- What an invocation of the run copies to its build meets `P`. -/
def Copied (registry : Line → Line → α) (P : Invocation → File α → Prop) (is : List Invocation) : Prop :=
  ∀ pre i post, is = pre ++ i :: post → ∀ f ∈ (i.fetch registry (directory registry pre)).2, P i f

/-- Only complete archives are copied to builds. -/
def OnlyComplete (registry : Line → Line → α) (is : List Invocation) : Prop :=
  Copied registry (fun _ f => ∃ a, f = .archive a) is

/-- Each build gets the image of its own architecture. -/
def OnlyOwn (registry : Line → Line → α) (is : List Invocation) : Prop :=
  Copied registry (fun i f => ∃ a ∈ i.own registry, f = .archive a) is

/-- `e` is the first invocation of the run that leaves a file for `f`, which is later. -/
structure Serves (is : List Invocation) (e f : Invocation) : Prop where
  ex : ∃ pre mid post, is = pre ++ e :: (mid ++ f :: post) ∧
    ∀ d ∈ pre, d.path = e.path → ¬ d.Complete ∧ ¬ d.Part
  path : f.path = e.path
  leaves : e.Complete ∨ e.Part

section

variable {a : α} {copies : ℕ → Copy} {n : ℕ}

theorem attempted_zero (copies : ℕ → Copy) (n : ℕ) : Attempted copies n 0 :=
  ⟨Nat.zero_le n, fun _ h => absurd h (Nat.not_lt_zero _)⟩

theorem attempted_succ {k : ℕ} :
    Attempted copies (n + 1) (k + 1) ↔ (∃ w, copies 0 = .failed w) ∧ Attempted (fun j => copies (j + 1)) n k := by
  simp only [Attempted, Nat.forall_lt_succ_left, Nat.add_le_add_iff_right]
  tauto

/-- An attempt with an end of some kind: it is the first, or it comes after one that failed. -/
theorem exists_attempted {P : Copy → Prop} :
    (∃ k, Attempted copies (n + 1) k ∧ P (copies k)) ↔ P (copies 0) ∨
      (∃ w, copies 0 = .failed w) ∧ ∃ k, Attempted (fun j => copies (j + 1)) n k ∧ P (copies (k + 1)) := by
  constructor
  · rintro ⟨k, hk, hP⟩
    cases k with
    | zero => exact .inl hP
    | succ k =>
      obtain ⟨hf, hk⟩ := attempted_succ.mp hk
      exact .inr ⟨hf, k, hk, hP⟩
  · rintro (hP | ⟨hf, k, hk, hP⟩)
    · exact ⟨0, attempted_zero copies _, hP⟩
    · exact ⟨k + 1, attempted_succ.mpr ⟨hf, hk⟩, hP⟩

theorem exists_attempted_zero {P : Copy → Prop} :
    (∃ k, Attempted copies 0 k ∧ P (copies k)) ↔ P (copies 0) := by
  constructor
  · rintro ⟨k, ⟨hk, -⟩, hP⟩
    rwa [Nat.le_zero.mp hk] at hP
  · exact fun hP => ⟨0, attempted_zero copies 0, hP⟩

theorem completes_zero : Completes copies 0 ↔ copies 0 = .ok := exists_attempted_zero (P := (· = .ok))

theorem completes_succ : Completes copies (n + 1) ↔ copies 0 = .ok ∨
    (∃ w, copies 0 = .failed w) ∧ Completes (fun j => copies (j + 1)) n :=
  exists_attempted (P := (· = .ok))

theorem writes_zero : Writes copies 0 ↔ copies 0 = .failed true ∨ copies 0 = .killed true :=
  exists_attempted_zero (P := fun c => c = .failed true ∨ c = .killed true)

theorem writes_succ : Writes copies (n + 1) ↔ (copies 0 = .failed true ∨ copies 0 = .killed true) ∨
    (∃ w, copies 0 = .failed w) ∧ Writes (fun j => copies (j + 1)) n :=
  exists_attempted (P := fun c => c = .failed true ∨ c = .killed true)

open Classical in
/-- What the attempts leave, and whether one succeeded. -/
theorem retry_eq (a : α) (n : ℕ) (copies : ℕ → Copy) (f : Option (File α)) :
    retry a n copies f = if Completes copies n then (some (.archive a), true)
      else (if Writes copies n then some .truncated else f, false) := by
  induction n generalizing copies f with
  | zero =>
    simp only [retry, completes_zero, writes_zero]
    rcases copies 0 with _ | w | w
    · simp
    · simp [left]
    · simp [left]
  | succ n ih =>
    simp only [retry, completes_succ, writes_succ]
    rcases copies 0 with _ | w | w
    · simp
    · cases w
      · simp [ih, left]
      · simp [ih, left]
    · simp [left]

end

section

variable {registry : Line → Line → α} {i : Invocation} {m : Image}

/-- The download of an invocation that stores its image, -/
theorem download_complete (h : Completes i.copies 3) (m : Image) :
    i.download registry m = (some (.archive (i.archive registry m)), true) := by
  rw [Invocation.download, retry_eq, if_pos h]

/-- and of one that leaves a part of it. -/
theorem download_part (h : ¬ Completes i.copies 3) (hw : Writes i.copies 3) (m : Image) :
    i.download registry m = (some .truncated, false) := by
  rw [Invocation.download, retry_eq, if_neg h, if_pos hw]

theorem leaves_complete (registry : Line → Line → α) (h : i.Complete) :
    ∃ a, i.own registry = some a ∧ i.leaves registry = some (.archive a) := by
  obtain ⟨m, hm⟩ := Option.isSome_iff_exists.mp h.1
  refine ⟨i.archive registry m, ?_, ?_⟩
  · rw [Invocation.own, hm, Option.map_some]
  · rw [Invocation.leaves, hm, Option.bind_some, download_complete h.2]

theorem leaves_part (h : i.Part) : i.leaves registry = some .truncated := by
  obtain ⟨m, hm⟩ := Option.isSome_iff_exists.mp h.1
  rw [Invocation.leaves, hm, Option.bind_some, download_part h.2.1 h.2.2]

theorem leaves_eq_none_iff : i.leaves registry = none ↔ ¬ i.Complete ∧ ¬ i.Part := by
  unfold Invocation.leaves Invocation.Complete Invocation.Part
  cases i.image with
  | none => simp
  | some m =>
    rw [Option.bind_some, Invocation.download, retry_eq]
    split_ifs with h hw
    · simp [h]
    · simp [h, hw]
    · simp [h, hw]

theorem fetch_none {dl : Line → Option (File α)} (h : i.image = none) : i.fetch registry dl = (dl, none) := by
  unfold Invocation.fetch
  rw [h]

theorem fetch_hit {dl : Line → Option (File α)} {f : File α} (h : i.image = some m)
    (hf : dl m.fileName = some f) : i.fetch registry dl = (dl, some f) := by
  unfold Invocation.fetch
  rw [h]
  dsimp only
  rw [hf]

theorem fetch_miss {dl : Line → Option (File α)} (h : i.image = some m) (hf : dl m.fileName = none) :
    i.fetch registry dl = (Function.update dl m.fileName (i.download registry m).1,
      if (i.download registry m).2 then (i.download registry m).1 else none) := by
  unfold Invocation.fetch
  rw [h]
  dsimp only
  rw [hf]

/-- The step under the lock keeps every file that is there, and adds its own. -/
theorem fetch_fst (registry : Line → Line → α) (i : Invocation) (dl : Line → Option (File α)) (p : Line) :
    (i.fetch registry dl).1 p = (dl p).or (if i.path = some p then i.leaves registry else none) := by
  cases hm : i.image with
  | none => simp [fetch_none hm, Invocation.path, hm]
  | some m =>
    have hl : i.leaves registry = (i.download registry m).1 := by rw [Invocation.leaves, hm, Option.bind_some]
    have hp : i.path = some m.fileName := by rw [Invocation.path, hm, Option.map_some]
    rw [hl, hp]
    by_cases he : m.fileName = p
    · subst he
      rw [if_pos rfl]
      cases hf : dl m.fileName with
      | some f => simp only [fetch_hit hm hf, hf, Option.some_or]
      | none => simp only [fetch_miss hm hf, Function.update_self, Option.none_or]
    · rw [if_neg fun h => he (Option.some.inj h), Option.or_none]
      cases hf : dl m.fileName with
      | some f => rw [fetch_hit hm hf]
      | none => simp only [fetch_miss hm hf, Function.update_of_ne (Ne.symm he)]

/-- The directory has the first file that was left under a path. -/
theorem directory_eq (registry : Line → Line → α) (is : List Invocation) (p : Line) :
    directory registry is p = is.findSome? fun i => if i.path = some p then i.leaves registry else none := by
  have h := run_first (fun dl : Line → Option (File α) => dl p)
    (fun dl i => fetch_fst registry i dl p) (fun _ => none) is
  rwa [Option.none_or] at h

/-- What is copied: the file that is there, or what a successful download stored. -/
theorem mem_fetch_snd {dl : Line → Option (File α)} {f : File α} : f ∈ (i.fetch registry dl).2 ↔
    ∃ m, i.image = some m ∧ (dl m.fileName = some f ∨
      dl m.fileName = none ∧ Completes i.copies 3 ∧ f = .archive (i.archive registry m)) := by
  cases hm : i.image with
  | none => simp [fetch_none hm]
  | some m =>
    simp only [Option.some.injEq, exists_eq_left']
    cases hf : dl m.fileName with
    | some g => simp [fetch_hit hm hf]
    | none =>
      rw [fetch_miss hm hf]
      by_cases h : Completes i.copies 3
      · simp [download_complete h, h, eq_comm]
      · simp [Invocation.download, retry_eq, h]

theorem sub_clean {re s l : Line} (h : (Pat.ofRegex re).Clean l) : sub re s l = l := by
  unfold sub
  rw [show (Pat.ofRegex re).find l = none from h]

/-- Builds that differ in the architecture alone share a path, if the name of the
image has no place for it. -/
theorem path_eq_of_clean {e f : Invocation} (hv : e.version = f.version) (hn : e.imageJsonName = f.imageJsonName)
    (hm : e.machine = f.machine) (hd : e.digest = f.digest)
    (hc : ∀ t ∈ e.version.images e.imageJsonName, (Pat.ofRegex "{arch}".toList).Clean t) : e.path = f.path := by
  unfold Invocation.path Invocation.image
  rw [← hv, ← hn, ← hm, ← hd]
  cases ht : e.version.images e.imageJsonName with
  | none => rfl
  | some t => simp only [Option.bind_eq_bind, Option.bind_some, sub_clean (hc t ht)]

theorem path_eq_some {p : Line} : i.path = some p ↔ ∃ m, i.image = some m ∧ m.fileName = p := by
  rw [Invocation.path, Option.map_eq_some_iff]

/-- What is copied comes from the invocation itself, or from the first one that
left a file under its path. -/
theorem copied_iff {P : Invocation → File α → Prop} (hown : ∀ i, ∀ a ∈ i.own registry, P i (.archive a))
    (is : List Invocation) :
    Copied registry P is ↔ ∀ e f, Serves is e f → ∀ x ∈ e.leaves registry, P f x := by
  constructor
  · rintro h e f ⟨⟨pre, mid, post, rfl, hpre⟩, hp, hl⟩ x hx
    refine h (pre ++ e :: mid) f post (by simp) x (mem_fetch_snd.mpr ?_)
    have hs : (e.image).isSome := hl.elim And.left And.left
    obtain ⟨m', hm'⟩ := Option.isSome_iff_exists.mp hs
    have hq : e.path = some m'.fileName := path_eq_some.mpr ⟨m', hm', rfl⟩
    obtain ⟨m, hm, hn⟩ := path_eq_some.mp (hp.trans hq)
    refine ⟨m, hm, .inl ?_⟩
    rw [hn, directory_eq, List.findSome?_eq_some_iff]
    refine ⟨pre, e, mid, rfl, by rw [if_pos hq]; exact hx, fun d hd => ?_⟩
    split_ifs with hdp
    · exact leaves_eq_none_iff.mpr (hpre d hd (hdp.trans hq.symm))
    · rfl
  · rintro h pre f post rfl x hx
    obtain ⟨m, hm, hd | ⟨hd, hc, rfl⟩⟩ := mem_fetch_snd.mp hx
    · rw [directory_eq, List.findSome?_eq_some_iff] at hd
      obtain ⟨pre, e, mid, rfl, he, hpre⟩ := hd
      have hf : f.path = some m.fileName := path_eq_some.mpr ⟨m, hm, rfl⟩
      by_cases hq : e.path = some m.fileName
      · rw [if_pos hq] at he
        refine h e f ⟨⟨pre, mid, post, by simp, fun d hd hdp => ?_⟩, hf.trans hq.symm, ?_⟩ x he
        · have hn := hpre d hd
          rw [if_pos (hdp.trans hq)] at hn
          exact leaves_eq_none_iff.mp hn
        · by_contra hn
          rw [not_or, ← @leaves_eq_none_iff _ registry] at hn
          rw [hn] at he
          cases he
      · rw [if_neg hq] at he
        cases he
    · exact hown f _ (by rw [Invocation.own, hm]; rfl)

/-- Each later invocation for a path copies what the first one that left a file
there stored: a whole archive, if that one was not cut off. -/
theorem only_complete_iff (registry : Line → Line → α) (is : List Invocation) :
    OnlyComplete registry is ↔ ∀ e f, Serves is e f → e.Complete := by
  rw [OnlyComplete, copied_iff fun _ a _ => ⟨a, rfl⟩]
  refine forall₂_congr fun e f => forall_congr' fun hs => ?_
  rcases hs.leaves with hc | hp
  · obtain ⟨a, -, ha⟩ := leaves_complete registry hc
    simp [ha, hc]
  · have hn : ¬ e.Complete := fun hc => hp.2.1 hc.2
    simp [leaves_part hp, hn]

/-- The version file and the digest of the examples. -/
def dnsVersion : Versions where
  images _ := some "home-assistant/hassio-dns".toList
  tags _ := some "2025.08.0".toList

/-- A build for `arch` of that image, with these ends of the copies. -/
def dnsBuild (arch : Line) (copies : ℕ → Copy) : Invocation :=
  ⟨arch, "generic".toList, dnsVersion, "dns".toList, some "sha256:1c".toList, copies⟩

/-- A build is killed during the copy, and the next one takes what it left. -/
theorem truncated_copied : ¬ OnlyComplete (fun arch _ => arch)
    [dnsBuild "amd64".toList fun _ => .killed true, dnsBuild "amd64".toList fun _ => .ok] := by
  intro h
  have hc : ((dnsBuild "amd64".toList fun _ => .ok).fetch (fun arch _ => arch) (directory (fun arch _ => arch)
      [dnsBuild "amd64".toList fun _ => .killed true])).2 = some .truncated := by decide +kernel
  obtain ⟨a, ha⟩ := h [_] _ [] rfl _ hc
  cases ha

/-- It has the image of its own architecture if the first one asked for the same. -/
theorem own_images_iff (registry : Line → Line → α) (is : List Invocation) :
    OnlyOwn registry is ↔ ∀ e f, Serves is e f → e.Complete ∧ e.own registry = f.own registry := by
  rw [OnlyOwn, copied_iff fun _ a ha => ⟨a, ha, rfl⟩]
  refine forall₂_congr fun e f => forall_congr' fun hs => ?_
  rcases hs.leaves with hc | hp
  · obtain ⟨a, hown, ha⟩ := leaves_complete registry hc
    simp [ha, hc, hown, eq_comm]
  · have hn : ¬ e.Complete := fun hc => hp.2.1 hc.2
    simp [leaves_part hp, hn]

/-- Two builds of one version, for two architectures: without a placeholder in
the name of the image, the second gets the image of the first. -/
theorem other_architecture_copied : ¬ OnlyOwn (fun arch _ => arch)
    [dnsBuild "amd64".toList fun _ => .ok, dnsBuild "aarch64".toList fun _ => .ok] := by
  intro h
  have hc : ((dnsBuild "aarch64".toList fun _ => .ok).fetch (fun arch _ => arch) (directory (fun arch _ => arch)
      [dnsBuild "amd64".toList fun _ => .ok])).2 = some (.archive "amd64".toList) := by decide +kernel
  have ho : (dnsBuild "aarch64".toList fun _ => .ok).own (fun arch _ => arch) = some "arm64".toList := by
    decide +kernel
  obtain ⟨a, ha, he⟩ := h [_] _ [] rfl _ hc
  rw [ho] at ha
  cases ha
  exact absurd he (by decide)

end

end HassOS.Images
