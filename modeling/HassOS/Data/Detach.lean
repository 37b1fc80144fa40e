import HassOS.Data.Migration
import Mathlib.Data.List.Nodup

/-!
# Data partitions of other disks (`haos-data-disk-detach`)

On the first boot the service takes the label `hassos-data` from the data
partitions that are not to be mounted. On most boards these are all that are
not on the disk of the root file system. On the Yellow the one on the first
NVMe disk is preferred to the one on the eMMC: the loop over the partitions
leaves those of both kinds alone, remembers the last of each (of the eMMC's,
only if the root is there too), and the service decides after the loop.

Hence a partition on another `mmc` disk than the root's keeps its label, and so
does one on an NVMe disk beside that of a root on neither kind of disk
(`detach_leaves_one_iff`).
-/

namespace HassOS.Data

open Framework (Line run run_last run_set)

def hassosDataDis : Line := "hassos-data-dis".toList

/-- The machine as the service's commands show it. -/
structure Host where
  /-- The output of `rdev`. -/
  rdev : Line
  /-- `VARIANT_ID` of `/etc/os-release` -/
  variantId : Line
  /-- The partitions in the order in which `blkid` lists them. -/
  devices : List Line
  /-- `lsblk -no pkname` -/
  pkname : Line → Line
  nodup : devices.Nodup
  named : [] ∉ devices

/-- The label of each partition. -/
abbrev Labels := Line → Line

/-- The service's `case "${datadev}"` -/
inductive DiskKind where
  /-- `mmc*` -/
  | mmc
  /-- `nvme0*` -/
  | nvme0
  | other
  deriving DecidableEq

def diskKind (datadev : Line) : DiskKind :=
  if "mmc".toList <+: datadev then .mmc
  else if "nvme0".toList <+: datadev then .nvme0
  else .other

/-- `e2label "${1}" hassos-data-dis` -/
def disableDataPartition (labels : Labels) (datapart : Line) : Labels :=
  Function.update labels datapart hassosDataDis

/-- The variables of the loop on the Yellow; an empty one is unset. -/
structure YellowLoop where
  labels : Labels
  emmcDataPartition : Line
  nvmeDataPartition : Line

namespace Host

variable (h : Host)

/-- `rdev | cut -f 1 -d ' '` -/
def rootpart : Line := h.rdev.takeWhile (· ≠ ' ')

def rootdev : Line := h.pkname h.rootpart

/-- `blkid --match-token LABEL="hassos-data"` -/
def datapartitions (labels : Labels) : List Line := h.devices.filter (labels · = hassosData)

/-- `VARIANT_ID` is `yellow`. -/
def Yellow : Prop := h.variantId = "yellow".toList

instance : Decidable h.Yellow := inferInstanceAs (Decidable (_ = _))

/-- The body of the loop on the Yellow. -/
def yellowStep (s : YellowLoop) (datapart : Line) : YellowLoop :=
  let datadev := h.pkname datapart
  match diskKind datadev with
  | .mmc => if h.rootdev = datadev then { s with emmcDataPartition := datapart } else s
  | .nvme0 => { s with nvmeDataPartition := datapart }
  | .other =>
    if h.rootdev ≠ datadev then { s with labels := disableDataPartition s.labels datapart } else s

/-- The loop, and the decision after it. -/
def yellow (labels : Labels) : Labels :=
  let s := run h.yellowStep ⟨labels, [], []⟩ (h.datapartitions labels)
  if s.emmcDataPartition ≠ [] ∧ s.nvmeDataPartition ≠ [] then
    disableDataPartition s.labels s.emmcDataPartition
  else s.labels

/-- The body of the loop on other boards. -/
def otherStep (labels : Labels) (datapart : Line) : Labels :=
  if h.rootdev ≠ h.pkname datapart then disableDataPartition labels datapart else labels

/-- The labels after the service, if every `e2label` succeeds. -/
def dataDiskDetach (labels : Labels) : Labels :=
  if h.Yellow then h.yellow labels else run h.otherStep labels (h.datapartitions labels)

/-- The labelled partitions are each on their own disk. -/
def OwnDisks (labels : Labels) : Prop := ((h.datapartitions labels).map h.pkname).Nodup

instance (labels : Labels) : Decidable (h.OwnDisks labels) := inferInstanceAs (Decidable (List.Nodup _))

/-- The partition is the one to be mounted: on the Yellow that on `nvme0`, if
there is one, and else that on the disk of the root. -/
def Preferred (labels : Labels) (p : Line) : Prop :=
  if h.Yellow ∧ ∃ q ∈ h.datapartitions labels, diskKind (h.pkname q) = .nvme0 then
    diskKind (h.pkname p) = .nvme0
  else h.pkname p = h.rootdev

/-- After the service, that partition and no other has the label. -/
def LeavesOne (labels : Labels) : Prop :=
  ∃ p, h.datapartitions (h.dataDiskDetach labels) = [p] ∧ h.Preferred labels p

/-- A data partition that loses its label on the Yellow: in the loop, or after it. -/
def YellowDrops (labels : Labels) (q : Line) : Prop :=
  diskKind (h.pkname q) = .other ∧ h.pkname q ≠ h.rootdev ∨
    (diskKind (h.pkname q) = .mmc ∧ h.pkname q = h.rootdev) ∧
      ∃ p ∈ h.datapartitions labels, diskKind (h.pkname p) = .nvme0

variable {h : Host} {labels : Labels} {p q : Line}

theorem mem_datapartitions : p ∈ h.datapartitions labels ↔ p ∈ h.devices ∧ labels p = hassosData := by
  simp [datapartitions]

theorem ne_nil_of_mem (hp : p ∈ h.datapartitions labels) : p ≠ [] :=
  fun e => h.named (e ▸ (mem_datapartitions.mp hp).1)

theorem disableDataPartition_apply :
    disableDataPartition labels p q = if q = p then hassosDataDis else labels q :=
  Function.update_apply labels p hassosDataDis q

/-! ## What the loops leave -/

section

variable {parts : List Line}

/-- The loop on other boards. -/
theorem run_otherStep : run h.otherStep labels parts q =
    if q ∈ parts ∧ h.pkname q ≠ h.rootdev then hassosDataDis else labels q := by
  have hstep : ∀ (s : Labels) e, h.otherStep s e q =
      if e = q ∧ h.pkname e ≠ h.rootdev then hassosDataDis else s q := by
    intro s e
    unfold otherStep
    by_cases hr : h.rootdev = h.pkname e
    · simp [hr]
    · simp [hr, Ne.symm hr, disableDataPartition_apply, eq_comm]
  rw [run_set (fun s : Labels => s q) hstep]
  simp

/-- The loop on the Yellow: the disks of neither kind. -/
theorem run_yellowStep_labels {s : YellowLoop} : (run h.yellowStep s parts).labels q =
    if q ∈ parts ∧ diskKind (h.pkname q) = .other ∧ h.pkname q ≠ h.rootdev then hassosDataDis
    else s.labels q := by
  have hstep : ∀ s e, (h.yellowStep s e).labels q =
      if e = q ∧ diskKind (h.pkname e) = .other ∧ h.pkname e ≠ h.rootdev then hassosDataDis
      else s.labels q := by
    intro s e
    unfold yellowStep
    by_cases hr : h.rootdev = h.pkname e
    · cases hk : diskKind (h.pkname e) <;> simp [hk, hr]
    · cases hk : diskKind (h.pkname e) <;>
        simp [hk, hr, Ne.symm hr, disableDataPartition_apply, eq_comm]
  rw [run_set (fun s : YellowLoop => s.labels q) hstep]
  simp

/-- The eMMC's partition: the last one on the disk of the root, if that is an
eMMC. -/
theorem run_yellowStep_emmc : (run h.yellowStep ⟨labels, [], []⟩ parts).emmcDataPartition =
    ((parts.filter fun e => diskKind (h.pkname e) = .mmc ∧ h.pkname e = h.rootdev).getLast?).getD [] := by
  rw [run_last YellowLoop.emmcDataPartition (f := id)
    fun e => decide (diskKind (h.pkname e) = .mmc ∧ h.pkname e = h.rootdev)]
  · rw [Option.map_id_fun, id]
  · intro s e
    unfold yellowStep
    by_cases hr : h.rootdev = h.pkname e
    · cases hk : diskKind (h.pkname e) <;> simp [hk, hr]
    · cases hk : diskKind (h.pkname e) <;> simp [hk, hr, Ne.symm hr]

theorem run_yellowStep_nvme : (run h.yellowStep ⟨labels, [], []⟩ parts).nvmeDataPartition =
    ((parts.filter fun e => diskKind (h.pkname e) = .nvme0).getLast?).getD [] := by
  rw [run_last YellowLoop.nvmeDataPartition (f := id)
    fun e => decide (diskKind (h.pkname e) = .nvme0)]
  · rw [Option.map_id_fun, id]
  · intro s e
    unfold yellowStep
    by_cases hr : h.rootdev = h.pkname e
    · cases hk : diskKind (h.pkname e) <;> simp [hk, hr]
    · cases hk : diskKind (h.pkname e) <;> simp [hk, hr]

end

theorem OwnDisks.eq (own : h.OwnDisks labels) (hp : p ∈ h.datapartitions labels)
    (hq : q ∈ h.datapartitions labels) (e : h.pkname p = h.pkname q) : p = q :=
  List.inj_on_of_nodup_map own hp hq e

theorem getLast?_getD_ne_nil {l : List Line} (hl : ∀ p ∈ l, p ≠ []) :
    l.getLast?.getD [] ≠ [] ↔ ∃ p, p ∈ l := by
  cases hp : l.getLast? with
  | none => simp [List.getLast?_eq_none_iff.mp hp]
  | some p =>
    have hmem : p ∈ l := List.mem_of_getLast? hp
    exact iff_of_true (hl p hmem) ⟨p, hmem⟩

/-- The loop over all data partitions remembers one on an NVMe disk iff there
is one, -/
theorem nvme_remembered :
    (run h.yellowStep ⟨labels, [], []⟩ (h.datapartitions labels)).nvmeDataPartition ≠ [] ↔
      ∃ p ∈ h.datapartitions labels, diskKind (h.pkname p) = .nvme0 := by
  rw [run_yellowStep_nvme, getLast?_getD_ne_nil fun p hp => ne_nil_of_mem (List.mem_filter.mp hp).1]
  simp

/-- and the one on the eMMC of the root, if there is one. -/
theorem emmc_remembered (own : h.OwnDisks labels) :
    (run h.yellowStep ⟨labels, [], []⟩ (h.datapartitions labels)).emmcDataPartition = q ∧ q ≠ [] ↔
      q ∈ h.datapartitions labels ∧ diskKind (h.pkname q) = .mmc ∧ h.pkname q = h.rootdev := by
  rw [run_yellowStep_emmc]
  constructor
  · intro hq
    have hmem := List.mem_of_getLast? (Option.getD_eq_iff.mp hq.1 |>.resolve_right fun e => hq.2 e.2.symm)
    simpa using hmem
  · intro hq
    have hmem : q ∈ (h.datapartitions labels).filter
        fun e => diskKind (h.pkname e) = .mmc ∧ h.pkname e = h.rootdev := by simpa using hq
    refine ⟨?_, ne_nil_of_mem hq.1⟩
    cases hl : List.getLast? _ with
    | none => exact absurd (List.getLast?_eq_none_iff.mp hl) (List.ne_nil_of_mem hmem)
    | some p =>
      have hp := List.mem_of_getLast? hl
      simp only [List.mem_filter, decide_eq_true_eq] at hp
      exact own.eq hp.1 hq.1 (hp.2.2.trans hq.2.2.symm)

/-- The labels after the service on the Yellow. -/
theorem yellow_apply (own : h.OwnDisks labels) [Decidable (h.YellowDrops labels q)] :
    h.yellow labels q =
      if q ∈ h.datapartitions labels ∧ h.YellowDrops labels q then hassosDataDis else labels q := by
  have hnvme := @nvme_remembered h labels
  have hemmc := emmc_remembered (q := q) own
  have hloop := @run_yellowStep_labels h q (h.datapartitions labels) ⟨labels, [], []⟩
  unfold yellow
  generalize run h.yellowStep _ _ = s at hnvme hemmc hloop ⊢
  -- Unless the decision after the loop is about it.
  have hno (hd : ¬ (q = s.emmcDataPartition ∧ q ≠ [] ∧ s.nvmeDataPartition ≠ [])) : s.labels q =
      if q ∈ h.datapartitions labels ∧ h.YellowDrops labels q then hassosDataDis else labels q := by
    refine hloop.trans (if_congr (and_congr_right fun hq => (or_iff_left ?_).symm) rfl rfl)
    intro hm
    exact hd ⟨(hemmc.mpr ⟨hq, hm.1⟩).1.symm, ne_nil_of_mem hq, hnvme.mpr hm.2⟩
  by_cases hd : s.emmcDataPartition ≠ [] ∧ s.nvmeDataPartition ≠ []
  · rw [if_pos hd, disableDataPartition_apply]
    by_cases he : q = s.emmcDataPartition
    · obtain ⟨hq, hk⟩ := hemmc.mp ⟨he.symm, he ▸ hd.1⟩
      rw [if_pos he, if_pos ⟨hq, .inr ⟨hk, hnvme.mp hd.2⟩⟩]
    · rw [if_neg he]
      exact hno fun hx => he hx.1
  · rw [if_neg hd]
    exact hno fun hx => hd ⟨hx.1 ▸ hx.2.1, hx.2.2⟩

theorem hassosDataDis_ne : hassosDataDis ≠ hassosData := by decide

/-- Which partitions still have the label, on the Yellow -/
theorem mem_yellow (own : h.OwnDisks labels) (hy : h.Yellow) :
    q ∈ h.datapartitions (h.dataDiskDetach labels) ↔
      q ∈ h.datapartitions labels ∧ ¬ h.YellowDrops labels q := by
  classical
  rw [dataDiskDetach, if_pos hy, mem_datapartitions, yellow_apply own]
  by_cases hq : q ∈ h.datapartitions labels
  · by_cases hd : h.YellowDrops labels q
    · simp [hd, hassosDataDis_ne, hq]
    · simpa [hd, hq] using mem_datapartitions.mp hq
  · simpa [hq] using fun hx hl => hq (mem_datapartitions.mpr ⟨hx, hl⟩)

/-- and on other boards. -/
theorem mem_other (hy : ¬ h.Yellow) : q ∈ h.datapartitions (h.dataDiskDetach labels) ↔
    q ∈ h.datapartitions labels ∧ h.pkname q = h.rootdev := by
  rw [dataDiskDetach, if_neg hy, mem_datapartitions, run_otherStep]
  by_cases hq : q ∈ h.datapartitions labels
  · by_cases hr : h.pkname q = h.rootdev
    · simpa [hr, hq] using mem_datapartitions.mp hq
    · simp [hr, hq, hassosDataDis_ne]
  · simpa [hq] using fun hx hl => hq (mem_datapartitions.mpr ⟨hx, hl⟩)

theorem datapartitions_eq_singleton :
    h.datapartitions labels = [p] ↔ ∀ q, q ∈ h.datapartitions labels ↔ q = p := by
  constructor
  · intro e q
    rw [e, List.mem_singleton]
  · intro hq
    refine List.perm_singleton.mp ((List.perm_ext_iff_of_nodup (h.nodup.filter _) ?_).mpr fun q => ?_)
    · exact List.nodup_singleton p
    · rw [List.mem_singleton]
      exact hq q

/-- Beside an NVMe disk, -/
theorem yellow_leaves_nvme {n r : Line} (hn : n ∈ h.datapartitions labels)
    (hnk : diskKind (h.pkname n) = .nvme0) (hr : r ∈ h.datapartitions labels)
    (hrd : h.pkname r = h.rootdev) :
    (∃ p, (∀ q, q ∈ h.datapartitions labels ∧ ¬ h.YellowDrops labels q ↔ q = p) ∧
        diskKind (h.pkname p) = .nvme0) ↔
      (∀ p ∈ h.datapartitions labels, diskKind (h.pkname p) = .mmc → h.pkname p = h.rootdev) ∧
      ∀ p ∈ h.datapartitions labels, diskKind (h.pkname p) = .nvme0 →
        diskKind h.rootdev ≠ .other ∧
          ∀ q ∈ h.datapartitions labels, diskKind (h.pkname q) = .nvme0 → q = p := by
  constructor
  · rintro ⟨p, hp, hpk⟩
    have hall (q) (hq : q ∈ h.datapartitions labels) (hd : ¬ h.YellowDrops labels q) :
        diskKind (h.pkname q) = .nvme0 := (hp q).mp ⟨hq, hd⟩ ▸ hpk
    refine ⟨fun q hq hk => ?_, fun q hq hk => ⟨fun ho => ?_, fun q' hq' hk' => ?_⟩⟩
    · by_contra hx
      have hkn := hall q hq (by simp [YellowDrops, hk, hx])
      simp [hk] at hkn
    · have hkn := hall r hr (by simp [YellowDrops, hrd, ho])
      simp [hrd, ho] at hkn
    · have hkeep (x) (hx : diskKind (h.pkname x) = .nvme0) : ¬ h.YellowDrops labels x := by
        simp [YellowDrops, hx]
      rw [(hp q).mp ⟨hq, hkeep q hk⟩, (hp q').mp ⟨hq', hkeep q' hk'⟩]
  · intro ⟨hmmc, hnvme⟩
    refine ⟨n, fun q => ⟨fun ⟨hq, hd⟩ => ?_, ?_⟩, hnk⟩
    · cases hk : diskKind (h.pkname q) with
      | mmc => exact absurd (.inr ⟨⟨hk, hmmc q hq hk⟩, n, hn, hnk⟩) hd
      | nvme0 => exact (hnvme n hn hnk).2 q hq hk
      | other =>
        by_cases hx : h.pkname q = h.rootdev
        · exact absurd (hx ▸ hk) (hnvme n hn hnk).1
        · exact absurd (.inl ⟨hk, hx⟩) hd
    · rintro rfl
      exact ⟨hn, by simp [YellowDrops, hnk]⟩

/-- and without one. -/
theorem yellow_leaves_root {r : Line} (own : h.OwnDisks labels)
    (hn : ¬ ∃ p ∈ h.datapartitions labels, diskKind (h.pkname p) = .nvme0)
    (hr : r ∈ h.datapartitions labels) (hrd : h.pkname r = h.rootdev) :
    (∃ p, (∀ q, q ∈ h.datapartitions labels ∧ ¬ h.YellowDrops labels q ↔ q = p) ∧
        h.pkname p = h.rootdev) ↔
      ∀ p ∈ h.datapartitions labels, diskKind (h.pkname p) = .mmc → h.pkname p = h.rootdev := by
  constructor
  · rintro ⟨p, hp, hpd⟩ q hq hk
    have hd : ¬ h.YellowDrops labels q := by simp [YellowDrops, hk, hn]
    rw [(hp q).mp ⟨hq, hd⟩]
    exact hpd
  · intro hmmc
    refine ⟨r, fun q => ⟨fun ⟨hq, hd⟩ => own.eq hq hr (.trans ?_ hrd.symm), ?_⟩, hrd⟩
    · cases hk : diskKind (h.pkname q) with
      | mmc => exact hmmc q hq hk
      | nvme0 => exact absurd ⟨q, hq, hk⟩ hn
      | other =>
        by_contra hx
        exact hd (.inl ⟨hk, hx⟩)
    · rintro rfl
      exact ⟨hr, by simp [YellowDrops, hn, hrd]⟩

/-- The service leaves one partition with the label, and the right one, iff
this is no Yellow, or no data partition is on an `mmc` disk other than the
root's, there is at most one on NVMe disks, and none beside a root that is on
neither kind of disk. -/
theorem detach_leaves_one_iff (own : h.OwnDisks labels)
    (hroot : ∃ p ∈ h.datapartitions labels, h.pkname p = h.rootdev) :
    h.LeavesOne labels ↔ (h.Yellow →
      (∀ p ∈ h.datapartitions labels, diskKind (h.pkname p) = .mmc → h.pkname p = h.rootdev) ∧
      ∀ p ∈ h.datapartitions labels, diskKind (h.pkname p) = .nvme0 →
        diskKind h.rootdev ≠ .other ∧
          ∀ q ∈ h.datapartitions labels, diskKind (h.pkname q) = .nvme0 → q = p) := by
  obtain ⟨r, hr, hrd⟩ := hroot
  unfold LeavesOne
  simp only [datapartitions_eq_singleton]
  by_cases hy : h.Yellow
  · simp only [mem_yellow own hy, hy, true_imp_iff, Preferred, true_and]
    by_cases hn : ∃ n ∈ h.datapartitions labels, diskKind (h.pkname n) = .nvme0
    · have ⟨n, hn', hnk⟩ := hn
      simp only [hn, if_true]
      exact yellow_leaves_nvme hn' hnk hr hrd
    · simp only [hn, if_false, yellow_leaves_root own hn hr hrd]
      exact (and_iff_left fun p hp hk => absurd ⟨p, hp, hk⟩ hn).symm
  · simp only [mem_other hy, hy, false_imp_iff, iff_true]
    refine ⟨r, fun q => ⟨fun hq => own.eq hq.1 hr (hq.2.trans hrd.symm), ?_⟩, ?_⟩
    · rintro rfl
      exact ⟨hr, hrd⟩
    · rw [Preferred, if_neg fun hx => hy hx.1]
      exact hrd

/-- A Yellow with a data partition on the eMMC and one on an NVMe disk. -/
def ofRoot (rdev : String) : Host where
  rdev := rdev.toList
  variantId := "yellow".toList
  devices := ["/dev/mmcblk0p8".toList, "/dev/nvme0n1p8".toList]
  pkname p := if "/dev/mmcblk0".toList <+: p then "mmcblk0".toList else "nvme0n1".toList
  nodup := by decide
  named := by decide

def allData : Labels := fun _ => hassosData

/-- The eMMC holds the root. -/
theorem leaves_nvme : (ofRoot "/dev/mmcblk0p3 /").LeavesOne allData :=
  (detach_leaves_one_iff (by decide +kernel) ⟨"/dev/mmcblk0p8".toList, by decide +kernel⟩).mpr
    fun _ => by decide +kernel

/-- The NVMe disk holds the root. -/
theorem leaves_both : (ofRoot "/dev/nvme0n1p3 /").OwnDisks allData ∧
    (∃ p ∈ (ofRoot "/dev/nvme0n1p3 /").datapartitions allData,
      (ofRoot "/dev/nvme0n1p3 /").pkname p = (ofRoot "/dev/nvme0n1p3 /").rootdev) ∧
    ¬ (ofRoot "/dev/nvme0n1p3 /").LeavesOne allData := by
  refine ⟨by decide +kernel, ⟨"/dev/nvme0n1p8".toList, by decide +kernel⟩, fun ⟨p, hp, _⟩ => ?_⟩
  have h2 : (Host.datapartitions (ofRoot "/dev/nvme0n1p3 /")
    ((ofRoot "/dev/nvme0n1p3 /").dataDiskDetach allData)).length = 2 := by decide +kernel
  rw [hp] at h2
  cases h2

end Host

end HassOS.Data
