import HassOS.Framework.Run
import HassOS.Framework.Text

/-!
# The migration of the data partition (`hassos-data`)

The service copies the file system labelled `hassos-data` to an external
partition, block by block in some order, and then takes the label from the old
partition; if the copy fails, it takes it from the new one. The service is the
list of its writes to the disks (`migration`), and a power loss leaves the
first few of them done.

The label is in the superblock, so that the new partition has it from the
moment that block is copied. From then on until one of the two is relabelled,
both carry the label, and at every other point exactly one does, with all the
data (`one_data_partition_iff`).
-/

namespace HassOS.Data

open Framework (Line run run_nil run_append)

variable {ι β : Type}

/-- A block of a file system: the superblock, or one with data. -/
inductive Block (ι : Type) where
  | super
  | data (i : ι)
  deriving DecidableEq

/-- A partition with a file system. -/
structure Partition (ι β : Type) where
  /-- The label in the superblock. -/
  label : Line
  data : ι → β

structure Disks (ι β : Type) where
  /-- The partition that is `/dev/disk/by-label/hassos-data` at the start. -/
  old : Partition ι β
  /-- `/dev/disk/by-partlabel/hassos-data-external` -/
  new : Partition ι β
  /-- `/mnt/overlay/move-data`, which triggers the service. -/
  trigger : Bool

def hassosData : Line := "hassos-data".toList
def hassosDataFail : Line := "hassos-data-fail".toList
def hassosDataOld : Line := "hassos-data-old".toList

/-- What the service finds, and how its commands end. -/
structure Env (ι : Type) where
  /-- The external device is there. -/
  found : Bool
  /-- It is the current device. -/
  same : Bool
  newSize : Nat
  oldSize : Nat
  /-- The blocks in the order in which `e2image -ra` copies them. -/
  order : List (Block ι)
  /-- The copy fails after this many. -/
  failsAfter : Option Nat
  /-- `e2label` succeeds on the new partition, after a failed copy. -/
  relabelsNew : Bool
  /-- `e2label` succeeds on the old partition, after a complete copy. -/
  relabelsOld : Bool

/-- A write of the service. -/
inductive Write (ι : Type) where
  /-- `rm -f /mnt/overlay/move-data` -/
  | dropTrigger
  | copy (b : Block ι)
  | labelNew
  | labelOld
  deriving DecidableEq

def Disks.write [DecidableEq ι] (d : Disks ι β) : Write ι → Disks ι β
  | .dropTrigger => { d with trigger := false }
  | .copy .super => { d with new := { d.new with label := d.old.label } }
  | .copy (.data i) =>
    { d with new := { d.new with data := Function.update d.new.data i (d.old.data i) } }
  | .labelNew => { d with new := { d.new with label := hassosDataFail } }
  | .labelOld => { d with old := { d.old with label := hassosDataOld } }

namespace Env

/-- The tests before the copy pass. -/
def copies (e : Env ι) : Bool := e.found && !e.same && !(e.newSize < e.oldSize)

/-- The blocks that are copied. -/
def copied (e : Env ι) : List (Block ι) :=
  match e.failsAfter with
  | some k => e.order.take k
  | none => e.order

/-- What follows the copy. -/
def relabel (e : Env ι) : List (Write ι) :=
  match e.failsAfter with
  | some _ => if e.relabelsNew then [.labelNew] else []
  | none => if e.relabelsOld then [.labelOld] else []

/-- The writes of the service. -/
def migration (e : Env ι) : List (Write ι) :=
  .dropTrigger :: if e.copies then e.copied.map .copy ++ e.relabel else []

end Env

theorem Env.relabel_eq {e : Env ι} (h : e.relabel ≠ []) :
    e.relabel = [if e.failsAfter.isSome then .labelNew else .labelOld] := by
  unfold Env.relabel at h ⊢
  cases hf : e.failsAfter with
  | some k =>
    rw [hf] at h
    cases hr : e.relabelsNew with
    | true => rfl
    | false => exact absurd (by rw [hr]; rfl) h
  | none =>
    rw [hf] at h
    cases hr : e.relabelsOld with
    | true => rfl
    | false => exact absurd (by rw [hr]; rfl) h

variable [DecidableEq ι]

/-- The disks after the first `n` writes. -/
def stopped (d : Disks ι β) (e : Env ι) (n : Nat) : Disks ι β :=
  run Disks.write d (e.migration.take n)

/-- Exactly one partition is `hassos-data`, and it holds these data. -/
def OneDataPartition (d : Disks ι β) (data : ι → β) : Prop :=
  (d.old.label = hassosData ∧ d.new.label ≠ hassosData ∧ d.old.data = data) ∨
    (d.new.label = hassosData ∧ d.old.label ≠ hassosData ∧ d.new.data = data)

/-- The superblock is copied within the first `n` writes, and no relabelling is
among them. -/
def TwoLabels (e : Env ι) (n : Nat) : Prop :=
  e.copies = true ∧ .super ∈ e.copied.take (n - 1) ∧ (e.relabel = [] ∨ n ≤ e.copied.length + 1)

/-! ## The copy -/

theorem run_copy (d : Disks ι β) (bs : List (Block ι)) :
    let d' := run Disks.write d (bs.map .copy)
    d'.old = d.old ∧ d'.new.label = (if .super ∈ bs then d.old.label else d.new.label) ∧
      ∀ i, d'.new.data i = if .data i ∈ bs then d.old.data i else d.new.data i := by
  induction bs generalizing d with
  | nil => exact ⟨rfl, rfl, fun i => rfl⟩
  | cons b bs ih =>
    obtain ⟨ho, hl, hd⟩ := ih (d.write (.copy b))
    have hold : (d.write (.copy b)).old = d.old := by cases b <;> rfl
    rw [hold] at ho hl hd
    refine ⟨ho, hl.trans ?_, fun i => (hd i).trans ?_⟩
    · cases b with
      | super => simp [Disks.write]
      | data j => simp [Disks.write]
    · cases b with
      | super => simp [Disks.write]
      | data j =>
        by_cases hij : i = j
        · simp [Disks.write, hij]
        · simp [Disks.write, hij]

/-- The service, stopped after the trigger is gone. -/
theorem stopped_succ {e : Env ι} (he : e.copies = true) (d : Disks ι β) (n : Nat) :
    stopped d e (n + 1) =
      run Disks.write (run Disks.write (d.write .dropTrigger) ((e.copied.take n).map .copy))
        (e.relabel.take (n - e.copied.length)) := by
  rw [stopped, Env.migration, if_pos he, List.take_succ_cons, List.take_append, List.length_map,
    List.map_take, ← run_append]
  rfl

theorem stopped_of_not_copies {e : Env ι} (he : e.copies = false) (d : Disks ι β) (n : Nat) :
    (stopped d e n).old = d.old ∧ (stopped d e n).new = d.new := by
  rw [stopped, Env.migration, he]
  cases n with
  | zero => exact ⟨rfl, rfl⟩
  | succ n =>
    rw [List.take_succ_cons]
    simp [Disks.write]

section

variable {d d' : Disks ι β} {e : Env ι}

/-- Neither partition is relabelled: one has the label, unless both do. -/
theorem one_of_copying (ho : d.old.label = hassosData) (hn : d.new.label ≠ hassosData)
    (bs : List (Block ι)) (h : d' = run Disks.write d (bs.map .copy)) :
    OneDataPartition d' d.old.data ↔ .super ∉ bs := by
  obtain ⟨hold, hl, -⟩ := run_copy d bs
  rw [← h] at hold hl
  by_cases hs : .super ∈ bs
  · rw [if_pos hs] at hl
    refine iff_of_false ?_ fun hx => hx hs
    rintro (⟨-, hx, -⟩ | ⟨-, hx, -⟩)
    · exact hx (hl.trans ho)
    · exact hx (by rw [hold, ho])
  · rw [if_neg hs] at hl
    exact iff_of_true (.inl ⟨by rw [hold, ho], by rw [hl]; exact hn, by rw [hold]⟩) hs

/-- After a failed copy, the new partition is relabelled. -/
theorem one_of_labelNew (ho : d.old.label = hassosData) (h : d'.old = d.old) :
    OneDataPartition (d'.write .labelNew) d.old.data :=
  .inl ⟨by rw [← ho, ← h]; rfl, by simp only [Disks.write]; decide, by rw [← h]; rfl⟩

/-- After a complete copy, the old partition is. -/
theorem one_of_labelOld (ho : d.old.label = hassosData) {bs : List (Block ι)} (hb : ∀ b, b ∈ bs) :
    OneDataPartition ((run Disks.write d (bs.map .copy)).write .labelOld) d.old.data := by
  obtain ⟨-, hl, hd⟩ := run_copy d bs
  rw [if_pos (hb _)] at hl
  refine .inr ⟨hl.trans ho, ?_, funext fun i => ?_⟩
  · simp only [Disks.write]
    decide
  · exact (hd i).trans (if_pos (hb _))

end

/-- Wherever the service is stopped, at the next boot exactly one partition is
`hassos-data`, with all the data, unless the superblock is copied and neither
partition relabelled. -/
theorem one_data_partition_iff {d : Disks ι β} (ho : d.old.label = hassosData)
    (hn : d.new.label ≠ hassosData) {e : Env ι} (he : ∀ b, b ∈ e.order) (n : Nat) :
    OneDataPartition (stopped d e n) d.old.data ↔ ¬ TwoLabels e n := by
  by_cases hc : e.copies = true
  · cases n with
    | zero => exact iff_of_true (.inl ⟨ho, hn, rfl⟩) fun h => absurd h.2.1 (by simp)
    | succ n =>
      rw [stopped_succ hc]
      by_cases hr : e.relabel = [] ∨ n ≤ e.copied.length
      · have htake : e.relabel.take (n - e.copied.length) = [] := by
          rcases hr with hr | hr
          · rw [hr, List.take_nil]
          · rw [show n - e.copied.length = 0 by omega, List.take_zero]
        have htwo : TwoLabels e (n + 1) ↔ .super ∈ e.copied.take n := by
          rw [TwoLabels, Nat.add_sub_cancel, Nat.add_le_add_iff_right]
          exact ⟨fun h => h.2.1, fun h => ⟨hc, h, hr⟩⟩
        rw [htake, run_nil, htwo]
        exact one_of_copying (d := d.write .dropTrigger) ho hn _ rfl
      · obtain ⟨hne, hlen⟩ := not_or.mp hr
        have hall : e.copied.take n = e.copied := List.take_of_length_le (by omega)
        have htwo : ¬ TwoLabels e (n + 1) := by
          rintro ⟨-, -, h | h⟩
          · exact hne h
          · omega
        refine iff_of_true ?_ htwo
        rw [hall]
        obtain ⟨k, hk⟩ : ∃ k, n - e.copied.length = k + 1 := ⟨n - e.copied.length - 1, by omega⟩
        rw [hk]
        cases hf : e.failsAfter with
        | some j =>
          have hrel : e.relabel = [.labelNew] := by rw [Env.relabel_eq hne, hf]; rfl
          rw [hrel, List.take_succ_cons, List.take_nil]
          exact one_of_labelNew (d := d.write .dropTrigger) ho (run_copy _ _).1
        | none =>
          have hrel : e.relabel = [.labelOld] := by rw [Env.relabel_eq hne, hf]; rfl
          have hcopied : e.copied = e.order := by rw [Env.copied, hf]
          rw [hrel, List.take_succ_cons, List.take_nil, hcopied]
          exact one_of_labelOld (d := d.write .dropTrigger) ho he
  · have hc' : e.copies = false := Bool.eq_false_iff.mpr hc
    obtain ⟨h1, h2⟩ := stopped_of_not_copies hc' d n
    refine iff_of_true (.inl ?_) fun h => hc h.1
    rw [h1, h2]
    exact ⟨ho, hn, rfl⟩

/-- A migration of one block of data, the superblock first. -/
def smallEnv : Env Unit where
  found := true
  same := false
  newSize := 2
  oldSize := 2
  order := [.super, .data ()]
  failsAfter := none
  relabelsNew := true
  relabelsOld := true

/-- The internal data partition, and an external one that is empty. -/
def smallDisks : Disks Unit Nat := ⟨⟨hassosData, fun _ => 1⟩, ⟨[], fun _ => 0⟩, true⟩

theorem small_order (b : Block Unit) : b ∈ smallEnv.order := by
  cases b <;> simp [smallEnv]

/-- Undisturbed, the migration ends with one data partition. -/
theorem migrated_once : OneDataPartition (stopped smallDisks smallEnv 4) smallDisks.old.data :=
  (one_data_partition_iff rfl (by decide) small_order 4).mpr fun h =>
    absurd h.2.2 (by decide)

/-- Power is lost once the superblock is copied: both partitions are
`hassos-data`, and the new one has none of the data. -/
theorem copy_interrupted : (stopped smallDisks smallEnv 2).old.label = hassosData ∧
    (stopped smallDisks smallEnv 2).new.label = hassosData ∧
    (stopped smallDisks smallEnv 2).new.data () ≠ smallDisks.old.data () ∧
    ¬ OneDataPartition (stopped smallDisks smallEnv 2) smallDisks.old.data := by
  have h1 : (stopped smallDisks smallEnv 2).old.label = hassosData := by decide
  have h2 : (stopped smallDisks smallEnv 2).new.label = hassosData := by decide
  refine ⟨h1, h2, by decide, ?_⟩
  rintro (⟨-, h, -⟩ | ⟨-, h, -⟩)
  · exact h h2
  · exact h h1

end HassOS.Data
