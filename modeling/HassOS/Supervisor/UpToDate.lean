import HassOS.Supervisor.Script

/-!
# Which container is started

The script takes a container for its own if the version file has the script's
timestamp. So it does what it is for as long as the version file, where there
is one, tells the version that created the container (`Told`). A run that ends
between the creation and the `touch` of the version file (`Torn`) breaks that
where another version has left its timestamp, and without such runs every
container that is started is one of the latest image and of the version that
starts it (`started_up_to_date`).
-/

namespace HassOS.Supervisor

open Framework

/-- A version file tells the version that created the container. -/
def Told (h : Host) : Prop :=
  ∀ c, h.container = some c → h.versionFile = none ∨ h.versionFile = some c.script

/-- The container is of the latest image and of this version of the script. -/
def UpToDate (version : Nat) (h : Host) : Prop :=
  ∃ c, h.container = some c ∧ h.tagged latest = some c.image ∧ c.script = version

/-- The run ends between the creation of its container and the `touch` of the
version file, which has the timestamp of another version. -/
def Torn (version : Nat) (h : Host) (r : Run) : Prop :=
  (∃ image, .create image version ∈ r.done) ∧ .touchVersion version ∉ r.done ∧
    ∃ other, other ≠ version ∧ h.versionFile = some other

/-- The commands before the creation of a container. -/
def Command.early : Command → Bool
  | .create _ _ | .touchVersion _ | .start => false
  | _ => true

/-- The run has only removed the container, or nothing yet. -/
structure Early (h : Host) (r : Run) : Prop where
  container : r.host.container = h.container ∨ r.host.container = none
  versionFile : r.host.versionFile = h.versionFile
  done : ∀ c ∈ r.done, c.early = true

/-- Where a run can be over that found the host `h`. -/
inductive Phase (version : Nat) (h : Host) (r : Run) : Prop where
  | early (e : Early h r)
  /-- The container that was there is started. -/
  | reused (c : Container) (hc : r.host.container = some c) (hh : h.container = some c)
      (hl : r.host.tagged latest = some c.image) (hv : h.versionFile = some version)
      (hr : r.host.versionFile = some version)
  | created (image : Nat) (hc : r.host.container = some ⟨image, version⟩)
      (hd : .create image version ∈ r.done) (ht : .touchVersion version ∉ r.done)
      (hs : .start ∉ r.done) (hr : r.host.versionFile = h.versionFile)
  | touched (image : Nat) (hc : r.host.container = some ⟨image, version⟩)
      (hl : r.host.tagged latest = some image) (hr : r.host.versionFile = some version)

/-- What the script knows of the container. -/
def Sees (r : Run) (containerId : Option Nat) : Prop :=
  ∀ i, containerId = some i → ∃ c, r.host.container = some c ∧ c.image = i

section

variable {version : Nat} {o : Outcomes} {h : Host} {r : Run} {imageId containerId : Option Nat}

theorem Early.carryOut (e : Early h r) {c : Command} (hc : c.early = true) :
    Early h (r.carryOut c) := by
  refine ⟨?_, ?_, fun d hd => ?_⟩
  · cases c with
    | rmContainer ok =>
      cases ok
      · exact e.container
      · exact .inr rfl
    | create | touchVersion | start => cases hc
    | _ => exact e.container
  · cases c with
    | rmContainer ok => cases ok <;> exact e.versionFile
    | create | touchVersion | start => cases hc
    | _ => exact e.versionFile
  · rcases List.mem_append.mp hd with hd | hd
    · exact e.done d hd
    · rw [List.mem_singleton.mp hd]
      exact hc

theorem Early.not_mem (e : Early h r) {c : Command} (hc : c.early = false) : c ∉ r.done :=
  fun hd => by
    rw [e.done c hd] at hc
    cases hc

theorem sees_none (r : Run) : Sees r none := fun _ hi => nomatch hi

/-! ## The script, from its end -/

/-- A new container is of the latest image. -/
theorem createContainer_new (e : Early h r) :
    (createContainer version o none).Keeps (Phase version h) r := by
  simp only [createContainer, Option.isSome_none, Bool.false_eq_true, ↓reduceIte, Script.keeps_look]
  split
  · rename_i image hc hl
    split
    · have hcreated : Phase version h (r.carryOut (.create image version)) := by
        refine .created image rfl (by simp [Run.carryOut]) ?_ ?_ e.versionFile
        · simpa [Run.carryOut] using e.not_mem rfl
        · simpa [Run.carryOut] using e.not_mem rfl
      refine ⟨hcreated, ?_⟩
      split
      · exact ⟨.touched image rfl hl rfl, .touched image rfl hl rfl, trivial⟩
      · trivial
    · trivial
  · trivial

/-- A container that is kept is of the latest image and has its version told. -/
theorem createContainer_kept (e : Early h r) (hs : Sees r containerId)
    (hl : ∀ i, containerId = some i → r.host.tagged latest = some i)
    (hv : r.host.versionFile = some version) :
    (createContainer version o containerId).Keeps (Phase version h) r := by
  cases containerId with
  | none => exact createContainer_new e
  | some i =>
    obtain ⟨c, hc, rfl⟩ := hs i rfl
    have hh : h.container = some c := by
      rcases e.container with h' | h'
      · rw [← h', hc]
      · rw [hc] at h'
        cases h'
    exact ⟨.reused c hc hh (hl _ rfl) (e.versionFile ▸ hv) hv, trivial⟩

theorem checkVersion_keeps (e : Early h r) (hs : Sees r containerId)
    (hl : ∀ i, containerId = some i → r.host.tagged latest = some i) :
    (checkVersion version o containerId).Keeps (Phase version h) r := by
  simp only [checkVersion, Script.keeps_look]
  by_cases hv : r.host.versionFile = some version
  · rw [if_neg (not_not.mpr hv)]
    exact createContainer_kept e hs hl hv
  · rw [if_pos hv]
    exact ⟨.early (e.carryOut rfl), createContainer_new (e.carryOut rfl)⟩

theorem checkImage_keeps (e : Early h r) (hs : Sees r containerId)
    (hi : ∀ i, imageId = some i → r.host.tagged latest = some i) :
    (checkImage version o imageId containerId).Keeps (Phase version h) r := by
  unfold checkImage
  split
  · by_cases hid : imageId = containerId
    · rw [if_neg (not_not.mpr hid)]
      exact checkVersion_keeps e hs (hid ▸ hi)
    · rw [if_pos hid]
      exact ⟨.early (e.carryOut rfl), checkVersion_keeps (e.carryOut rfl) (sees_none _)
        fun _ hi => nomatch hi⟩
  · rename_i hn
    rw [Option.not_isSome_iff_eq_none.mp hn]
    exact createContainer_new e

theorem pullImage_keeps (e : Early h r) (hs : Sees r containerId) (v : Line) :
    (pullImage version o containerId v).Keeps (Phase version h) r := by
  unfold pullImage
  split
  · rename_i id _
    have e₁ := e.carryOut (c := .pull v id) rfl
    refine ⟨.early e₁, ?_⟩
    split
    · have e₂ := e₁.carryOut (c := .tag v) rfl
      refine ⟨.early e₂, checkImage_keeps e₂ hs fun i hi => ?_⟩
      split at hi
      · exact hi
      · cases hi
    · trivial
  · exact ⟨.early (e.carryOut rfl), trivial⟩

theorem checkMissing_keeps (e : Early h r) (hs : Sees r containerId)
    (hi : ∀ i, imageId = some i → r.host.tagged latest = some i) :
    (checkMissing version o imageId containerId).Keeps (Phase version h) r := by
  have e₁ := e.carryOut (c := .touchMarker) rfl
  refine ⟨.early e₁, ?_⟩
  split
  · exact checkImage_keeps e₁ hs hi
  · simp only [Script.keeps_look]
    split
    · split
      · exact pullImage_keeps e₁ hs _
      · trivial
    · exact pullImage_keeps e₁ hs _

end

/-- Wherever a run is over, it is in one of the phases. -/
theorem over_phase (version : Nat) (o : Outcomes) (n : Nat) (h : Host) :
    Phase version h (ended version o n h) := by
  have e : Early h ⟨h, []⟩ := ⟨.inl rfl, rfl, fun _ hc => absurd hc List.not_mem_nil⟩
  refine Script.Keeps.cut ?_ (.early e) n
  simp only [hassosSupervisor, Script.keeps_look]
  split
  · have e₁ := e.carryOut (c := .rmContainer o.rmMarked) rfl
    have e₂ := e₁.carryOut (c := .rmImages o.keeps) rfl
    exact ⟨.early e₁, .early e₂,
      checkMissing_keeps e₂ (sees_none _) fun _ hi => absurd hi.symm (Option.some_ne_none _)⟩
  · refine checkMissing_keeps e (fun i hi => ?_) fun i hi => ?_
    · split at hi
      · exact Option.map_eq_some_iff.mp hi
      · cases hi
    · split at hi
      · exact hi
      · cases hi

/-! ## Runs in a row -/

/-- A run that is not torn keeps the version told. -/
theorem told_over {version : Nat} {o : Outcomes} {n : Nat} {h : Host} (ht : Told h)
    (hn : ¬ Torn version h (ended version o n h)) : Told (ended version o n h).host := by
  intro c hc
  cases over_phase version o n h with
  | early e =>
    rw [e.versionFile]
    rcases e.container with h' | h'
    · exact ht c (h' ▸ hc)
    · rw [hc] at h'
      cases h'
  | reused c' hc' hh hl hv hr =>
    rw [hr, ← hv]
    exact ht c (by rw [hh, ← hc', hc])
  | created image hc' hd htouch hs hr =>
    rw [hc'] at hc
    cases hc
    rw [hr]
    cases hv : h.versionFile with
    | none => exact .inl rfl
    | some other =>
      by_cases e : other = version
      · exact .inr (by rw [e])
      · exact absurd ⟨⟨image, hd⟩, htouch, other, e, hv⟩ hn
  | touched image hc' hl hr =>
    rw [hc'] at hc
    cases hc
    exact .inr hr

/-- A run that gets to the start has an up-to-date container. -/
theorem upToDate_over {version : Nat} {o : Outcomes} {n : Nat} {h : Host} (ht : Told h)
    (hs : .start ∈ (ended version o n h).done) : UpToDate version (ended version o n h).host := by
  cases over_phase version o n h with
  | early e => exact absurd hs (e.not_mem rfl)
  | reused c hc hh hl hv hr =>
    refine ⟨c, hc, hl, ?_⟩
    rcases ht c hh with h' | h'
    · rw [hv] at h'
      cases h'
    · rw [hv, Option.some.injEq] at h'
      exact h'.symm
  | created image hc hd htouch hn hr => exact absurd hs hn
  | touched image hc hl hr => exact ⟨_, hc, hl, rfl⟩

/-- The run of an event is torn. -/
def TornEvent (h : Host) : Event → Prop
  | .run version o n => Torn version h (ended version o n h)
  | _ => False

theorem told_step {h : Host} (ht : Told h) {e : Event} (hn : ¬ TornEvent h e) : Told (step h e) := by
  cases e with
  | run version o n => exact told_over ht hn
  | update | rmMarker | reboot => exact ht

/-- Without torn runs, from no version file, every run that gets to the start of
the container has one of the latest image and of its own version. -/
theorem started_up_to_date {h : Host} (hv : h.versionFile = none) {es : List Event}
    (hes : Along step (fun h e => ¬ TornEvent h e) h es) (version : Nat) (o : Outcomes) (n : Nat)
    (hs : .start ∈ (ended version o n (run step h es)).done) :
    UpToDate version (ended version o n (run step h es)).host := by
  have h0 : Told h := fun _ _ => .inl hv
  have ht : Told (run step h es) := run_keeps_along (I := Told) (fun _ _ ht he => told_step ht he) h0 hes
  exact upToDate_over ht hs

/-- The first two runs. -/
theorem restarted_up_to_date :
    UpToDate 1 (ended 1 allOk 2 (run step freshHost [.run 1 allOk 6, .rmMarker])).host := by
  have hdone : (ended 1 allOk 6 freshHost).done = [.touchMarker, .pull "2024.01".toList 7,
      .tag "2024.01".toList, .create 7 1, .touchVersion 1, .start] := rfl
  have hes : Along step (fun h e => ¬ TornEvent h e) freshHost [.run 1 allOk 6, .rmMarker] := by
    refine ⟨fun ht => ?_, fun h => h, trivial⟩
    obtain ⟨-, h, -⟩ : Torn 1 freshHost (ended 1 allOk 6 freshHost) := ht
    exact h (by simp [hdone])
  refine started_up_to_date rfl hes 1 allOk 2 ?_
  have hdone' : (ended 1 allOk 2 (run step freshHost [.run 1 allOk 6, .rmMarker])).done =
      [.touchMarker, .start] := rfl
  rw [hdone']
  exact List.mem_cons_of_mem _ List.mem_cons_self

/-- A run of version 2 is killed once its container is created, and the next
run is one of version 1: it starts that container. -/
theorem rolled_back_container :
    let h := run step freshHost [.run 1 allOk 6, .rmMarker, .run 2 allOk 3, .reboot]
    .start ∈ (ended 1 allOk 2 h).done ∧ (ended 1 allOk 2 h).host.container = some ⟨7, 2⟩ ∧
      ¬ UpToDate 1 (ended 1 allOk 2 h).host := by
  intro h
  have hdone : (ended 1 allOk 2 h).done = [.touchMarker, .start] := rfl
  have hc : (ended 1 allOk 2 h).host.container = some ⟨7, 2⟩ := rfl
  refine ⟨by simp [hdone], hc, ?_⟩
  rintro ⟨c, hc', -, hv⟩
  rw [hc] at hc'
  cases hc'
  cases hv

end HassOS.Supervisor
