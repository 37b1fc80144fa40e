import HassOS.Supervisor.Script

/-!
# When images are discarded

A run that finds the startup marker takes the image for corrupted and removes
all images. The marker is there, however, from the moment a run has touched
it, and most failures of the script come after that: the pull, the removal and
the creation of the container. Unless a run aborts so (`Aborts`), a marker that
is found tells of a start of the container which the Supervisor has not
answered (`discarded_after_start`).
-/

namespace HassOS.Supervisor

open Framework

/-- The run removes images. -/
def Discards (r : Run) : Prop := ∃ keeps, .rmImages keeps ∈ r.done

/-- The event is a run that gets to `docker container start`. -/
def Starts (h : Host) (e : Event) : Prop :=
  ∃ version o n, e = .run version o n ∧ .start ∈ (ended version o n h).done

/-- The event is a run that touches the marker, where there is none, and is over
before it starts the container. -/
def Aborts (h : Host) (e : Event) : Prop :=
  ∃ version o n, e = .run version o n ∧ h.marker = false ∧
    .touchMarker ∈ (ended version o n h).done ∧ .start ∉ (ended version o n h).done

/-- The marker is removed. -/
def Clears (_ : Host) (e : Event) : Prop := e = .rmMarker ∨ e = .reboot

/-- What holds wherever a run is over that found the host `h`. -/
structure Marks (h : Host) (r : Run) : Prop where
  /-- The marker is there if it was, or the run has touched it. -/
  marker : r.host.marker = true ↔ h.marker = true ∨ .touchMarker ∈ r.done
  discards : Discards r → h.marker = true
  starts : .start ∈ r.done → .touchMarker ∈ r.done

section

variable {version : Nat} {o : Outcomes} {h : Host} {r : Run}

/-- A command of a run that has touched the marker, and removes no images. -/
theorem Marks.carryOut (m : Marks h r) (ht : .touchMarker ∈ r.done) {c : Command}
    (hc : ∀ keeps, c ≠ .rmImages keeps) : Marks h (r.carryOut c) := by
  have ht' : .touchMarker ∈ (r.carryOut c).done := List.mem_append_left _ ht
  have hm : r.host.marker = true := m.marker.mpr (.inr ht)
  refine ⟨iff_of_true ?_ (.inr ht'), ?_, fun _ => ht'⟩
  · cases c with
    | rmContainer ok => cases ok <;> exact hm
    | touchMarker => rfl
    | _ => exact hm
  · rintro ⟨keeps, hk⟩
    rcases List.mem_append.mp hk with hk | hk
    · exact m.discards ⟨keeps, hk⟩
    · exact absurd (List.mem_singleton.mp hk).symm (hc keeps)

theorem Marks.touch (m : Marks h r) : Marks h (r.carryOut .touchMarker) := by
  have ht : .touchMarker ∈ (r.carryOut .touchMarker).done :=
    List.mem_append_right _ List.mem_cons_self
  refine ⟨iff_of_true rfl (.inr ht), ?_, fun _ => ht⟩
  rintro ⟨keeps, hk⟩
  rcases List.mem_append.mp hk with hk | hk
  · exact m.discards ⟨keeps, hk⟩
  · exact nomatch List.mem_singleton.mp hk

/-- Before the marker is touched, the run only removes things, and only if it
found the marker. -/
theorem marks_before (hm : h.marker = true) (hr : r.host.marker = true) (hs : .start ∉ r.done) :
    Marks h r :=
  ⟨iff_of_true hr (.inl hm), fun _ => hm, fun hx => absurd hx hs⟩

/-! ## The script once the marker is touched -/

/-- Every command of the script meets `p`. -/
def Acts (p : Command → Prop) : Script Run Exit → Prop
  | .ret _ => True
  | .act f s => (∃ c, p c ∧ f = Run.carryOut c) ∧ Acts p s
  | .look k => ∀ r, Acts p (k r)

theorem Acts.keeps {p : Command → Prop} {I : Run → Prop}
    (hI : ∀ r c, p c → I r → I (r.carryOut c)) {s : Script Run Exit} (hs : Acts p s) {r : Run}
    (hr : I r) : s.Keeps I r := by
  induction s generalizing r with
  | ret a => trivial
  | act f s ih =>
    obtain ⟨⟨c, hc, rfl⟩, hs⟩ := hs
    exact ⟨hI r c hc hr, ih hs (hI r c hc hr)⟩
  | look k ih => exact ih r (hs r) hr

theorem acts_carryOut {p : Command → Prop} {c : Command} (hc : p c) {s : Script Run Exit}
    (hs : Acts p s) : Acts p (.act (Run.carryOut c) s) := ⟨⟨c, hc, rfl⟩, hs⟩

/-- Not the removal of images. -/
def NoDiscard (c : Command) : Prop := ∀ keeps, c ≠ .rmImages keeps

theorem createContainer_acts (containerId : Option Nat) :
    Acts NoDiscard (createContainer version o containerId) := by
  have hstart : Acts NoDiscard startContainer := acts_carryOut (by simp [NoDiscard]) trivial
  unfold createContainer
  split
  · exact hstart
  · intro r
    beta_reduce
    split
    · split
      · refine acts_carryOut (by simp [NoDiscard]) ?_
        split
        · exact acts_carryOut (by simp [NoDiscard]) hstart
        · trivial
      · trivial
    · trivial

theorem checkImage_acts (imageId containerId : Option Nat) :
    Acts NoDiscard (checkImage version o imageId containerId) := by
  have hversion : ∀ containerId, Acts NoDiscard (checkVersion version o containerId) := by
    intro containerId r
    beta_reduce
    split
    · exact acts_carryOut (by simp [NoDiscard]) (createContainer_acts _)
    · exact createContainer_acts _
  unfold checkImage
  split
  · split
    · exact acts_carryOut (by simp [NoDiscard]) (hversion _)
    · exact hversion _
  · exact createContainer_acts _

theorem pullImage_acts (containerId : Option Nat) (v : Line) :
    Acts NoDiscard (pullImage version o containerId v) := by
  unfold pullImage
  split
  · refine acts_carryOut (by simp [NoDiscard]) ?_
    split
    · exact acts_carryOut (by simp [NoDiscard]) fun r => checkImage_acts _ _
    · trivial
  · exact acts_carryOut (by simp [NoDiscard]) trivial

theorem checkMissing_marks (m : Marks h r) (imageId containerId : Option Nat) :
    (checkMissing version o imageId containerId).Keeps (Marks h) r := by
  have ht : .touchMarker ∈ (r.carryOut .touchMarker).done :=
    List.mem_append_right _ List.mem_cons_self
  have hI : ∀ r c, NoDiscard c → Marks h r ∧ .touchMarker ∈ r.done →
      Marks h (r.carryOut c) ∧ .touchMarker ∈ (r.carryOut c).done :=
    fun r c hc hr => ⟨hr.1.carryOut hr.2 hc, List.mem_append_left _ hr.2⟩
  have key : ∀ s, Acts NoDiscard s → s.Keeps (Marks h) (r.carryOut .touchMarker) :=
    fun s hs => (hs.keeps hI ⟨m.touch, ht⟩).mono fun _ hr => hr.1
  refine ⟨m.touch, ?_⟩
  split
  · exact key _ (checkImage_acts _ _)
  · simp only [Script.keeps_look]
    split
    · split
      · exact key _ (pullImage_acts _ _)
      · trivial
    · exact key _ (pullImage_acts _ _)

end

theorem over_marks (version : Nat) (o : Outcomes) (n : Nat) (h : Host) :
    Marks h (ended version o n h) := by
  have m : Marks h ⟨h, []⟩ := by
    refine ⟨⟨.inl, ?_⟩, ?_, fun hx => nomatch hx⟩
    · rintro (hm | hx)
      · exact hm
      · cases hx
    · rintro ⟨_, hx⟩
      cases hx
  refine Script.Keeps.cut ?_ m n
  simp only [hassosSupervisor, Script.keeps_look]
  split
  · rename_i hm
    have hm₁ : (Run.carryOut (.rmContainer o.rmMarked) ⟨h, []⟩).host.marker = true := by
      cases hrm : o.rmMarked <;> simpa [Run.carryOut, Host.exec, hrm] using hm
    have m₁ := marks_before hm hm₁ (by simp [Run.carryOut])
    have m₂ : Marks h (Run.carryOut (.rmImages o.keeps) (Run.carryOut (.rmContainer o.rmMarked) ⟨h, []⟩)) :=
      marks_before hm hm₁ (by simp [Run.carryOut])
    exact ⟨m₁, m₂, checkMissing_marks m₂ _ _⟩
  · exact checkMissing_marks m _ _

/-! ## Runs in a row -/

/-- The marker is there iff a run has touched it for good, starting the
container or aborting, and it is not removed since. -/
theorem marker_iff {h : Host} (hm : h.marker = false) (es : List Event) :
    (run step h es).marker = true ↔ ∃ pre e post, es = pre ++ e :: post ∧
      (Starts (run step h pre) e ∨ Aborts (run step h pre) e) ∧
        Along step (fun h e => ¬ Clears h e) (run step h (pre ++ [e])) post := by
  refine run_latch_of_not (I := fun _ => True) (b := fun h => h.marker = true)
    (p := fun h e => Starts h e ∨ Aborts h e) (q := Clears) (fun _ _ _ => trivial) ?_ ?_ ?_ trivial
    (by rw [hm]; decide) es
  · rintro h e - (⟨version, o, n, rfl, hs⟩ | ⟨version, o, n, rfl, -, ht, -⟩)
    · have m := over_marks version o n h
      exact m.marker.mpr (.inr (m.starts hs))
    · exact (over_marks version o n h).marker.mpr (.inr ht)
  · rintro h e - (rfl | rfl) hx <;> cases hx
  · intro h e _ hp hq
    cases e with
    | update => exact Iff.rfl
    | rmMarker => exact absurd (.inl rfl) hq
    | reboot => exact absurd (.inr rfl) hq
    | run version o n =>
      refine (over_marks version o n h).marker.trans (or_iff_left_of_imp fun ht => ?_)
      by_contra hm
      have hs : .start ∉ (ended version o n h).done := fun hs => hp (.inl ⟨version, o, n, rfl, hs⟩)
      exact hp (.inr ⟨version, o, n, rfl, Bool.eq_false_iff.mpr hm, ht, hs⟩)

/-- Within one boot, without aborted runs, a run removes images only if an
earlier one has started the container and the marker was not removed since. -/
theorem discarded_after_start {h : Host} (hm : h.marker = false) {es : List Event}
    (hes : Along step (fun h e => ¬ Aborts h e) h es) (version : Nat) (o : Outcomes) (n : Nat)
    (hd : Discards (ended version o n (run step h es))) :
    ∃ pre e post, es = pre ++ e :: post ∧ Starts (run step h pre) e ∧
      ∀ e ∈ post, e ≠ .rmMarker ∧ e ≠ .reboot := by
  have hmarker := (over_marks version o n (run step h es)).discards hd
  obtain ⟨pre, e, post, rfl, hse, hpost⟩ := (marker_iff hm es).mp hmarker
  have hae := along_iff.mp hes pre e post rfl
  refine ⟨pre, e, post, rfl, hse.resolve_right hae, fun e' he' => ?_⟩
  have hc : ¬ Clears h e' := (along_forall (p := fun e => ¬ Clears h e)).mp hpost e' he'
  exact not_or.mp hc

/-- The Supervisor does not remove the marker of the first run: the second one
discards the image. -/
theorem unanswered_start : ∃ pre e post, [Event.run 1 allOk 6] = pre ++ e :: post ∧
    Starts (run step freshHost pre) e ∧ ∀ e ∈ post, e ≠ .rmMarker ∧ e ≠ .reboot := by
  have hes : Along step (fun h e => ¬ Aborts h e) freshHost [.run 1 allOk 6] := by
    refine ⟨?_, trivial⟩
    rintro ⟨version, o, n, he, -, -, hs⟩
    cases he
    have hdone : (ended 1 allOk 6 freshHost).done = [.touchMarker, .pull "2024.01".toList 7,
        .tag "2024.01".toList, .create 7 1, .touchVersion 1, .start] := rfl
    rw [hdone] at hs
    simp at hs
  refine discarded_after_start rfl hes 1 allOk 2 ⟨fun _ => false, ?_⟩
  have hdone : (ended 1 allOk 2 (run step freshHost [.run 1 allOk 6])).done =
      [.rmContainer true, .rmImages fun _ => false] := rfl
  rw [hdone]
  exact List.mem_cons_of_mem _ List.mem_cons_self

/-- A host with the latest image, and no container. -/
def hostWithImage : Host :=
  { freshHost with tagged := fun t => if t = latest then some 7 else none }

/-- A run fails to create the container, and the next one removes the image,
though no run has started a container. -/
theorem discarded_unstarted :
    let o := { allOk with create := false }
    let h := run step hostWithImage [.run 1 o 9]
    Discards (ended 1 allOk 2 h) ∧ h.tagged latest = some 7 ∧
      (ended 1 allOk 2 h).host.tagged latest = none ∧
      ¬ ∃ pre e post, [Event.run 1 o 9] = pre ++ e :: post ∧
        Starts (run step hostWithImage pre) e := by
  intro o h
  have hdone : (ended 1 allOk 2 h).done = [.rmContainer true, .rmImages fun _ => false] := rfl
  have hfirst : (ended 1 o 9 hostWithImage).done = [.touchMarker] := rfl
  refine ⟨⟨fun _ => false, by simp [hdone]⟩, rfl, rfl, ?_⟩
  rintro ⟨pre, e, post, hes, version, o', n, rfl, hs⟩
  obtain ⟨rfl, he, -⟩ : pre = [] ∧ Event.run 1 o 9 = .run version o' n ∧ post = [] := by
    cases pre with
    | nil => exact ⟨rfl, (List.cons.inj hes).1, (List.cons.inj hes).2.symm⟩
    | cons a pre => simp at hes
  cases he
  rw [run_nil, hfirst] at hs
  exact nomatch List.mem_singleton.mp hs

end HassOS.Supervisor
