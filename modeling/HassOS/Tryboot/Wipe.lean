import HassOS.Tryboot.WipeFlag
import HassOS.Tryboot.Invariant

/-!
# Device wipes

A wipe request sets the flag in `cmdline.txt`; `set-primary` copies the line
to `cmdline-tryboot.txt`, `haos-wipe` clears the flag in `cmdline.txt` alone,
and a commit moves `cmdline-tryboot.txt` over `cmdline.txt`. So a commit that
finds the flag in one of the two files only brings a second wipe or loses a
request (`wiped_twice`). When no commit does, every request is carried out
exactly once (`wiped_once`), whatever the command line was to start with.
-/

namespace HassOS.Tryboot

open Framework

/-- A machine, with the wipe requests made and the wipes carried out. -/
structure WipeSys where
  sys : Sys
  requests : Nat
  wipes : Nat

inductive WipeEvent where
  /-- ` haos.wipe=1` is appended to the first line of `cmdline.txt`. -/
  | request
  | call (c : Call)
  /-- An orderly reboot, up to and with `haos-wipe`. -/
  | reboot
  deriving DecidableEq

/-- The edit of a wipe request. -/
def Sys.flagWipe : Sys → Sys :=
  Sys.onBoot fun fs =>
    let text := (fs.read cmdlineTxt).getD []
    fs.write cmdlineTxt ((text.headD [] ++ ' ' :: wipeFlag) :: text.tail)

/-- `sed -i 's/\s*haos.wipe=1//g' cmdline.txt` -/
def Sys.unflagWipe : Sys → Sys :=
  Sys.onBoot fun fs =>
    fs.write cmdlineTxt (((fs.read cmdlineTxt).getD []).map (sedDeleteAll wipePat))

/-- An orderly reboot: a tryboot takes the kernel command line from
`cmdline-tryboot.txt`, and a normal boot from `cmdline.txt`. -/
def Sys.reboot (s : Sys) : Sys :=
  ⟨s.boot, none, { nextBoot s.boot s.trybootNext with
    bootargs := headLine s.boot (if s.trybootNext then cmdlineTrybootTxt else cmdlineTxt) }⟩

namespace WipeSys

/-- A boot runs `haos-wipe` if its kernel command line has the flag. -/
def boot (s : WipeSys) : WipeSys :=
  if wipeFlag ∈ words s.sys.reboot.chosen.bootargs then
    ⟨s.sys.reboot.unflagWipe, s.requests, s.wipes + 1⟩
  else { s with sys := s.sys.reboot }

def step (s : WipeSys) : WipeEvent → WipeSys
  | .request =>
    if wipeFlag ∈ words (headLine s.sys.boot cmdlineTxt) then s
    else ⟨s.sys.flagWipe, s.requests + 1, s.wipes⟩
  | .call c => { s with sys := (c.script.run s.sys).1 }
  | .reboot => s.boot

/-- A committing `set-state good` finds the flag in both files or in neither. -/
def Agrees (s : WipeSys) (e : WipeEvent) : Prop :=
  ∀ S, e = .call (.setState S true) → s.sys.commits S →
    (wipeFlag ∈ words (headLine s.sys.boot cmdlineTxt) ↔
      wipeFlag ∈ words (headLine s.sys.boot cmdlineTrybootTxt))

end WipeSys

/-- `cmdline.txt` is there, and neither command line file has a match of what
`haos-wipe` removes. -/
def Unflagged (fs : BootFs) : Prop :=
  fs.isFile cmdlineTxt = true ∧
    ∀ p ∈ [cmdlineTxt, cmdlineTrybootTxt], ∀ l ∈ (fs.read p).getD [], wipePat.Clean l

/-! ## What calls do to the two files -/

theorem goodFile_ne (S : Slot) : cmdlineTxt ≠ goodFile S.name ∧ cmdlineTrybootTxt ≠ goodFile S.name := by
  revert S
  decide

/-- A commit has a `cmdline-tryboot.txt` to move. -/
theorem isFile_of_commits {s : Sys} {S : Slot} (h : s.commits S) :
    s.boot.isFile cmdlineTrybootTxt = true := by
  have hc := h.2
  by_contra hn
  rw [commitCheck, Bool.not_eq_true _ |>.mp hn] at hc
  simp only [Bool.not_false, ↓reduceIte] at hc
  split at hc <;> cases hc

/-- All that a call can do to the command line files and to `reboot-param`. -/
theorem call_files {s : Sys} (hfile : s.boot.isFile cmdlineTxt = true) (c : Call) :
    let s' := (c.script.run s).1
    (s'.boot cmdlineTxt = s.boot cmdlineTxt ∧
      s'.boot cmdlineTrybootTxt = s.boot cmdlineTrybootTxt ∧ s'.rebootParam = s.rebootParam) ∨
    (∃ S : Slot, s'.boot cmdlineTxt = s.boot cmdlineTxt ∧
      s'.boot cmdlineTrybootTxt = s.boot.write cmdlineTrybootTxt [setValue "rauc.slot".toList S.name
        (setValue "root".toList (rootSlot S) (headLine s.boot cmdlineTxt))] cmdlineTrybootTxt) ∨
    (∃ S, c = .setState S true ∧ s.commits S ∧
      s'.boot cmdlineTxt = s.boot cmdlineTrybootTxt ∧ s'.boot cmdlineTrybootTxt = none ∧
      s'.rebootParam = none) := by
  intro s'
  cases c with
  | getPrimary => exact .inl ⟨rfl, rfl, rfl⟩
  | getState S =>
    have hs : s' = s := by
      show ((getState S.name).run s).1 = s
      simp only [getState, Script.run_look]
      split <;> rfl
    rw [hs]
    exact .inl ⟨rfl, rfl, rfl⟩
  | setPrimary S =>
    have hs : s' = ((setPrimary S.name).run s).1 := rfl
    simp only [setPrimary, rootSlot?_name, Script.run_look] at hs
    by_cases e : getPrimary s.boot = S.name
    · rw [if_pos e] at hs
      rw [hs]
      exact .inl ⟨rfl, rfl, rfl⟩
    · rw [if_neg e] at hs
      refine .inr (.inl ⟨S, ?_⟩)
      rw [hs]
      constructor
      · exact (Fs.write_ne (by decide)).trans (Fs.write_ne (by decide))
      · exact Fs.write_ne (by decide)
  | setState S good =>
    obtain ⟨hg, hg'⟩ := goodFile_ne S
    cases good with
    | false => exact .inl ⟨Fs.unlink_ne hg, Fs.unlink_ne hg', rfl⟩
    | true =>
      have hs : s' = ((setState S.name "good".toList).run s).1 := rfl
      simp only [setState, ne_eq, not_true_eq_false, ↓reduceIte, Script.run_look] at hs
      by_cases hf : s.chosen.tryboot = true
      · rw [if_pos hf] at hs
        cases hc : commitCheck S.name s.boot with
        | some n =>
          rw [hc] at hs
          rw [hs]
          exact .inl ⟨rfl, rfl, rfl⟩
        | none =>
          rw [hc] at hs
          refine .inr (.inr ⟨S, rfl, ⟨hf, hc⟩, ?_⟩)
          obtain ⟨b, hb⟩ := Fs.isFile_iff.mp (isFile_of_commits ⟨hf, hc⟩)
          obtain ⟨b', hb'⟩ := Fs.isFile_iff.mp hfile
          have h1 : ∀ p, p ≠ configTxt → s.commitConfig.boot p = s.boot p :=
            fun p hp => Fs.write_ne hp
          have h2 : s.commitConfig.commitCmdline.boot = _ :=
            Fs.rename_apply ((h1 _ (by decide)).trans hb) Fs.isDir_nil
              (Fs.not_isDir_of_file ((h1 _ (by decide)).trans hb') (by decide))
          have h3 : ∀ p, p ≠ goodFile S.name → p ≠ trybootTxt →
              s'.boot p = s.commitConfig.commitCmdline.boot p := by
            intro p hp hp'
            rw [hs]
            exact (Fs.touch_ne hp).trans (Fs.unlink_ne hp')
          refine ⟨?_, ?_, by rw [hs]; rfl⟩
          · rw [h3 _ hg (by decide), h2, Function.update_self, hb]
          · rw [h3 _ hg' (by decide), h2, Function.update_of_ne (by decide), Function.update_self]
      · rw [if_neg hf] at hs
        rw [hs]
        exact .inl ⟨Fs.touch_ne hg, Fs.touch_ne hg', rfl⟩

/-! ## The flag in the two files -/

/-- The first line carries the flag or not, and no other line does. -/
def FileMarks (f : Bool) (text : Text) : Prop :=
  Marks f (text.headD []) ∧ ∀ l ∈ text.tail, wipePat.Clean l

theorem fileMarks_of_clean {text : Text} (h : ∀ l ∈ text, wipePat.Clean l) :
    FileMarks false text := by
  cases text with
  | nil => exact ⟨show wipePat.Clean [] by decide, by simp⟩
  | cons l ls => exact ⟨h l List.mem_cons_self, fun l' hl => h l' (List.mem_cons_of_mem _ hl)⟩

theorem fileMarks_wipe {f : Bool} {text : Text} (h : FileMarks f text) :
    FileMarks false (text.map (sedDeleteAll wipePat)) := by
  refine fileMarks_of_clean fun l hl => ?_
  obtain ⟨l', hl', rfl⟩ := List.mem_map.mp hl
  cases text with
  | nil => cases hl'
  | cons l₀ ls =>
    rcases List.mem_cons.mp hl' with rfl | hl'
    · exact marks_wipe h.1
    · exact marks_wipe (f := false) (h.2 l' hl')

namespace WipeSys

/-- The flag is in `cmdline.txt` as `c` says and in `cmdline-tryboot.txt` as
`t` says; a tryboot is only asked for with a flag that `cmdline.txt` has too,
and the flag is the one request that no wipe has answered. -/
structure Holds (s : WipeSys) (c t : Bool) : Prop where
  file : s.sys.boot.isFile cmdlineTxt = true
  cmdline : FileMarks c ((s.sys.boot.read cmdlineTxt).getD [])
  tryboot : FileMarks t ((s.sys.boot.read cmdlineTrybootTxt).getD [])
  armed : s.sys.trybootNext = true → t = true → c = true
  count : s.wipes + c.toNat = s.requests

variable {s : WipeSys} {c t : Bool}

theorem Holds.mem_cmdline (h : s.Holds c t) :
    wipeFlag ∈ words (headLine s.sys.boot cmdlineTxt) ↔ c = true := mem_words_iff h.cmdline.1

theorem Holds.mem_tryboot (h : s.Holds c t) :
    wipeFlag ∈ words (headLine s.sys.boot cmdlineTrybootTxt) ↔ t = true :=
  mem_words_iff h.tryboot.1

/-- Another text in `cmdline.txt`. -/
theorem Holds.write (h : s.Holds c t) (text : Text) :
    (s.sys.boot.write cmdlineTxt text).read cmdlineTxt = some text ∧
      (s.sys.boot.write cmdlineTxt text).read cmdlineTrybootTxt =
        s.sys.boot.read cmdlineTrybootTxt := by
  obtain ⟨b, hb⟩ := Fs.isFile_iff.mp h.file
  refine ⟨Fs.read_eq_some.mpr (Fs.write_self Fs.isDir_nil
    (Fs.not_isDir_of_file hb (by decide))), ?_⟩
  unfold Fs.read
  rw [Fs.write_ne (by decide)]

theorem isFile_of_read {fs : BootFs} {p : List Line} {text : Text} (h : fs.read p = some text) :
    fs.isFile p = true := Fs.isFile_iff.mpr ⟨text, Fs.read_eq_some.mp h⟩

theorem holds_request (h : s.Holds c t) : (s.step .request).Holds true t := by
  rw [step]
  split
  · rename_i hm
    rwa [← h.mem_cmdline.mp hm]
  · rename_i hm
    obtain rfl : c = false := by
      rw [h.mem_cmdline] at hm
      simpa using hm
    obtain ⟨h1, h2⟩ := h.write ((((s.sys.boot.read cmdlineTxt).getD []).headD [] ++ ' ' :: wipeFlag)
      :: ((s.sys.boot.read cmdlineTxt).getD []).tail)
    refine ⟨isFile_of_read h1, ?_, ?_, fun _ _ => rfl, ?_⟩
    · show FileMarks true (((s.sys.boot.write cmdlineTxt _).read cmdlineTxt).getD [])
      rw [h1]
      exact ⟨marks_request h.cmdline.1, h.cmdline.2⟩
    · show FileMarks t (((s.sys.boot.write cmdlineTxt _).read cmdlineTrybootTxt).getD [])
      rw [h2]
      exact h.tryboot
    · have hn := h.count
      simp only [Bool.toNat_false, Bool.toNat_true] at hn ⊢
      omega

/-- The flag that `set-primary` copies is that of `cmdline.txt`. -/
theorem fileMarks_prepared (h : s.Holds c t) (S : Slot) :
    FileMarks c [setValue "rauc.slot".toList S.name
      (setValue "root".toList (rootSlot S) (headLine s.sys.boot cmdlineTxt))] :=
  ⟨marks_setValue (apart_slot S) (marks_setValue (apart_root S) h.cmdline.1), by simp⟩

theorem holds_call (h : s.Holds c t) {call : Call} (ha : s.Agrees (.call call)) :
    ∃ t', (s.step (.call call)).Holds c t' := by
  rcases call_files h.file call with ⟨h1, h2, h3⟩ | ⟨S, h1, h2⟩ | ⟨S, rfl, hS, h1, h2, h3⟩
  · refine ⟨t, ?_, ?_, ?_, ?_, h.count⟩
    · rw [← h.file]
      simp only [step, Fs.isFile, h1]
    · have := h.cmdline
      simpa only [step, Fs.read, h1] using this
    · have := h.tryboot
      simpa only [step, Fs.read, h2] using this
    · have := h.armed
      simpa only [step, Sys.trybootNext, h3] using this
  · -- The copy is written, or a directory stands in its place.
    have hmark : ∃ t', FileMarks t' (((call.script.run s.sys).1.boot.read cmdlineTrybootTxt).getD [])
        ∧ (t' = true → c = true) := by
      by_cases hd : s.sys.boot.isDir cmdlineTrybootTxt = true
      · refine ⟨false, ?_, by simp⟩
        have hw : (call.script.run s.sys).1.boot cmdlineTrybootTxt = some .dir := by
          rw [h2, Fs.write, if_neg (by simp [hd])]
          unfold Fs.isDir at hd
          split at hd
          · assumption
          · exact absurd hd (by decide)
        have hr : (call.script.run s.sys).1.boot.read cmdlineTrybootTxt = none := by
          rw [Fs.read, hw]
        rw [hr]
        exact fileMarks_of_clean (by simp)
      · rw [Fs.write_self Fs.isDir_nil (by simpa using hd)] at h2
        rw [Fs.read_eq_some.mpr h2]
        exact ⟨c, fileMarks_prepared h S, id⟩
    obtain ⟨t', ht', hc⟩ := hmark
    refine ⟨t', ?_, ?_, ht', fun _ => hc, h.count⟩
    · rw [← h.file]
      simp only [step, Fs.isFile, h1]
    · have := h.cmdline
      simpa only [step, Fs.read, h1] using this
  · -- A commit moves the flag of the one file over that of the other.
    have hct : c = t := by
      have := ha S rfl hS
      rw [h.mem_cmdline, h.mem_tryboot] at this
      exact Bool.eq_iff_iff.mpr this
    obtain ⟨b, hb⟩ := Fs.isFile_iff.mp (isFile_of_commits hS)
    refine ⟨false, ?_, ?_, ?_, by simp, h.count⟩
    · exact Fs.isFile_iff.mpr ⟨b, h1.trans hb⟩
    · have := h.tryboot
      rw [← hct] at this
      simpa only [step, Fs.read, h1] using this
    · have hr : (((Call.setState S true).script.run s.sys).1.boot.read cmdlineTrybootTxt) = none := by
        rw [Fs.read, h2]
      show FileMarks false ((((Call.setState S true).script.run s.sys).1.boot.read _).getD [])
      rw [hr]
      exact fileMarks_of_clean (by simp)

theorem holds_reboot (h : s.Holds c t) :
    ∃ c', (s.step .reboot).Holds c' t ∧ (s.sys.trybootNext = false → c' = false) := by
  have hm : wipeFlag ∈ words s.sys.reboot.chosen.bootargs ↔
      (if s.sys.trybootNext then t else c) = true := by
    show wipeFlag ∈ words (headLine s.sys.boot _) ↔ _
    split
    · exact h.mem_tryboot
    · exact h.mem_cmdline
  rw [step, boot]
  by_cases hw : wipeFlag ∈ words s.sys.reboot.chosen.bootargs
  · rw [if_pos hw]
    rw [hm] at hw
    -- The flag that was read is one that `cmdline.txt` has.
    have hc : c = true := by
      cases hb : s.sys.trybootNext with
      | true => exact h.armed hb (by rwa [hb] at hw)
      | false => rwa [hb] at hw
    obtain ⟨h1, h2⟩ := h.write (((s.sys.boot.read cmdlineTxt).getD []).map (sedDeleteAll wipePat))
    refine ⟨false, ⟨isFile_of_read h1, ?_, ?_, (fun ha => by cases ha), ?_⟩, fun _ => rfl⟩
    · show FileMarks false (((s.sys.boot.write cmdlineTxt
        (((s.sys.boot.read cmdlineTxt).getD []).map (sedDeleteAll wipePat))).read _).getD [])
      rw [h1]
      exact fileMarks_wipe h.cmdline
    · show FileMarks t (((s.sys.boot.write cmdlineTxt
        (((s.sys.boot.read cmdlineTxt).getD []).map (sedDeleteAll wipePat))).read _).getD [])
      rw [h2]
      exact h.tryboot
    · have hn := h.count
      simp only [hc, Bool.toNat_false, Bool.toNat_true] at hn ⊢
      omega
  · rw [if_neg hw]
    refine ⟨c, ⟨h.file, h.cmdline, h.tryboot, (fun ha => by cases ha), h.count⟩, fun hb => ?_⟩
    rw [hm, hb] at hw
    simpa using hw

/-- What a run of agreeing commits keeps. -/
theorem holds_step (h : ∃ c t, s.Holds c t) {e : WipeEvent} (ha : s.Agrees e) :
    ∃ c t, (s.step e).Holds c t := by
  obtain ⟨c, t, h⟩ := h
  cases e with
  | request => exact ⟨true, t, holds_request h⟩
  | call call =>
    obtain ⟨t', h'⟩ := holds_call h ha
    exact ⟨c, t', h'⟩
  | reboot =>
    obtain ⟨c', h', -⟩ := holds_reboot h
    exact ⟨c', t, h'⟩

end WipeSys

/-- As long as every commit finds the flag in both command line files or in
neither, a run that ends with a normal boot has wiped once for each request. -/
theorem wiped_once (s : Sys) (hs : Unflagged s.boot) (es : List WipeEvent)
    (ha : Along WipeSys.step WipeSys.Agrees ⟨s, 0, 0⟩ es)
    (hb : (run WipeSys.step ⟨s, 0, 0⟩ es).sys.trybootNext = false) :
    let t := run WipeSys.step ⟨s, 0, 0⟩ (es ++ [.reboot])
    t.wipes = t.requests := by
  have hstart : ∃ c t, WipeSys.Holds ⟨s, 0, 0⟩ c t :=
    ⟨false, false, hs.1, fileMarks_of_clean (hs.2 _ (by simp)),
      fileMarks_of_clean (hs.2 _ (by simp)), by simp, rfl⟩
  obtain ⟨c, t, h⟩ := run_keeps_along (I := fun s => ∃ c t, WipeSys.Holds s c t)
    (fun _ _ h ha => WipeSys.holds_step h ha) hstart ha
  obtain ⟨c', h', hc'⟩ := WipeSys.holds_reboot h
  obtain rfl := hc' hb
  rw [run_snoc]
  exact h'.count

theorem unflagged_factory : Unflagged factory.boot := by
  rw [factory, factoryBoot_eq factoryConfigChars.2 factoryCmdlineChars.2]
  exact ⟨by decide +kernel, by decide +kernel⟩

/-- A request, and an update of the wiped machine. -/
theorem wiped_once_then_updated :
    let t := run WipeSys.step ⟨factory, 0, 0⟩ [.request, .reboot, .call (.setPrimary .B), .reboot,
      .call (.setState .B true), .reboot]
    t.wipes = t.requests := by
  have hs : Unflagged factory.boot := unflagged_factory
  refine wiped_once factory hs [.request, .reboot, .call (.setPrimary .B), .reboot,
    .call (.setState .B true)] ?_ ?_
  · have hno : ∀ s : WipeSys, s.Agrees .request ∧ s.Agrees .reboot ∧
        s.Agrees (.call (.setPrimary .B)) :=
      fun s => ⟨(fun _ h => nomatch h), (fun _ h => nomatch h), (fun _ h => nomatch h)⟩
    refine ⟨(hno _).1, (hno _).2.1, (hno _).2.2, (hno _).2.1, fun _ _ _ => ?_, trivial⟩
    rw [factory, factoryBoot_eq factoryConfigChars.2 factoryCmdlineChars.2]
    decide +kernel
  · rw [factory, factoryBoot_eq factoryConfigChars.2 factoryCmdlineChars.2]
    decide +kernel

/-- The tryboot answers the request, and the commit brings the flag back. -/
theorem wiped_twice :
    let es : List WipeEvent := [.request, .call (.setPrimary .B), .reboot, .call (.setState .B true)]
    let t := run WipeSys.step ⟨factory, 0, 0⟩ (es ++ [.reboot])
    Unflagged factory.boot ∧ (run WipeSys.step ⟨factory, 0, 0⟩ es).sys.trybootNext = false ∧
      t.requests = 1 ∧ t.wipes = 2 := by
  refine ⟨unflagged_factory, ?_⟩
  rw [factory, factoryBoot_eq factoryConfigChars.2 factoryCmdlineChars.2]
  decide +kernel

end HassOS.Tryboot
