import HassOS.Framework.Run
import HassOS.Hook.InstallBoot
import HassOS.Tryboot.Firmware

/-!
# Installations on the Raspberry Pi 5

An attempt to install into slot `T` marks it bad, runs the hook for the boot
image and for the kernel, and sets `T` primary; a command that fails or a
power loss can stop it anywhere (`Attempt.Stops`), and any number of attempts
may follow one another (`Attempts`).

Each step works in a few entries of the root of the boot partition
(`Step.touches`), none of which is the running slot's. The new kernel travels
through `slot-default`, of which an earlier attempt may have left anything:
`Safe` is what no step changes, `SameSettings` what the edit of `cmdline.txt`
keeps, and `triple_staged` and `triple_installed` follow the tree of the image
on its way. `attempts_safe` is what any number of attempts leaves.
-/

namespace HassOS.Hook.Rpi5

open Framework Tryboot

/-- The machine: what the backend works on, and the directories under `/tmp`. -/
structure Board where
  sys : Sys
  tmp : BootFs
  new : BootFs

def Board.machine (b : Board) : Machine Text := ⟨b.sys.boot, b.tmp, b.new⟩

/-- The hook leaves this. -/
def Board.hold (b : Board) (m : Machine Text) : Board :=
  ⟨{ b.sys with boot := m.mnt }, m.tmp, m.new⟩

def rootfstype : Line := "rootfstype=squashfs".toList

/-- `1 s/rootfstype=squashfs //` -/
def dropRootfstype : Text → Text
  | [] => []
  | l :: ls => sedDelete (Pat.ofRegex (rootfstype ++ [' '])) l :: ls

/-- The steps of an installation once the slot is marked bad. -/
inductive Step where
  | hook (c : Cmd)
  /-- The images of the kernel and of the root file system. -/
  | writeKernel
  | writeRootfs
  | setPrimary (T : Slot)
  deriving DecidableEq

/-- Up to the end of the last hook. -/
def hookSteps (T : Slot) : List Step :=
  (installBoot true).map .hook ++ .writeKernel :: (postInstallKernel true T).map .hook

def lastSteps (T : Slot) : List Step := [.writeRootfs, .setPrimary T]

def Step.exec (image : BootFs) : Step → Board → Board
  | .hook c, b => b.hold (c.exec image dropRootfstype b.machine)
  | .writeKernel, b | .writeRootfs, b => b
  | .setPrimary T, b => { b with sys := b.sys.step (.call (.setPrimary T)) }

def Step.Succeeds : Step → Board → Prop
  | .hook c, b => c.Succeeds b.machine
  | _, _ => True

/-- What a failing step, or one that a power loss cuts, may leave. -/
def Step.Fails : Step → Board → Board → Prop
  | .hook c, b, b' => ∃ m, c.Fails b.machine m ∧ b' = b.hold m
  | .writeKernel, b, b' | .writeRootfs, b, b' => b' = b
  | .setPrimary _, b, b' =>
    OnlyAt (fun p => p = cmdlineTrybootTxt ∨ p = trybootTxt) b.sys.boot b'.sys.boot

def Step.tolerated : Step → Bool
  | .hook c => c.tolerated
  | _ => false

def shell (image : BootFs) : Shell Step Board where
  exec c b := c.exec image b
  Succeeds := Step.Succeeds
  Fails := Step.Fails
  tolerated := Step.tolerated

/-- An attempt to install. -/
structure Attempt where
  /-- The boot image of the bundle. -/
  image : BootFs
  /-- The `rm` of `set-state T bad` takes effect; the backend does not check. -/
  marked : Bool
  /-- The hooks complete. -/
  hooked : Bool

/-- `set-state T bad` -/
def Attempt.mark (a : Attempt) (T : Slot) (s : Sys) : Sys :=
  if a.marked then s.step (.call (.setState T false)) else s

/-- From the boot partition `fs`, the attempt can stop with `fs'`, whatever
stands under `/tmp` and in `/run`. -/
inductive Attempt.Stops (a : Attempt) (T : Slot) : BootFs → BootFs → Prop
  | early {s : Sys} {b b' : Board} {o : Outcome} (hb : b.sys = a.mark T s)
      (h : Framework.Stops (shell a.image) (hookSteps T) b o b') (ho : o ≠ .done)
      (ha : a.hooked = false) :
      a.Stops T s.boot b'.sys.boot
  | late {s : Sys} {b t b' : Board} {o : Outcome} (hb : b.sys = a.mark T s)
      (h : Framework.Stops (shell a.image) (hookSteps T) b .done t)
      (h' : Framework.Stops (shell a.image) (lastSteps T) t o b') (ha : a.hooked = true) :
      a.Stops T s.boot b'.sys.boot

/-- One attempt after another. -/
def Attempts (T : Slot) : List Attempt → BootFs → BootFs → Prop
  | [], fs, fs' => fs' = fs
  | a :: as, fs, fs' => ∃ t, a.Stops T fs t ∧ Attempts T as t fs'

/-- The slot's files and `config.txt` are the same. -/
structure Safe (P : Slot) (fs fs' : BootFs) : Prop where
  slot : ∀ r, fs' (slotName P :: r) = fs (slotName P :: r)
  config : fs' configTxt = fs configTxt

/-- `cmdline.txt` sets the same root file system and the same slot. -/
structure SameSettings (fs fs' : BootFs) : Prop where
  root : getValue "root".toList (headLine fs' cmdlineTxt) =
    getValue "root".toList (headLine fs cmdlineTxt)
  raucSlot : getValue "rauc.slot".toList (headLine fs' cmdlineTxt) =
    getValue "rauc.slot".toList (headLine fs cmdlineTxt)

/-- In the first line of `cmdline.txt`, `rootfstype=squashfs` starts a word
wherever a blank follows it. -/
def WordsApart (fs : BootFs) : Prop :=
  (Pat.ofRegex (rootfstype ++ [' '])).StartsWords (headLine fs cmdlineTxt)

/-- The event marks the slot good, if it is not cut before. -/
def MarksGood (T : Slot) : Event → Prop
  | .call c | .lossDuring c _ => c = .setState T true
  | .reboot => False

/-! ## What the steps leave alone -/

/-- The step works in this entry of the root of the boot partition. -/
def Step.touches : Step → Line → Bool
  | .hook c, n => c.touches n
  | .setPrimary _, n => n = "cmdline-tryboot.txt".toList || n = "tryboot.txt".toList
  | _, _ => false

section

variable {c : Step} {n : Line} {b b' : Board}

theorem Step.exec_frame (h : c.touches n = false) (image : BootFs) (b : Board) (r : List Line) :
    (c.exec image b).sys.boot (n :: r) = b.sys.boot (n :: r) := by
  cases c with
  | hook c => exact c.exec_frame h image dropRootfstype b.machine r
  | writeKernel | writeRootfs => rfl
  | setPrimary T =>
    obtain ⟨h1, h2⟩ := Bool.or_eq_false_iff.mp h
    have hw : n :: r ∉ Call.writes (.setPrimary T) := by
      simp only [Call.writes, cmdlineTrybootTxt, trybootTxt, List.mem_cons, List.cons.injEq,
        decide_eq_false_iff_not.mp h1, decide_eq_false_iff_not.mp h2, false_and, List.not_mem_nil,
        or_self, not_false_eq_true]
    exact step_frame hw b.sys

theorem Step.fails_frame (h : c.touches n = false) (hf : c.Fails b b') (r : List Line) :
    b'.sys.boot (n :: r) = b.sys.boot (n :: r) := by
  cases c with
  | hook c =>
    obtain ⟨m, hm, rfl⟩ := hf
    exact c.fails_frame h hm r
  | writeKernel | writeRootfs => rw [show b' = b from hf]
  | setPrimary T =>
    obtain ⟨h1, h2⟩ := Bool.or_eq_false_iff.mp h
    refine hf _ ?_
    rintro (e | e)
    · exact decide_eq_false_iff_not.mp h1 (List.cons.inj e).1
    · exact decide_eq_false_iff_not.mp h2 (List.cons.inj e).1

/-- What only depends on entries that no step works in, the steps keep. -/
theorem triple_untouched {image : BootFs} {cs : List Step} {A : BootFs → Prop} (names : List Line)
    (h : ∀ c ∈ cs, ∀ n ∈ names, c.touches n = false)
    (hA : ∀ fs fs', (∀ n ∈ names, ∀ r, fs' (n :: r) = fs (n :: r)) → A fs → A fs') :
    Triple (shell image) (fun b => A b.sys.boot) cs (fun b => A b.sys.boot)
      (fun b => A b.sys.boot) := by
  refine triple_keeps fun c hc b hb => ⟨fun _ => ?_, fun t ht => ?_⟩
  · exact hA _ _ (fun n hn => c.exec_frame (h c hc n hn) image b) hb
  · exact hA _ _ (fun n hn => Step.fails_frame (h c hc n hn) ht) hb

end

/-- Where the steps work, name by name. -/
theorem touches_names (T : Slot) :
    (∀ P, T ≠ P → ∀ c ∈ hookSteps T ++ lastSteps T,
      ∀ n ∈ [slotName P, "config.txt".toList], c.touches n = false) ∧
    (∀ c ∈ (hookSteps T).dropLast, c ≠ .hook (.rmSlot T) → c.touches (slotName T) = false) ∧
    (∀ c ∈ lastSteps T, ∀ n ∈ [slotName T], c.touches n = false) ∧
    ∀ c ∈ hookSteps T ++ lastSteps T, c ≠ .hook .sedCmdline →
      c.touches "cmdline.txt".toList = false := by
  revert T
  decide +kernel

/-- No step works in the running slot, nor changes `config.txt`. -/
theorem touches_running {P T : Slot} (hT : T ≠ P) : ∀ c ∈ hookSteps T ++ lastSteps T,
    ∀ n ∈ [slotName P, "config.txt".toList], c.touches n = false := (touches_names T).1 P hT

/-! ## The kernel command line -/

section

variable {key : Line} {fs fs' : BootFs}

theorem headLine_congr (h : fs' cmdlineTxt = fs cmdlineTxt) :
    headLine fs' cmdlineTxt = headLine fs cmdlineTxt := by
  rw [headLine, headLine, Fs.read, Fs.read, h]

/-- A word without a dot, which sets neither the root file system nor the slot. -/
theorem rootfstype_word : ('.' ∉ rootfstype ++ [' '] ∧ ∀ c ∈ rootfstype, isBlank c = false) ∧
    getValue "root".toList rootfstype = [] ∧ getValue "rauc.slot".toList rootfstype = [] := by
  decide +kernel

/-- The edit takes a match out of the first line, if there is a file. -/
theorem headLine_sedCmdline (image : BootFs) (b : Board) :
    headLine ((Step.hook .sedCmdline).exec image b).sys.boot cmdlineTxt =
      sedDelete (Pat.ofRegex (rootfstype ++ [' '])) (headLine b.sys.boot cmdlineTxt) := by
  show headLine (Cmd.exec image dropRootfstype .sedCmdline b.machine).mnt cmdlineTxt = _
  have hread : ∀ o, b.sys.boot.read cmdlineTxt = o → b.machine.mnt.read Hook.cmdlineTxt = o := fun _ => id
  cases hr : b.sys.boot.read cmdlineTxt with
  | none =>
    rw [Cmd.exec, hread _ hr]
    show headLine b.sys.boot cmdlineTxt = _
    rw [headLine, hr]
    rfl
  | some t =>
    have hfile := Fs.read_eq_some.mp hr
    have hw : b.sys.boot.write cmdlineTxt (dropRootfstype t) cmdlineTxt =
        some (.file (dropRootfstype t)) :=
      Fs.write_self Fs.isDir_nil (Fs.not_isDir_of_file hfile (by decide))
    rw [Cmd.exec, hread _ hr]
    show headLine (b.sys.boot.write cmdlineTxt (dropRootfstype t)) cmdlineTxt = _
    rw [headLine, headLine, hr, Fs.read_eq_some.mpr hw]
    cases t with
    | nil => rfl
    | cons l ls => rfl

/-- The words of `cmdline.txt` stay apart, and so its settings stay. -/
theorem triple_cmdline {image : BootFs} {cs : List Step}
    (hcs : ∀ c ∈ cs, c ≠ .hook .sedCmdline → c.touches "cmdline.txt".toList = false)
    (hkey : getValue key rootfstype = []) (v : Text) :
    let A := fun b : Board => WordsApart b.sys.boot ∧ getValue key (headLine b.sys.boot cmdlineTxt) = v
    Triple (shell image) A cs A A := by
  intro A
  have hA : ∀ b b' : Board, b'.sys.boot cmdlineTxt = b.sys.boot cmdlineTxt → A b → A b' := by
    rintro b b' h ⟨hw, hv⟩
    have hl := headLine_congr h
    exact ⟨by rw [WordsApart, hl]; exact hw, by rw [hl]; exact hv⟩
  refine triple_keeps fun c hc b hb => ?_
  by_cases hsed : c = .hook .sedCmdline
  · subst hsed
    obtain ⟨hw, hv⟩ := hb
    have hw' : WordsApart ((Step.hook .sedCmdline).exec image b).sys.boot := by
      rw [WordsApart, headLine_sedCmdline]
      exact startsWords_sedDelete rootfstype_word.1.1 rootfstype_word.1.2 hw
    have hv' : getValue key
        (headLine ((Step.hook .sedCmdline).exec image b).sys.boot cmdlineTxt) = v := by
      rw [headLine_sedCmdline, getValue_sedDelete rootfstype_word.1.1 hkey hw, hv]
    refine ⟨fun _ => ⟨hw', hv'⟩, ?_⟩
    · rintro t ⟨m, hm, rfl⟩
      refine hA b _ (hm.1 _ ?_) ⟨hw, hv⟩
      rintro ⟨n, hn⟩
      exact absurd (List.cons.inj hn).1 (by simp)
  · have hn := hcs c hc hsed
    exact ⟨fun _ => hA _ _ (c.exec_frame hn image b []) hb,
      fun t ht => hA _ _ (Step.fails_frame hn ht []) hb⟩

end

/-! ## The kernel on its way -/

/-- The entry `n` of the root holds the tree `t`. -/
def Holds (t : List Line → Option (Node Text)) (n : Line) (fs : BootFs) : Prop :=
  ∀ r, fs (n :: r) = t r

/-- `slot-A` of the image. -/
def slotA (image : BootFs) (r : List Line) : Option (Node Text) := image (slotName .A :: r)

section

variable {T : Slot} {image fs : BootFs} {t : List Line → Option (Node Text)} {n : Line}

theorem holds_removeTree : Holds (fun _ => none) n (fs.removeTree [n]) :=
  fun r => Fs.removeTree_below (by simp)

theorem holds_copyTree (h : Holds (fun _ => none) n fs) (m : Line) :
    Holds (fun r => image (m :: r)) n (copyTree image m fs n) := by
  intro r
  rw [copyTree, if_neg (by rw [Fs.not_isDir_of_none (h []) (by simp)]; decide)]
  exact Fs.graft_below r

theorem holds_moveDir {m : Line} (hn : m ≠ n) (hm : Holds t m fs) (h : Holds (fun _ => none) n fs) :
    Holds t n (moveDir fs m n) := by
  intro r
  rw [moveDir, if_neg (by rw [Fs.not_isDir_of_none (h []) (by simp)]; decide)]
  exact (Fs.moveTree_dst (Fs.not_below (Ne.symm hn) _ _)).trans (hm r)

/-- The steps before the last one of the hooks. -/
def stagingSteps (T : Slot) : List Step := (hookSteps T).dropLast

theorem hookSteps_eq (T : Slot) : hookSteps T = stagingSteps T ++ [.hook (.mvSlotDefault T)] := rfl

theorem slotDefault_ne (T : Slot) : slotDefault ≠ slotName T := by
  revert T
  decide

/-- Whatever an earlier attempt left: before the last step, `slot-default`
holds `slot-A` of the image, and the slot's directory is gone. -/
theorem triple_staged (image : BootFs) (T : Slot) :
    Triple (shell image) (fun _ => True) (stagingSteps T) (fun _ => True) fun b =>
      Holds (slotA image) slotDefault b.sys.boot ∧
        Holds (fun _ => none) (slotName T) b.sys.boot := by
  let C := fun _ : Board => True
  let staged := fun b : Board => Holds (slotA image) slotDefault b.sys.boot
  have h1 : Triple (shell image) C [.hook .mkdirTmp, .hook .mkdirNew, .hook .startMount] C C :=
    triple_keeps fun _ _ _ _ => ⟨fun _ => trivial, fun _ _ => trivial⟩
  have h2 : Triple (shell image) C
      [.hook .mountImage, .hook .rmOverlays, .hook .rmSlotDefault, .hook .copySlotA] C staged := by
    let mounted := fun b : Board => b.new = image
    let cleared := fun b : Board => b.new = image ∧ Holds (fun _ => none) slotDefault b.sys.boot
    refine triple_cons (B := mounted) (fun _ _ => trivial) (fun _ _ _ => rfl)
      (fun _ _ _ _ => trivial) ?_
    refine triple_cons (B := mounted) (fun _ _ => trivial) (fun _ h _ => h) ?_ ?_
    · rintro b b' h ⟨m, hm, rfl⟩
      exact hm.2.2.trans h
    refine triple_cons (B := cleared) (fun _ _ => trivial) (fun _ h _ => ⟨h, holds_removeTree⟩)
      (fun _ _ _ _ => trivial) ?_
    refine triple_cons (B := staged) (fun _ _ => trivial) ?_ (fun _ _ _ _ => trivial)
      (triple_nil fun _ _ => trivial)
    rintro b ⟨hnew, hc⟩ -
    show Holds (slotA image) slotDefault (copyTree b.new (slotName .A) b.sys.boot slotDefault)
    rw [hnew]
    exact holds_copyTree hc _
  have h3 : Triple (shell image) staged [.hook .sedCmdline, .writeKernel, .hook .startMount] C staged :=
    triple_imp (triple_untouched (A := Holds (slotA image) slotDefault) [slotDefault]
      (by decide) fun fs fs' hf h r => (hf _ (by simp) r).trans (h r))
      (fun _ h => h) (fun _ _ => trivial) fun _ _ h => h
  have h4 : Triple (shell image) staged [.hook (.rmSlot T)] C fun b =>
      staged b ∧ Holds (fun _ => none) (slotName T) b.sys.boot := by
    refine triple_cons (fun _ _ => trivial) (fun b h _ => ⟨fun r => ?_, holds_removeTree⟩)
      (fun _ _ _ _ => trivial) (triple_nil fun _ _ => trivial)
    exact (Step.exec_frame (c := .hook (.rmSlot T)) (decide_eq_false (slotDefault_ne T)) image b
      r).trans (h r)
  exact triple_append h1 (triple_append h2 (triple_append h3 h4))

/-- When the hooks complete, the slot holds `slot-A` of the image. -/
theorem triple_installed (image : BootFs) (T : Slot) :
    Triple (shell image) (fun _ => True) (hookSteps T) (fun _ => True) fun b =>
      Holds (slotA image) (slotName T) b.sys.boot := by
  rw [hookSteps_eq]
  refine triple_append (triple_staged image T) (triple_cons (fun _ _ => trivial) ?_
    (fun _ _ _ _ => trivial) (triple_nil fun _ _ => trivial))
  rintro b ⟨hs, hc⟩ -
  exact holds_moveDir (slotDefault_ne T) hs hc

theorem touches_target : ∀ c ∈ stagingSteps T, c ≠ .hook (.rmSlot T) →
    c.touches (slotName T) = false := (touches_names T).2.1

/-- `.good` stays absent, for an image without one. -/
theorem triple_unmarked (hi : image.isFile [slotName .A, ".good".toList] = false) (T : Slot) :
    let A := fun b : Board => b.sys.boot.isFile (goodFile T.name) = false
    Triple (shell image) A (hookSteps T) A A := by
  intro A
  have hA : ∀ b b' : Board, b'.sys.boot (goodFile T.name) = b.sys.boot (goodFile T.name) ∨
      b'.sys.boot (goodFile T.name) = none → A b → A b' := by
    rintro b b' (h | h) hb
    · show Fs.isFile _ _ = false
      rw [Fs.isFile, h]
      exact hb
    · show Fs.isFile _ _ = false
      rw [Fs.isFile, h]
  have hstaging : Triple (shell image) A (stagingSteps T) A A := by
    refine triple_keeps fun c hc b hb => ?_
    by_cases hrm : c = .hook (.rmSlot T)
    · subst hrm
      have hp : [slotName T] <+: goodFile T.name := List.prefix_append (slotDir T.name) _
      refine ⟨fun _ => hA b _ (.inr (Fs.removeTree_below (by simpa using hp))) hb, ?_⟩
      rintro b' ⟨m, hm, rfl⟩
      rcases hm.1 (goodFile T.name) with h | ⟨-, h⟩
      · exact hA b _ (.inl h) hb
      · exact hA b _ (.inr h) hb
    · have hn := touches_target c hc hrm
      exact ⟨fun _ => hA b _ (.inl (c.exec_frame hn image b _)) hb,
        fun b' hf => hA b _ (.inl (Step.fails_frame hn hf _)) hb⟩
  rw [hookSteps_eq]
  refine triple_append (triple_imp (triple_and hstaging (triple_staged image T))
    (fun _ h => ⟨h, trivial⟩) (fun _ h => h.1) fun _ _ h => h)
    (triple_cons (fun _ h => h.1) ?_ ?_ (triple_nil fun _ h => h))
  · rintro b ⟨-, hs, hc⟩ -
    have hgood : moveDir b.sys.boot slotDefault (slotName T) (goodFile T.name) =
        image [slotName .A, ".good".toList] := holds_moveDir (slotDefault_ne T) hs hc _
    show Fs.isFile (moveDir b.sys.boot slotDefault (slotName T)) _ = false
    rw [Fs.isFile, hgood]
    exact hi
  · rintro b b' ⟨hb, -⟩ ⟨m, hm, rfl⟩
    rw [show m = b.machine from hm]
    exact hb

end

/-! ## Attempts -/

section

variable {P T : Slot} {a : Attempt} {as : List Attempt} {fs fs' : BootFs}

theorem mark_boot (a : Attempt) (T : Slot) (s : Sys) :
    (a.mark T s).boot = if a.marked then s.boot.unlink (goodFile T.name) else s.boot := by
  unfold Attempt.mark
  split <;> rfl

theorem mark_frame {p : List Line} (hp : p ≠ goodFile T.name) (a : Attempt) (s : Sys) :
    (a.mark T s).boot p = s.boot p := by
  rw [mark_boot]
  split
  · exact Fs.unlink_ne hp
  · rfl

/-- What the hooks and the steps after them keep, an attempt keeps. -/
theorem stops_keeps {A : BootFs → Prop} (h : a.Stops T fs fs')
    (hm : ∀ s : Sys, s.boot = fs → A (a.mark T s).boot)
    (h1 : Triple (shell a.image) (fun b => A b.sys.boot) (hookSteps T) (fun b => A b.sys.boot)
      fun b => A b.sys.boot)
    (h2 : Triple (shell a.image) (fun b => A b.sys.boot) (lastSteps T) (fun b => A b.sys.boot)
      fun b => A b.sys.boot) : A fs' := by
  cases h with
  | @early s b b' o hb h ho ha =>
    have hA : A b.sys.boot := by
      rw [hb]
      exact hm s rfl
    exact (h1 b o b' hA h).1
  | @late s b t b' o hb h h' ha =>
    have hA : A b.sys.boot := by
      rw [hb]
      exact hm s rfl
    have ht : A t.sys.boot := (h1 b .done t hA h).2 rfl
    exact (h2 t o b' ht h').1

/-- The same, where the steps work in none of these entries. -/
theorem stops_untouched (h : a.Stops T fs fs') {n : Line} (hn : n ≠ slotName T)
    (hc : ∀ c ∈ hookSteps T ++ lastSteps T, c.touches n = false) (r : List Line) :
    fs' (n :: r) = fs (n :: r) := by
  have key : ∀ cs : List Step, (∀ c ∈ cs, c.touches n = false) →
      Triple (shell a.image) (fun b => b.sys.boot (n :: r) = fs (n :: r)) cs
        (fun b => b.sys.boot (n :: r) = fs (n :: r)) fun b => b.sys.boot (n :: r) = fs (n :: r) :=
    fun cs hcs => triple_untouched (A := fun g => g (n :: r) = fs (n :: r)) [n]
      (fun c hc m hm => by rw [List.mem_singleton.mp hm]; exact hcs c hc)
      fun g g' hg h => (hg n (by simp) r).trans h
  refine stops_keeps (A := fun g => g (n :: r) = fs (n :: r)) h ?_
    (key _ fun c h => hc c (List.mem_append_left _ h)) (key _ fun c h => hc c (List.mem_append_right _ h))
  rintro s rfl
  exact mark_frame (fun e => hn (List.cons.inj e).1) a s

/-- The steps after the hooks do not work in the slot. -/
theorem touches_last (T : Slot) : ∀ c ∈ lastSteps T, ∀ n ∈ [slotName T], c.touches n = false :=
  (touches_names T).2.2.1

theorem slotName_ne (hT : T ≠ P) : slotName P ≠ slotName T := by
  revert P T
  decide

theorem file_ne (T : Slot) : "config.txt".toList ≠ slotName T ∧ cmdlineTxt ≠ goodFile T.name := by
  revert T
  decide

theorem touches_cmdline (T : Slot) : ∀ c ∈ hookSteps T ++ lastSteps T, c ≠ .hook .sedCmdline →
    c.touches "cmdline.txt".toList = false := (touches_names T).2.2.2

theorem stops_cmdline (h : a.Stops T fs fs') (hw : WordsApart fs) (key : Line)
    (hkey : getValue key rootfstype = []) : WordsApart fs' ∧
      getValue key (headLine fs' cmdlineTxt) = getValue key (headLine fs cmdlineTxt) := by
  have ht := touches_cmdline T
  refine stops_keeps (A := fun g => WordsApart g ∧
    getValue key (headLine g cmdlineTxt) = getValue key (headLine fs cmdlineTxt)) h ?_
    (triple_cmdline (fun c h => ht c (List.mem_append_left _ h)) hkey _)
    (triple_cmdline (fun c h => ht c (List.mem_append_right _ h)) hkey _)
  rintro s rfl
  have hl := headLine_congr (mark_frame (file_ne T).2 a s)
  exact ⟨by rw [WordsApart, hl]; exact hw, by rw [hl]⟩

/-- An attempt leaves the running slot as it is. -/
theorem stops_safe (hT : T ≠ P) (h : a.Stops T fs fs') : Safe P fs fs' := by
  have hr := touches_running hT
  exact ⟨stops_untouched h (slotName_ne hT) fun c hc => hr c hc _ (by simp),
    stops_untouched h (file_ne T).1 (fun c hc => hr c hc _ (by simp)) []⟩

theorem stops_sameSettings (h : a.Stops T fs fs') (hw : WordsApart fs) : SameSettings fs fs' :=
  ⟨(stops_cmdline h hw _ rootfstype_word.2.1).2, (stops_cmdline h hw _ rootfstype_word.2.2).2⟩

/-- It leaves no `.good` in the slot that it marked bad, or that had none. -/
theorem stops_unmarked (hi : a.image.isFile [slotName .A, ".good".toList] = false)
    (h : a.Stops T fs fs') (hm : a.marked = true ∨ fs.isFile (goodFile T.name) = false) :
    fs'.isFile (goodFile T.name) = false := by
  refine stops_keeps (A := fun g => g.isFile (goodFile T.name) = false) h ?_ (triple_unmarked hi T) ?_
  · rintro s rfl
    rw [mark_boot]
    split
    · exact Fs.unlink_isFile
    · rename_i hn
      exact hm.resolve_left hn
  · refine triple_untouched (A := fun g => g.isFile (goodFile T.name) = false) [slotName T]
      (touches_last T) fun g g' hg hb => ?_
    have hgood : g' (goodFile T.name) = g (goodFile T.name) :=
      hg (slotName T) List.mem_cons_self [".good".toList]
    rw [Fs.isFile, hgood]
    exact hb

/-- With its hooks complete, it leaves the kernel of the image. -/
theorem stops_installed (h : a.Stops T fs fs') (ha : a.hooked = true) :
    Holds (slotA a.image) (slotName T) fs' := by
  cases h with
  | early _ _ _ hn =>
    rw [ha] at hn
    cases hn
  | late hb h h' _ =>
    have ht := (triple_installed a.image T _ _ _ trivial h).2 rfl
    exact (triple_untouched (A := Holds (slotA a.image) (slotName T)) [slotName T] (touches_last T)
      (fun g g' hg hh r => (hg _ (by simp) r).trans (hh r)) _ _ _ ht h').1

theorem Safe.trans {fs'' : BootFs} (h : Safe P fs fs') (h' : Safe P fs' fs'') : Safe P fs fs'' :=
  ⟨fun r => (h'.slot r).trans (h.slot r), h'.config.trans h.config⟩

theorem SameSettings.trans {fs'' : BootFs} (h : SameSettings fs fs') (h' : SameSettings fs' fs'') :
    SameSettings fs fs'' := ⟨h'.root.trans h.root, h'.raucSlot.trans h.raucSlot⟩

/-- Any number of attempts leaves the running slot as it is. -/
theorem attempts_running (hT : T ≠ P) (h : Attempts T as fs fs') : Safe P fs fs' := by
  induction as generalizing fs with
  | nil =>
    rw [show fs' = fs from h]
    exact ⟨fun _ => rfl, rfl⟩
  | cons a as ih =>
    obtain ⟨t, ha, has⟩ := h
    exact (stops_safe hT ha).trans (ih has)

/-- The words of `cmdline.txt` stay apart, and so do its settings, attempt
after attempt. -/
theorem attempts_sameSettings (h : Attempts T as fs fs') (hw : WordsApart fs) :
    SameSettings fs fs' := by
  induction as generalizing fs with
  | nil =>
    rw [show fs' = fs from h]
    exact ⟨rfl, rfl⟩
  | cons a as ih =>
    obtain ⟨t, ha, has⟩ := h
    have hw' : WordsApart t := (stops_cmdline ha hw _ rootfstype_word.2.1).1
    exact (stops_sameSettings ha hw).trans (ih has hw')

/-- Once the slot is marked bad, any number of attempts leaves no `.good`. -/
theorem attempts_unmarked (hi : ∀ a ∈ as, a.image.isFile [slotName .A, ".good".toList] = false)
    (h : Attempts T as fs fs')
    (hm : (∃ a ∈ as, a.marked = true) ∨ fs.isFile (goodFile T.name) = false) :
    fs'.isFile (goodFile T.name) = false := by
  induction as generalizing fs with
  | nil =>
    rw [show fs' = fs from h]
    exact hm.resolve_left fun ⟨a, ha, _⟩ => nomatch ha
  | cons a as ih =>
    obtain ⟨t, ha, has⟩ := h
    have hi' := fun a' h' => hi a' (List.mem_cons_of_mem _ h')
    refine ih hi' has ?_
    rcases hm with ⟨a', ha', hm⟩ | hfile
    · rcases List.mem_cons.mp ha' with rfl | ha'
      · exact .inr (stops_unmarked (hi _ List.mem_cons_self) ha (.inl hm))
      · exact .inl ⟨a', ha', hm⟩
    · exact .inr (stops_unmarked (hi _ List.mem_cons_self) ha (.inr hfile))

/-- What the last attempt leaves, its hooks complete. -/
theorem attempts_installed (h : Attempts T as fs fs') (hl : as.getLast? = some a)
    (ha : a.hooked = true) : Holds (slotA a.image) (slotName T) fs' := by
  induction as generalizing fs with
  | nil => cases hl
  | cons b as ih =>
    obtain ⟨t, hb, has⟩ := h
    cases as with
    | nil =>
      rw [List.getLast?_singleton, Option.some.injEq] at hl
      rw [show fs' = t from has]
      exact stops_installed (hl ▸ hb) ha
    | cons b' as => exact ih has (by rwa [List.getLast?_cons_cons] at hl)

/-- Only `set-state` of the slot writes its `.good`. -/
theorem good_not_written {c : Call} (h : ∀ good, c ≠ .setState T good) :
    goodFile T.name ∉ c.writes := by
  cases c with
  | getPrimary | getState => exact List.not_mem_nil
  | setPrimary S =>
    clear h
    revert S T
    decide
  | setState S good =>
    have hS : S ≠ T := fun e => h good (by rw [e])
    clear h
    revert S T good
    decide

/-- `.good` stays absent until the slot is marked good. -/
theorem unmarked_step {e : Event} (he : ¬ MarksGood T e) {s : Sys}
    (h : s.boot.isFile (goodFile T.name) = false) :
    (s.step e).boot.isFile (goodFile T.name) = false := by
  have hc : ∀ c : Call, c ≠ .setState T true →
      c.script.Keeps (fun s => s.boot.isFile (goodFile T.name) = false) s := by
    intro c hne
    by_cases hb : c = .setState T false
    · subst hb
      exact ⟨Fs.unlink_isFile, trivial⟩
    · have hw : goodFile T.name ∉ c.writes := by
        refine good_not_written fun good => ?_
        cases good with
        | true => exact hne
        | false => exact hb
      refine (script_frame hw s).mono fun s' hs => ?_
      rw [Fs.isFile, hs]
      exact h
  cases e with
  | call c => exact (hc c he).run h
  | reboot => exact h
  | lossDuring c k => exact (hc c he).cut h k

/-- Any number of attempts, stopped anywhere, leaves the running slot and its
`config.txt`, and also its settings in `cmdline.txt` if the words are apart
there; with images that have no mark, the slot has no `.good` from when it is
marked bad until it is marked good; and when the hooks of the last attempt
complete, it holds `slot-A` of the image. -/
theorem attempts_safe {P T : Slot} (hT : T ≠ P) {as : List Attempt} {fs fs' : BootFs}
    (h : Attempts T as fs fs') :
    Safe P fs fs' ∧ (WordsApart fs → SameSettings fs fs') ∧
      ((∀ a ∈ as, a.image.isFile [slotName .A, ".good".toList] = false) →
        (∃ a ∈ as, a.marked = true) → ∀ s : Sys, s.boot = fs' → ∀ es : List Event,
          (∀ e ∈ es, ¬ MarksGood T e) →
            (run Sys.step s es).boot.isFile (goodFile T.name) = false) ∧
      ∀ a, as.getLast? = some a → a.hooked = true → Holds (slotA a.image) (slotName T) fs' := by
  refine ⟨attempts_running hT h, attempts_sameSettings h, ?_, fun a hl ha => attempts_installed h hl ha⟩
  rintro hi hm s rfl es hes
  have hok : Along Sys.step (fun _ e => ¬ MarksGood T e) s es := along_forall.mpr hes
  exact run_keeps_along (I := fun s : Sys => s.boot.isFile (goodFile T.name) = false)
    (fun s e hs he => unmarked_step he hs) (attempts_unmarked hi h (.inl hm)) hok

end

/-! ## Complete installations -/

/-- What an attempt leaves whose hooks nothing disturbs, and no step after. -/
def undisturbed (image : BootFs) (T : Slot) (s : Sys) : BootFs :=
  (run (fun b c => (shell image).exec c b)
    (⟨s.step (.call (.setState T false)), fun _ => none, fun _ => none⟩ : Board) (hookSteps T)).sys.boot

theorem run_frame {n : Line} (image : BootFs) (cs : List Step) (h : ∀ c ∈ cs, c.touches n = false)
    (b : Board) (r : List Line) :
    (run (fun b c => (shell image).exec c b) b cs).sys.boot (n :: r) = b.sys.boot (n :: r) := by
  induction cs generalizing b with
  | nil => rfl
  | cons c cs ih =>
    exact (ih (fun c' hc => h c' (List.mem_cons_of_mem _ hc)) _).trans
      (c.exec_frame (h c List.mem_cons_self) image b r)

/-- The hooks can complete, if the image has a `slot-A` and there is a
`cmdline.txt`, whatever else is on the boot partition. -/
theorem undisturbed_hooks {image : BootFs} (hi : image [slotName .A] ≠ none) (T : Slot) {s : Sys}
    (hs : s.boot.isFile cmdlineTxt = true) :
    Along (fun b c => (shell image).exec c b) (fun b c => (shell image).Succeeds c b)
      (⟨s.step (.call (.setState T false)), fun _ => none, fun _ => none⟩ : Board)
      (hookSteps T) := by
  let exec := fun (b : Board) c => (shell image).exec c b
  let b : Board := ⟨s.step (.call (.setState T false)), fun _ => none, fun _ => none⟩
  have hearly : ∀ c ∈ (stagingSteps T).take 7,
      c ∈ hookSteps T ++ lastSteps T ∧ c ≠ .hook .sedCmdline := by
    revert T
    decide
  have hcmdline : (run exec b ((stagingSteps T).take 7)).sys.boot cmdlineTxt = s.boot cmdlineTxt :=
    (run_frame image _ (fun c hc => touches_cmdline T c (hearly c hc).1 (hearly c hc).2) b []).trans
      (Fs.unlink_ne (file_ne T).2)
  have hstaging : Along exec (fun b c => (shell image).Succeeds c b) b (stagingSteps T) := by
    refine ⟨trivial, trivial, trivial, trivial, trivial, trivial, ⟨hi, fun h => ?_⟩, ?_, trivial,
      trivial, trivial, trivial⟩
    · have hnone : ∀ fs : BootFs, (fs.removeTree [slotDefault]).isFile [slotDefault] = false := by
        intro fs
        rw [Fs.isFile, Fs.removeTree_below (by simp)]
      exact Bool.false_ne_true ((hnone _).symm.trans h.2)
    · show Fs.isFile (run exec b ((stagingSteps T).take 7)).sys.boot cmdlineTxt = true
      rw [Fs.isFile, hcmdline]
      exact hs
  have ht := (triple_staged image T _ _ _ trivial (stops_done hstaging)).2 rfl
  rw [hookSteps_eq, along_append]
  refine ⟨hstaging, ⟨?_, fun h => ?_⟩, trivial⟩
  · show (run exec b (stagingSteps T)).sys.boot [slotDefault] ≠ none
    rw [ht.1 []]
    exact hi
  · have hfile : (run exec b (stagingSteps T)).sys.boot.isFile [slotName T] = false := by
      rw [Fs.isFile, ht.2 []]
    exact Bool.false_ne_true (hfile.symm.trans h.2)

theorem undisturbed_attempt {image : BootFs} (hi : image [slotName .A] ≠ none) (T : Slot) {s : Sys}
    (hs : s.boot.isFile cmdlineTxt = true) :
    Attempts T [⟨image, true, true⟩] s.boot (undisturbed image T s) :=
  ⟨_, .late rfl (stops_done (undisturbed_hooks hi T hs)) (.cut _ _) rfl, rfl⟩

/-- A boot image with the file `name` in `slot-A`. -/
def imageWith (name : Line) : BootFs := fun p =>
  if p = [slotName .A] then some .dir
  else if p = [slotName .A, name] then some (.file [])
  else none

def kernelImage : BootFs := imageWith "kernel_2712.img".toList

theorem imageWith_slotA (name : Line) : imageWith name [slotName .A] ≠ none := by
  simp [imageWith]

theorem isFile_factory : factory.boot.isFile cmdlineTxt = true := by
  have h : factoryBoot Tryboot.cmdlineTxt = some (.file [factoryCmdline]) := by
    rw [factoryBoot, if_neg (by decide), if_pos rfl]
  show factoryBoot.isFile Tryboot.cmdlineTxt = true
  rw [Fs.isFile, h]

/-- The first installation on a new machine. -/
theorem first_attempt_safe :
    Safe .A factory.boot (undisturbed kernelImage .B factory) ∧
      SameSettings factory.boot (undisturbed kernelImage .B factory) ∧
      (undisturbed kernelImage .B factory).isFile (goodFile Slot.B.name) = false ∧
      Holds (slotA kernelImage) (slotName .B) (undisturbed kernelImage .B factory) := by
  have hw : WordsApart factory.boot := by
    refine startsWords_of_clean ?_
    rw [factory, factoryBoot_eq factoryConfigChars.2 factoryCmdlineChars.2]
    decide +kernel
  have ha : Attempts .B [⟨kernelImage, true, true⟩] factory.boot (undisturbed kernelImage .B factory) :=
    undisturbed_attempt (imageWith_slotA _) .B isFile_factory
  have hi : ∀ a ∈ [(⟨kernelImage, true, true⟩ : Attempt)],
      a.image.isFile [slotName .A, ".good".toList] = false :=
    List.forall_mem_singleton.mpr (by decide +kernel)
  obtain ⟨hsafe, hsame, hunmarked, hinstalled⟩ := attempts_safe (P := .A) (by decide) ha
  exact ⟨hsafe, hsame hw,
    hunmarked hi ⟨_, List.mem_cons_self, rfl⟩ ⟨_, none, factory.chosen⟩ rfl [] (by simp),
    hinstalled _ rfl rfl⟩

/-- A machine of slot A that has `rootfstype=squashfs` at the end of a word. -/
def joined : Sys :=
  { factory with
    boot := factory.boot.write cmdlineTxt
      ["quietrootfstype=squashfs root=PARTUUID=8d3d53e3-6d49-4c38-8349-aff6859e82fd rauc.slot=A".toList] }

/-- An image with a `.good` brings it along; and the edit joins the ends of two
words, here one that sets `root`. -/
theorem attempts_unsafe :
    (Attempts .B [⟨imageWith ".good".toList, true, true⟩] factory.boot
        (undisturbed (imageWith ".good".toList) .B factory) ∧
      (undisturbed (imageWith ".good".toList) .B factory).isFile (goodFile Slot.B.name) = true) ∧
    Attempts .B [⟨kernelImage, true, true⟩] joined.boot (undisturbed kernelImage .B joined) ∧
      getValue "root".toList (headLine joined.boot cmdlineTxt) = [rootSlotA] ∧
      getValue "root".toList (headLine (undisturbed kernelImage .B joined) cmdlineTxt) = [] :=
  ⟨⟨undisturbed_attempt (imageWith_slotA _) .B isFile_factory, by decide +kernel⟩,
    undisturbed_attempt (imageWith_slotA _) .B (by decide +kernel), by decide +kernel,
    by decide +kernel⟩

end HassOS.Hook.Rpi5
