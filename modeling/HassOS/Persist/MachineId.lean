import HassOS.Framework.Text

/-!
# The machine id on the kernel command line (`hassos-persists`)

On boards without an environment of the boot loader, the script puts the
machine id into the first line of `cmdline.txt`. Unless the file has it already
(`grep`), it replaces a machine id that it finds, in every line (`sed`), and then
appends the new one to the first line, whether or not there was one to replace.
The patterns take the key wherever it stands, also within a word, and with any
character for its dot.

Hence a line that had another machine id has the new one twice afterwards
(`writesOnce_iff`).
-/

namespace HassOS.Persist

open Framework

/-- The key, with the equals sign. -/
def key : Line := "systemd.machine_id=".toList

/-- `[0-9a-fA-F]` -/
def isHex (c : Char) : Bool := c.isDigit || 'a' ≤ c && c ≤ 'f' || 'A' ≤ c && c ≤ 'F'

/-- `/etc/machine-id` -/
structure MachineId where
  text : Line
  length : text.length = 32
  hex : ∀ c ∈ text, isHex c = true

namespace MachineId

variable (id : MachineId)

/-- `systemd.machine_id=${MACHINE_ID}` -/
def token : Line := key ++ id.text

/-- `sed "s/systemd.machine_id=[0-9a-fA-F]*/systemd.machine_id=${MACHINE_ID}/"`, on one line. -/
def sedReplace (l : Line) : Line :=
  match (Pat.ofRegex key).find l with
  | none => l
  | some (a, b) => a ++ (id.token ++ b.dropWhile isHex)

/-- `sed "1 s/$/ systemd.machine_id=${MACHINE_ID}/"` -/
def sedAppend : Text → Text
  | [] => []
  | l :: ls => (l ++ ' ' :: id.token) :: ls

/-- The script's last branch, on `cmdline.txt`: the first `sed` succeeds in any case. -/
def persist (t : Text) : Text :=
  if ∃ l ∈ t, ¬ (Pat.ofRegex id.token).Clean l then t else id.sedAppend (t.map id.sedReplace)

end MachineId

/-- The words of the line that set a machine id, -/
def idTokens (l : Line) : List Line := (words l).filter (key.isPrefixOf ·)

/-- and the others. -/
def otherTokens (l : Line) : List Line := (words l).filter fun w => !key.isPrefixOf w

/-- On a `cmdline.txt` with the lines `l` and `ls` the script leaves one machine
id, the current one, in the first line, all else as it was, and nothing for a
further run. -/
structure WritesOnce (id : MachineId) (l : Line) (ls : Text) : Prop where
  once : ∃ l', id.persist (l :: ls) = l' :: ls ∧ idTokens l' = [id.token] ∧ otherTokens l' = otherTokens l
  again : id.persist (id.persist (l :: ls)) = id.persist (l :: ls)

variable {id : MachineId} {l : Line} {ls : Text}

theorem token_solid (id : MachineId) : ∀ c ∈ id.token, isBlank c = false := by
  intro c hc
  rcases List.mem_append.mp hc with hc | hc
  · have hk : ∀ c ∈ key, isBlank c = false := by decide +kernel
    exact hk c hc
  · exact isBlank_eq_false rfl rfl (id.hex c hc)

theorem token_ne (id : MachineId) : id.token ≠ [] := by
  intro h
  have hl := id.length
  rw [(List.append_eq_nil_iff.mp h).2] at hl
  cases hl

/-- A line with the token in it is found by `grep`. -/
theorem not_clean_token (id : MachineId) (a b : Line) : ¬ (Pat.ofRegex id.token).Clean (a ++ (id.token ++ b)) := by
  intro h
  have hr := Pat.clean_iff.mp h a _ rfl
  rw [Pat.rest_append_right (Pat.rest_self _)] at hr
  cases hr

/-- What `grep` finds, the first `sed` finds. -/
theorem clean_token_of_key (h : (Pat.ofRegex key).Clean l) : (Pat.ofRegex id.token).Clean l := by
  rw [Pat.clean_iff] at h ⊢
  intro a b hl
  have hp : Pat.ofRegex id.token = Pat.ofRegex key ++ Pat.ofRegex id.text := by
    simp [Pat.ofRegex, MachineId.token]
  rw [hp, Pat.rest_append_pattern, h a b hl, Option.bind_none]

theorem sedReplace_clean (h : (Pat.ofRegex key).Clean l) : id.sedReplace l = l := by
  unfold MachineId.sedReplace
  rw [show (Pat.ofRegex key).find l = none from h]

/-- What it finds, it replaces by the token. -/
theorem sedReplace_found (id : MachineId) (h : ¬ (Pat.ofRegex key).Clean l) :
    ∃ a b, id.sedReplace l = a ++ (id.token ++ b) := by
  unfold MachineId.sedReplace
  split
  · rename_i hf
    exact absurd hf h
  · exact ⟨_, _, rfl⟩

/-- The token in a line without one starts a word. -/
theorem idTokens_append (l : Line) : idTokens (l ++ ' ' :: id.token) = idTokens l ++ [id.token] := by
  have hk : key.isPrefixOf id.token = true := List.isPrefixOf_iff_prefix.mpr (List.prefix_append _ _)
  rw [idTokens, words_append_blank l _ rfl, words_solid (token_ne id) (token_solid id), List.filter_append]
  simp [idTokens, hk]

theorem otherTokens_append (l : Line) : otherTokens (l ++ ' ' :: id.token) = otherTokens l := by
  have hk : key.isPrefixOf id.token = true := List.isPrefixOf_iff_prefix.mpr (List.prefix_append _ _)
  rw [otherTokens, words_append_blank l _ rfl, words_solid (token_ne id) (token_solid id), List.filter_append]
  simp [otherTokens, hk]

/-- No machine id where the pattern matches nowhere. -/
theorem idTokens_clean (h : (Pat.ofRegex key).Clean l) : idTokens l = [] := by
  rw [idTokens, List.filter_eq_nil_iff]
  intro w hw hk
  obtain ⟨a, b, rfl⟩ := mem_words hw
  obtain ⟨r, rfl⟩ := List.isPrefixOf_iff_prefix.mp hk
  have hr := Pat.clean_iff.mp h a _ rfl
  rw [List.append_assoc, Pat.rest_append_right (Pat.rest_self _)] at hr
  cases hr

/-- If the file has the token, nothing changes; -/
theorem persist_of_found {t : Text} (h : ∃ l ∈ t, ¬ (Pat.ofRegex id.token).Clean l) : id.persist t = t :=
  if_pos h

/-- else the first line gets it, -/
theorem persist_of_clean (h : ∀ m ∈ l :: ls, (Pat.ofRegex id.token).Clean m) :
    id.persist (l :: ls) = (id.sedReplace l ++ ' ' :: id.token) :: ls.map id.sedReplace :=
  if_neg (by simpa using h)

/-- and a further run finds it there. -/
theorem persist_again (l : Line) (ls : Text) : id.persist (id.persist (l :: ls)) = id.persist (l :: ls) := by
  by_cases h : ∃ m ∈ l :: ls, ¬ (Pat.ofRegex id.token).Clean m
  · rw [persist_of_found h, persist_of_found h]
  · simp only [not_exists, not_and, not_not] at h
    refine persist_of_found ⟨_, by rw [persist_of_clean h]; exact List.mem_cons_self, ?_⟩
    have hn := not_clean_token id (id.sedReplace l ++ [' ']) []
    simpa using hn

/-- The script does so iff no line has anything like a machine id, or the
current one is the only one of the first line. -/
theorem writesOnce_iff (id : MachineId) (l : Line) (ls : Text) : WritesOnce id l ls ↔
    (∀ m ∈ l :: ls, (Pat.ofRegex key).Clean m) ∨ idTokens l = [id.token] := by
  constructor
  · intro ⟨⟨l', hl', hid, hother⟩, _⟩
    by_cases h : ∃ m ∈ l :: ls, ¬ (Pat.ofRegex id.token).Clean m
    · rw [persist_of_found h] at hl'
      obtain ⟨rfl, -⟩ := List.cons.inj hl'
      exact .inr hid
    · simp only [not_exists, not_and, not_not] at h
      rw [persist_of_clean h] at hl'
      obtain ⟨rfl, hls⟩ := List.cons.inj hl'
      refine .inl fun m hm => ?_
      by_contra hc
      obtain ⟨a, b, hab⟩ := sedReplace_found id hc
      rcases List.mem_cons.mp hm with rfl | hm
      · -- The token that `sed` left stands in a word, which was there before.
        obtain ⟨w, hw, u, x, rfl⟩ := exists_word_of_solid (token_ne id) (token_solid id) a b
        rw [← hab] at hw
        rw [idTokens_append] at hid
        have hid : idTokens (id.sedReplace m) = [] := List.append_cancel_right (hid.trans (List.nil_append _).symm)
        rw [otherTokens_append] at hother
        have hkey : key.isPrefixOf (u ++ (id.token ++ x)) = false := by
          rw [Bool.eq_false_iff]
          intro hp
          have hmem : u ++ (id.token ++ x) ∈ idTokens (id.sedReplace m) := List.mem_filter.mpr ⟨hw, hp⟩
          rw [hid] at hmem
          exact List.not_mem_nil hmem
        have hwl : u ++ (id.token ++ x) ∈ otherTokens (id.sedReplace m) :=
          List.mem_filter.mpr ⟨hw, by rw [hkey]; rfl⟩
        rw [hother] at hwl
        obtain ⟨c, d, hm⟩ := mem_words (List.mem_filter.mp hwl).1
        have hn := not_clean_token id (c ++ u) (x ++ d)
        simp only [List.append_assoc] at hn hm
        exact hn (hm ▸ h m List.mem_cons_self)
      · have hself : id.sedReplace m = m :=
          List.map_inj_left.mp (hls.trans (List.map_id' ls).symm) m hm
        rw [hself] at hab
        exact not_clean_token id a b (hab ▸ h m (List.mem_cons_of_mem l hm))
  · rintro (h | h)
    · have hc : ∀ m ∈ l :: ls, (Pat.ofRegex id.token).Clean m := fun m hm => clean_token_of_key (h m hm)
      have hmap : ls.map id.sedReplace = ls :=
        (List.map_congr_left fun m hm => sedReplace_clean (h m (List.mem_cons_of_mem l hm))).trans
          (List.map_id' ls)
      have hl := h l List.mem_cons_self
      refine ⟨⟨l ++ ' ' :: id.token, ?_, ?_, otherTokens_append l⟩, persist_again l ls⟩
      · rw [persist_of_clean hc, hmap, sedReplace_clean hl]
      · rw [idTokens_append, idTokens_clean hl, List.nil_append]
    · have hw : id.token ∈ words l :=
        (List.mem_filter.mp (h ▸ List.mem_singleton_self id.token : id.token ∈ idTokens l)).1
      obtain ⟨a, b, hab⟩ := mem_words hw
      have hp : id.persist (l :: ls) = l :: ls :=
        persist_of_found ⟨l, List.mem_cons_self, hab ▸ not_clean_token id a b⟩
      exact ⟨⟨l, hp, h, rfl⟩, persist_again l ls⟩

/-- A machine id of one digit only. -/
def ofDigit (c : Char) (h : isHex c = true) : MachineId where
  text := List.replicate 32 c
  length := List.length_replicate
  hex _ hd := List.eq_of_mem_replicate hd ▸ h

/-- A command line with the machine id of zeros. -/
def zerosLine : Line := "quiet ".toList ++ (ofDigit '0' rfl).token ++ " splash".toList

/-- Another machine id is replaced, and then appended. -/
theorem written_twice : idTokens zerosLine = [(ofDigit '0' rfl).token] ∧
    ¬ WritesOnce (ofDigit 'a' rfl) zerosLine [] := by
  refine ⟨by decide +kernel, fun ⟨⟨l', hl', hid, _⟩, _⟩ => ?_⟩
  have h2 : ((ofDigit 'a' rfl).persist [zerosLine]).map (fun l => (idTokens l).length) = [2] := by
    decide +kernel
  rw [hl', List.map_singleton, hid] at h2
  cases h2

end HassOS.Persist
