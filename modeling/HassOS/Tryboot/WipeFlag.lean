import HassOS.Tryboot.Firmware

/-!
# The wipe flag on a command line

A command line either has no match of the pattern that `haos-wipe` removes, or
carries the flag once, as a word that was appended to it (`Marks`). The edits
keep apart: `set_value` neither adds nor removes the flag (`marks_setValue`),
a request sets it (`marks_request`) and `haos-wipe` removes it (`marks_wipe`),
for any command line without quotes and backslashes.
-/

namespace HassOS.Tryboot

open Framework

/-- The kernel parameter that asks for a device wipe. -/
def wipeFlag : Line := "haos.wipe=1".toList

/-- `haos.wipe=1`, as `haos-wipe` matches it. -/
def wipePat : Pat := Pat.ofRegex wipeFlag

/-- The line carries the flag, or it does not. -/
def Marks : Bool → Line → Prop
  | false, l => wipePat.Clean l
  | true, l => ∃ a b, l = a ++ (' ' :: wipeFlag ++ b) ∧ wipePat.Clean a ∧
      wipePat.Clean (rstrip a ++ b) ∧ (b = [] ∨ ∃ b', b = ' ' :: b')

theorem not_mem_words_of_clean {l : Line} (h : wipePat.Clean l) : wipeFlag ∉ words l := by
  intro hm
  obtain ⟨a, b, rfl⟩ := mem_words hm
  have hr : wipePat.rest wipeFlag = some [] := by decide
  have := Pat.clean_iff.mp h a (wipeFlag ++ b) rfl
  rw [Pat.rest_append_right hr] at this
  cases this

/-- The kernel sees the flag exactly on a marked line. -/
theorem mem_words_iff {f : Bool} {l : Line} (h : Marks f l) : wipeFlag ∈ words l ↔ f = true := by
  cases f with
  | false => exact iff_of_false (not_mem_words_of_clean h) (by decide)
  | true =>
    obtain ⟨a, b, rfl, -, -, hb⟩ := h
    have hw : words wipeFlag = [wipeFlag] := by decide
    refine iff_of_true ?_ rfl
    rw [List.cons_append, words_append_blank a _ rfl, List.mem_append]
    refine .inr ?_
    rcases hb with rfl | ⟨b', rfl⟩
    · rw [List.append_nil, hw]
      exact List.mem_singleton_self _
    · rw [words_append_blank wipeFlag b' rfl, hw]
      exact List.mem_cons_self

/-- A request. -/
theorem marks_request {l : Line} (h : Marks false l) : Marks true (l ++ ' ' :: wipeFlag) := by
  refine ⟨l, [], by rw [List.append_nil], h, ?_, .inl rfl⟩
  rw [List.append_nil]
  have hl : wipePat.Clean (rstrip l ++ l.rtakeWhile
      fun c => c.isWhitespace || c = '\x0b' || c = '\x0c') := by
    rw [rstrip, List.rdropWhile_append_rtakeWhile]
    exact h
  exact hl.append_left

/-- The flag is what the pattern finds on a marked line. -/
theorem find_flag {a b : Line} (ha : wipePat.Clean a) :
    wipePat.find (a ++ (' ' :: wipeFlag ++ b)) = some (a ++ [' '], b) := by
  have hx : ∀ t < wipePat.length, Pat.clash (wipePat.drop t) (' ' :: wipeFlag) = true := by decide
  have h0 : wipePat.rest (' ' :: (wipeFlag ++ b)) = none :=
    Pat.rest_of_clash (x := [' ']) (by decide) _
  have h1 : wipePat.rest (wipeFlag ++ b) = some b :=
    Pat.rest_append_right (show wipePat.rest wipeFlag = some [] by decide) b
  rw [Pat.find_append hx, show wipePat.find a = none from ha, List.cons_append, Pat.find_cons h0,
    Pat.find_of_rest h1]
  rfl

/-- What `haos-wipe` leaves. -/
theorem marks_wipe {f : Bool} {l : Line} (h : Marks f l) :
    Marks false (sedDeleteAll wipePat l) := by
  cases f with
  | false => rwa [sedDeleteAll_clean h]
  | true =>
    obtain ⟨a, b, rfl, ha, hab, -⟩ := h
    obtain ⟨n, hn⟩ : ∃ n, (a ++ (' ' :: wipeFlag ++ b)).length = n + 1 :=
      ⟨a.length + (wipeFlag ++ b).length, by simp only [List.length_append, List.length_cons]; omega⟩
    have hstrip : rstrip (a ++ [' ']) = rstrip a := by
      rw [rstrip_append, if_pos (by decide)]
    show wipePat.Clean _
    rw [sedDeleteAll, hn]
    simp only [sedDeleteN, find_flag ha]
    rwa [sedDeleteN_clean hab.append_right, hstrip]

/-- A setting whose edit keeps away from the flag. -/
def Apart (key value : Line) : Prop :=
  wipePat.Avoids (key ++ '=' :: value) ∧ wipePat.Avoids (' ' :: (key ++ '=' :: value)) ∧
    rstrip (key ++ '=' :: value) = key ++ '=' :: value ∧
    (keyPat key).Avoids (' ' :: wipeFlag) ∧ Pat.clash (keyPat key) [' '] = true ∧ '\n' ∉ value

instance (key value : Line) : Decidable (Apart key value) :=
  inferInstanceAs (Decidable (_ ∧ _))

/-- An edit before the flag leaves nothing that its removal could join to a match. -/
theorem clean_sedToken_left {p : Pat} {v a b : Line} (hv : wipePat.Avoids v)
    (hs : rstrip v = v) (hne : v ≠ []) (ha : wipePat.Clean a) (h : wipePat.Clean (rstrip a ++ b)) :
    wipePat.Clean (rstrip (sedToken p v a) ++ b) := by
  unfold sedToken
  split
  · exact h
  · rename_i u w hf
    obtain ⟨m, rfl, -⟩ := Pat.find_eq_some hf
    have hw : wipePat.Clean (rstrip (w.dropWhile (· ≠ ' ')) ++ b) := by
      have e : u ++ (m ++ w) = (u ++ (m ++ w.takeWhile (· ≠ ' '))) ++ w.dropWhile (· ≠ ' ') := by
        rw [List.append_assoc, List.append_assoc, List.takeWhile_append_dropWhile]
      rw [e, rstrip_append] at h
      by_cases hr : rstrip (w.dropWhile (· ≠ ' ')) = []
      · rw [hr, List.nil_append]
        exact h.append_right
      · rw [if_neg hr, List.append_assoc] at h
        exact h.append_right
    rw [rstrip_append_solid hs hne, List.append_assoc, List.append_assoc]
    exact (Pat.clean_barrier hv).mpr ⟨ha.append_left, hw⟩

/-- `set_value` keeps the flag, and the lack of it. -/
theorem marks_setValue {key value : Line} (hk : Apart key value) {f : Bool} {l : Line}
    (h : Marks f l) : Marks f (setValue key value l) := by
  obtain ⟨hv, hbv, hs, hf, h0, hnl⟩ := hk
  have hne : key ++ '=' :: value ≠ [] := by simp
  cases f with
  | false =>
    rw [setValue_eq hnl]
    split
    · have hc := (Pat.clean_barrier hbv (a := l) (b := [])).mpr ⟨h, by decide⟩
      rwa [List.append_nil] at hc
    · exact sedToken_clean hv (c := []) h
  | true =>
    obtain ⟨a, b, rfl, ha, hab, hb⟩ := h
    rw [setValue_eq hnl]
    split
    · -- Appended at the end.
      refine ⟨a, b ++ ' ' :: (key ++ '=' :: value), by simp only [List.append_assoc], ha, ?_, ?_⟩
      · have hc := (Pat.clean_barrier hbv (b := [])).mpr ⟨hab, by decide⟩
        rwa [List.append_nil, List.append_assoc] at hc
      · rcases hb with rfl | ⟨b', rfl⟩
        · exact .inr ⟨_, rfl⟩
        · exact .inr ⟨_, rfl⟩
    · rw [sedToken_barrier hf]
      split
      · -- Replaced after the flag.
        refine ⟨a, _, rfl, ha, sedToken_clean hv hab, ?_⟩
        rcases hb with rfl | ⟨b', rfl⟩
        · refine .inl ?_
          cases hp : keyPat key with
          | nil => simp [keyPat, Pat.ofRegex] at hp
          | cons o p => cases o <;> rfl
        · exact .inr ⟨_, sedToken_cons (Pat.rest_of_clash (x := [' ']) h0 b') _⟩
      · -- Replaced before it.
        exact ⟨_, b, rfl, sedToken_clean hv (c := []) ha, clean_sedToken_left hv hs hne ha hab, hb⟩

/-- The two settings that `set-primary` edits. -/
theorem apart_root (S : Slot) : Apart "root".toList (rootSlot S) := by
  revert S
  decide +kernel

theorem apart_slot (S : Slot) : Apart "rauc.slot".toList S.name := by
  revert S
  decide +kernel

end HassOS.Tryboot
