import HassOS.Framework.Task
import Mathlib.Logic.Function.Basic

/-!
# Values that are remembered, and forgotten again

Values that were computed once are kept (`Memo`) and returned when they are asked for
again (`fetch`); the values of some keys never are. When something changes that values
depend on, some of those kept have to be forgotten: those of an item, and then those of
its dependents, as far as these have any (`invalidate`; one value of an item, its mark,
tells whether it has).

`Sound` says that the values kept are right and rest on values that are kept as well,
except where a value is always the same, whatever is asked for (`settled`). Fetching
keeps that (`fetch_spec`), and so does a change if what it concerns was invalidated
(`Sound.shrinks`): what is still kept then rests on nothing that was forgotten, so that
it has not changed.
-/

namespace HassOS.Framework

variable {K I : Type} {V : K → Type} {α : Type}

/-- The values kept. -/
abbrev Memo (V : K → Type) := ∀ k, Option (V k)

/-- A task, with a way to get values that may change what is kept. -/
def Task.thread (get : (k : K) → Memo V → Option (V k × Memo V)) :
    Task V α → Memo V → Option (α × Memo V)
  | .ret a, c => some (a, c)
  | .ask k next, c =>
    match get k c with
    | some (v, c) => (next v).thread get c
    | none => none

/-- The value of a key: the one that is kept, or else the result of its task, which is
kept from then on if values of the key are (`keep`). `n` bounds the depth. -/
def fetch [DecidableEq K] (tasks : ∀ k, Task V (V k)) (keep : K → Bool) :
    ℕ → (k : K) → Memo V → Option (V k × Memo V)
  | 0, _, _ => none
  | n + 1, k, c =>
    match c k with
    | some v => some (v, c)
    | none => ((tasks k).thread (fetch tasks keep n) c).map fun (v, c) =>
        (v, if keep k then Function.update c k (some v) else c)

/-- What the value of a key rests on: the keys that its task asks for, and what these rest on
where their values are not kept. -/
inductive Rests (tasks : ∀ k, Task V (V k)) (keep : K → Bool) (env : ∀ k, V k) : K → K → Prop
  | ask {k k' : K} (h : k' ∈ (tasks k).asks env) : Rests tasks keep env k k'
  | through {k k' k'' : K} (h : k' ∈ (tasks k).asks env) (hk : keep k' = false)
      (hr : Rests tasks keep env k' k'') : Rests tasks keep env k k''

/-- The values kept are right, and rest on values that are kept, except the settled ones. -/
structure Sound (tasks : ∀ k, Task V (V k)) (keep : K → Bool) (settled : K → Prop) (env : ∀ k, V k)
    (c : Memo V) : Prop where
  keeps : ∀ k, c k ≠ none → keep k = true
  right : ∀ k v, c k = some v → v = env k
  rests : ∀ k, c k ≠ none → ¬settled k → ∀ k', Rests tasks keep env k k' → keep k' = true → c k' ≠ none

/-- The value of the key is kept, or else, if such values are not, what it rests on is. -/
def Held (tasks : ∀ k, Task V (V k)) (keep : K → Bool) (env : ∀ k, V k) (c : Memo V) (k : K) : Prop :=
  (keep k = true → c k ≠ none) ∧
    (keep k = false → ∀ k', Rests tasks keep env k k' → keep k' = true → c k' ≠ none)

/-- What was kept still is. -/
def Extends (c c' : Memo V) : Prop := ∀ k, c k ≠ none → c' k ≠ none

theorem Extends.trans {c₁ c₂ c₃ : Memo V} (h : Extends c₁ c₂) (h' : Extends c₂ c₃) : Extends c₁ c₃ :=
  fun k hk => h' k (h k hk)

section

variable {tasks : ∀ k, Task V (V k)} {keep : K → Bool} {settled : K → Prop} {env : ∀ k, V k}
  {c c' : Memo V} {rank : K → ℕ}

theorem Rests.rank_lt (hrank : Ranked tasks rank) {k k' : K} (h : Rests tasks keep env k k') :
    rank k' < rank k := by
  induction h with
  | ask h => exact (hrank _).asks _ h
  | through h _ _ ih =>
    have hlt := (hrank _).asks _ h
    omega

theorem Rests.exists_ask {k k' : K} (h : Rests tasks keep env k k') : (tasks k).asks env ≠ [] := by
  cases h with
  | ask h => exact List.ne_nil_of_mem h
  | through h _ _ => exact List.ne_nil_of_mem h

theorem Held.extends {k : K} (h : Held tasks keep env c k) (hext : Extends c c') :
    Held tasks keep env c' k :=
  ⟨fun hk => hext k (h.1 hk), fun hk k' hr hk' => hext k' (h.2 hk k' hr hk')⟩

/-- What a key rests on is held if what its task asks for is. -/
theorem rests_of_held {k : K} (h : ∀ k' ∈ (tasks k).asks env, Held tasks keep env c k') {k' : K}
    (hr : Rests tasks keep env k k') (hk' : keep k' = true) : c k' ≠ none := by
  cases hr with
  | ask hk => exact (h _ hk).1 hk'
  | through hk hno hr => exact (h _ hk).2 hno _ hr hk'

theorem sound_empty : Sound tasks keep settled env (fun _ => none : Memo V) :=
  ⟨fun _ h => absurd rfl h, fun _ _ h => absurd h.symm (Option.some_ne_none _), fun _ h _ => absurd rfl h⟩

theorem thread_spec {get : (k : K) → Memo V → Option (V k × Memo V)}
    (hget : ∀ k c v c', Sound tasks keep settled env c → get k c = some (v, c') →
      v = env k ∧ Sound tasks keep settled env c' ∧ Extends c c' ∧ Held tasks keep env c' k)
    (t : Task V α) {a : α} (hc : Sound tasks keep settled env c) (h : t.thread get c = some (a, c')) :
    a = t.run env ∧ Sound tasks keep settled env c' ∧ Extends c c' ∧
      ∀ k ∈ t.asks env, Held tasks keep env c' k := by
  induction t generalizing c with
  | ret b =>
    obtain ⟨rfl, rfl⟩ := Prod.mk.inj (Option.some.inj h)
    exact ⟨rfl, hc, fun _ hk => hk, fun _ hk => absurd hk List.not_mem_nil⟩
  | ask k next ih =>
    simp only [Task.thread] at h
    split at h
    · rename_i v c₁ hv
      obtain ⟨rfl, hc₁, hext, hk⟩ := hget k c v c₁ hc hv
      obtain ⟨ha, hc', hext', hasks⟩ := ih (env k) hc₁ h
      refine ⟨ha, hc', hext.trans hext', fun k' hk' => ?_⟩
      rcases List.mem_cons.mp hk' with rfl | hk'
      · exact hk.extends hext'
      · exact hasks k' hk'
    · exact absurd h.symm (Option.some_ne_none _)

variable [DecidableEq K]

theorem extends_update (c : Memo V) (k : K) (v : V k) : Extends c (Function.update c k (some v)) := by
  intro k' hk'
  by_cases he : k' = k
  · subst he
    rw [Function.update_self]
    exact Option.some_ne_none _
  · rwa [Function.update_of_ne he]

theorem sound_update (henv : Solves tasks env) (hc : Sound tasks keep settled env c) {k : K}
    (hk : keep k = true) (hasks : ∀ k' ∈ (tasks k).asks env, Held tasks keep env c k') :
    Sound tasks keep settled env (Function.update c k (some ((tasks k).run env))) := by
  have hext := extends_update c k ((tasks k).run env)
  refine ⟨fun k' h => ?_, fun k' v h => ?_, fun k' h hns k'' hr hk'' => hext k'' ?_⟩
  all_goals by_cases he : k' = k
  · rwa [he]
  · rw [Function.update_of_ne he] at h
    exact hc.keeps k' h
  · subst he
    rw [Function.update_self] at h
    rw [← Option.some.inj h, henv k']
  · rw [Function.update_of_ne he] at h
    exact hc.right k' v h
  · subst he
    exact rests_of_held hasks hr hk''
  · rw [Function.update_of_ne he] at h
    exact hc.rests k' h hns k'' hr hk''

/-- What is fetched is right. -/
theorem fetch_spec (henv : Solves tasks env) {n : ℕ} {k : K} {v : V k} (hc : Sound tasks keep settled env c)
    (h : fetch tasks keep n k c = some (v, c')) :
    v = env k ∧ Sound tasks keep settled env c' ∧ Extends c c' ∧ Held tasks keep env c' k := by
  induction n generalizing k c c' with
  | zero => exact absurd h.symm (Option.some_ne_none _)
  | succ n ih =>
    simp only [fetch] at h
    split at h
    · rename_i v' hk
      obtain ⟨rfl, rfl⟩ := Prod.mk.inj (Option.some.inj h)
      have hkept : c k ≠ none := by rw [hk]; exact Option.some_ne_none _
      refine ⟨hc.right k _ hk, hc, fun _ h => h, fun _ => hkept, fun hno => ?_⟩
      exact absurd ((hc.keeps k hkept).symm.trans hno) Bool.noConfusion
    · obtain ⟨⟨v', c₁⟩, ht, he⟩ := Option.map_eq_some_iff.mp h
      obtain ⟨rfl, rfl⟩ := Prod.mk.inj he
      obtain ⟨rfl, hc₁, hext, hasks⟩ := thread_spec (fun k c v c' hc h => ih hc h) (tasks k) hc ht
      by_cases hk : keep k = true
      · rw [if_pos hk]
        have hext' := extends_update c₁ k ((tasks k).run env)
        refine ⟨henv k, sound_update henv hc₁ hk hasks, hext.trans hext', fun _ => ?_,
          fun hno => absurd (hk.symm.trans hno) Bool.noConfusion⟩
        rw [Function.update_self]
        exact Option.some_ne_none _
      · rw [if_neg hk]
        exact ⟨henv k, hc₁, hext, fun h => absurd h hk, fun _ k' hr hk' => rests_of_held hasks hr hk'⟩

omit [DecidableEq K] in
theorem thread_total {get : (k : K) → Memo V → Option (V k × Memo V)} {p : K → Prop}
    (hget : ∀ k c, p k → ∃ r, get k c = some r) {t : Task V α} (ht : t.Below p) (c : Memo V) :
    ∃ r, t.thread get c = some r := by
  induction t generalizing c with
  | ret a => exact ⟨(a, c), rfl⟩
  | ask k next ih =>
    obtain ⟨⟨v, c'⟩, hv⟩ := hget k c ht.1
    simp only [Task.thread, hv]
    exact ih v (ht.2 v) c'

/-- Where the tasks are ranked, a fetch returns. -/
theorem fetch_total (h : Ranked tasks rank) {n : ℕ} {k : K} (hn : rank k < n) (c : Memo V) :
    ∃ r, fetch tasks keep n k c = some r := by
  induction n generalizing k c with
  | zero => exact absurd hn (Nat.not_lt_zero _)
  | succ n ih =>
    simp only [fetch]
    cases hk : c k with
    | some v => exact ⟨_, rfl⟩
    | none =>
      obtain ⟨⟨v, c'⟩, hr⟩ := thread_total (p := fun k' => rank k' < rank k)
        (fun k' c' hk' => ih (by omega) c') (h k) c
      exact ⟨_, by rw [hr]; rfl⟩

end

/-! ## Invalidation -/

/-- How the values belong to items, which of an item's values is its mark, and which items
depend on which. On a wide one they all do. -/
structure Links (K I : Type) where
  item : K → I
  mark : I → K
  items : List I
  dependents : I → List I
  wide : I → Bool

namespace Links

variable [DecidableEq I] (L : Links K I)

/-- The values of an item are forgotten. -/
def clear (i : I) (c : Memo V) : Memo V := fun k => if L.item k = i then none else c k

/-- The values of all items are forgotten. -/
def clearAll (c : Memo V) : Memo V := fun k => if L.item k ∈ L.items then none else c k

/-- An item and what depends on it, up to items without a mark. `n` bounds the depth. -/
def invalidate : ℕ → I → Memo V → Memo V
  | 0, _, c => c
  | n + 1, i, c =>
    if L.wide i then L.clearAll c
    else (L.dependents i).foldl
      (fun c d => if (c (L.mark d)).isSome then invalidate n d c else c) (L.clear i c)

/-- The marked items. -/
def marked (c : Memo V) : List I := L.items.filter fun d => (c (L.mark d)).isSome

/-- Whole items are forgotten. -/
def Shrinks (c c' : Memo V) : Prop :=
  ∀ i, (∀ k, L.item k = i → c' k = c k) ∨ ∀ k, L.item k = i → c' k = none

/-- No dependent of the item is marked. -/
def Quiet (c : Memo V) (i : I) : Prop :=
  if L.wide i then ∀ k, L.item k ∈ L.items → c k = none else ∀ d ∈ L.dependents i, c (L.mark d) = none

/-- The items of which something was forgotten are quiet. -/
def Closed (c c' : Memo V) : Prop := ∀ k, c k ≠ none → c' k = none → L.Quiet c' (L.item k)

/-- The links fit together. -/
structure Valid : Prop where
  item_mark : ∀ i, L.item (L.mark i) = i
  mem_items : ∀ i, ∀ d ∈ L.dependents i, d ∈ L.items

variable {L} {c c' c₁ c₂ c₃ : Memo V} {i : I} {n : ℕ}

omit [DecidableEq I] in
theorem Shrinks.refl (c : Memo V) : L.Shrinks c c := fun _ => .inl fun _ _ => rfl

omit [DecidableEq I] in
theorem Shrinks.trans (h : L.Shrinks c₁ c₂) (h' : L.Shrinks c₂ c₃) : L.Shrinks c₁ c₃ := by
  intro i
  rcases h' i with h2 | h2
  · rcases h i with h1 | h1
    · exact .inl fun k hk => (h2 k hk).trans (h1 k hk)
    · exact .inr fun k hk => (h2 k hk).trans (h1 k hk)
  · exact .inr h2

omit [DecidableEq I] in
theorem Shrinks.gone (h : L.Shrinks c c') {k : K} (hk : c k = none) : c' k = none := by
  rcases h (L.item k) with h | h
  · rw [h k rfl, hk]
  · exact h k rfl

omit [DecidableEq I] in
/-- If something of an item was forgotten, all of it was. -/
theorem Shrinks.forgotten (h : L.Shrinks c c') {k k' : K} (hk : c k ≠ none) (hk' : c' k = none)
    (he : L.item k' = L.item k) : c' k' = none := by
  rcases h (L.item k) with h | h
  · exact absurd (h k rfl ▸ hk') hk
  · exact h k' he

theorem shrinks_clear (L : Links K I) (i : I) (c : Memo V) : L.Shrinks c (L.clear i c) := by
  intro j
  by_cases h : j = i
  · exact .inr fun k hk => if_pos (hk.trans h)
  · exact .inl fun k hk => if_neg fun e => h (hk.symm.trans e)

theorem shrinks_clearAll (L : Links K I) (c : Memo V) : L.Shrinks c (L.clearAll c) := by
  intro j
  by_cases h : j ∈ L.items
  · exact .inr fun k hk => if_pos (hk.symm ▸ h)
  · exact .inl fun k hk => if_neg fun e => h (hk ▸ e)

omit [DecidableEq I] in
theorem Quiet.shrinks (h : L.Quiet c i) (hs : L.Shrinks c c') : L.Quiet c' i := by
  unfold Quiet at h ⊢
  split
  · rename_i hw
    rw [if_pos hw] at h
    exact fun k hk => hs.gone (h k hk)
  · rename_i hw
    rw [if_neg hw] at h
    exact fun d hd => hs.gone (h d hd)

omit [DecidableEq I] in
theorem Closed.trans (h : L.Closed c₁ c₂) (h' : L.Closed c₂ c₃) (hs : L.Shrinks c₂ c₃) :
    L.Closed c₁ c₃ := by
  intro k h1 h3
  by_cases h2 : c₂ k = none
  · exact (h k h1 h2).shrinks hs
  · exact h' k h2 h3

omit [DecidableEq I] in
theorem Closed.refl (c : Memo V) : L.Closed c c := fun _ h h' => absurd h' h

omit [DecidableEq I] in
theorem marked_le (hs : L.Shrinks c c') : (L.marked c').length ≤ (L.marked c).length := by
  refine (List.monotone_filter_right L.items fun d hd => ?_).length_le
  cases hc : c (L.mark d) with
  | none => rw [hs.gone hc] at hd; exact hd
  | some v => rfl

/-- To forget a marked item leaves fewer of them. -/
theorem marked_clear_lt (hL : L.Valid) (hi : i ∈ L.items) (hm : (c (L.mark i)).isSome = true) :
    (L.marked (L.clear i c)).length < (L.marked c).length := by
  have hsub : (L.marked (L.clear i c)).Sublist ((L.marked c).filter (· ≠ i)) := by
    rw [marked, marked, List.filter_filter]
    refine List.monotone_filter_right L.items fun d hd => ?_
    by_cases he : d = i
    · rw [clear, if_pos ((hL.item_mark d).trans he)] at hd
      exact absurd hd (by simp)
    · rw [clear, if_neg (fun e => he ((hL.item_mark d).symm.trans e))] at hd
      simp [he, hd]
  refine Nat.lt_of_le_of_lt hsub.length_le (List.length_filter_lt_length_iff_exists.mpr ⟨i, ?_, by simp⟩)
  exact List.mem_filter.mpr ⟨hi, hm⟩

/-- What a step for one dependent does. -/
structure Step (L : Links K I) (d : I) (c c' : Memo V) : Prop where
  shrinks : L.Shrinks c c'
  closed : L.Closed c c'
  gone : c' (L.mark d) = none

omit [DecidableEq I] in
theorem foldl_spec {f : Memo V → I → Memo V} (ds : List I)
    (hf : ∀ c d, L.Shrinks c₁ c → d ∈ ds → L.Step d c (f c d)) (hs : L.Shrinks c₁ c) :
    L.Shrinks c (ds.foldl f c) ∧ L.Closed c (ds.foldl f c) ∧
      ∀ d ∈ ds, ds.foldl f c (L.mark d) = none := by
  induction ds generalizing c with
  | nil => exact ⟨.refl c, .refl c, fun _ hd => absurd hd List.not_mem_nil⟩
  | cons d ds ih =>
    have hd := hf c d hs List.mem_cons_self
    obtain ⟨hsh, hcl, hgone⟩ := ih (fun c d h hd => hf c d h (List.mem_cons_of_mem _ hd))
      (hs.trans hd.shrinks)
    refine ⟨hd.shrinks.trans hsh, hd.closed.trans hcl hsh, fun d' hd' => ?_⟩
    rcases List.mem_cons.mp hd' with rfl | hd'
    · exact hsh.gone hd.gone
    · exact hgone d' hd'

/-- What invalidation forgets, it forgets with all that depends on it. -/
theorem invalidate_spec (hL : L.Valid) (hi : L.wide i = true → i ∈ L.items)
    (hn : (L.marked (L.clear i c)).length < n) :
    L.Shrinks c (L.invalidate n i c) ∧ L.Closed c (L.invalidate n i c) ∧
      L.Quiet (L.invalidate n i c) i ∧ ∀ k, L.item k = i → L.invalidate n i c k = none := by
  induction n generalizing i c with
  | zero => exact absurd hn (Nat.not_lt_zero _)
  | succ n ih =>
    by_cases hw : L.wide i = true
    · have he : L.invalidate (n + 1) i c = L.clearAll c := if_pos hw
      have hall : ∀ k, L.item k ∈ L.items → L.clearAll c k = none := fun k hk => if_pos hk
      rw [he]
      have hquiet : L.Quiet (L.clearAll c) i := by
        rw [Quiet, if_pos hw]
        exact hall
      refine ⟨shrinks_clearAll L c, fun k h h' => ?_, hquiet, fun k hk => hall k (hk ▸ hi hw)⟩
      unfold Quiet
      split
      · exact hall
      · exact fun d hd => hall _ ((hL.item_mark d).symm ▸ hL.mem_items _ d hd)
    · have he : L.invalidate (n + 1) i c = (L.dependents i).foldl
          (fun c d => if (c (L.mark d)).isSome then L.invalidate n d c else c) (L.clear i c) :=
        if_neg hw
      have hstep : ∀ c' d, L.Shrinks (L.clear i c) c' → d ∈ L.dependents i →
          L.Step d c' (if (c' (L.mark d)).isSome then L.invalidate n d c' else c') := by
        intro c' d hs hd
        have hdi := hL.mem_items i d hd
        split
        · rename_i hm
          have hlt := marked_clear_lt hL hdi hm
          have hle := marked_le hs
          obtain ⟨h1, h2, -, h4⟩ := ih (i := d) (c := c') (fun _ => hdi) (by omega)
          exact ⟨h1, h2, h4 _ (hL.item_mark d)⟩
        · rename_i hm
          exact ⟨.refl c', .refl c', by simpa using hm⟩
      rw [he]
      obtain ⟨hsh, hcl, hgone⟩ := foldl_spec (L.dependents i) hstep (.refl (L.clear i c))
      generalize (L.dependents i).foldl _ (L.clear i c) = c₁ at hsh hcl hgone ⊢
      have hquiet : L.Quiet c₁ i := by
        rw [Quiet, if_neg hw]
        exact hgone
      refine ⟨(shrinks_clear L i c).trans hsh, fun k h h' => ?_, hquiet, fun k hk => hsh.gone (if_pos hk)⟩
      by_cases hk : L.item k = i
      · rw [hk]
        exact hquiet
      · exact hcl k (by rwa [clear, if_neg hk]) h'

end Links

/-! ## Changes -/

section

variable {tasks tasks' : ∀ k, Task V (V k)} {keep : K → Bool} {settled : K → Prop} {env env' : ∀ k, V k}
  {c c' : Memo V} {rank : K → ℕ} {L : Links K I}

/-- The task of the key is the same, and those of all that it rests on. -/
def Same (tasks tasks' : ∀ k, Task V (V k)) (keep : K → Bool) (env : ∀ k, V k) (k : K) : Prop :=
  tasks' k = tasks k ∧ ∀ k', Rests tasks keep env k k' → tasks' k' = tasks k'

/-- After a change, what is kept is right if it is settled, or rests on what is kept and the
tasks of all that are the same. -/
theorem Sound.change (hc : Sound tasks keep settled env c) (henv : Solves tasks env)
    (henv' : Solves tasks' env') (hrank : Ranked tasks rank) (hsub : ∀ k, c' k = none ∨ c' k = c k)
    (hsettled : ∀ k, settled k → env' k = env k)
    (hsame : ∀ k, c' k ≠ none → ¬settled k → Same tasks tasks' keep env k)
    (hrests : ∀ k, c' k ≠ none → ¬settled k →
      ∀ k', Rests tasks keep env k k' → keep k' = true → c' k' ≠ none) :
    Sound tasks' keep settled env' c' := by
  -- the keys of which neither the value nor what is asked for has changed
  let Good k := Same tasks tasks' keep env k ∧
    ∀ k', Rests tasks keep env k k' → keep k' = true → c' k' ≠ none
  have hkept : ∀ k, c' k ≠ none → ¬settled k → Good k := fun k hk hns => ⟨hsame k hk hns, hrests k hk hns⟩
  have hthrough : ∀ k, Good k → ∀ k' ∈ (tasks k).asks env, keep k' = false → Good k' := by
    intro k hk k' hk' hno
    have hrest : ∀ k'', Rests tasks keep env k' k'' → Rests tasks keep env k k'' :=
      fun k'' h => .through hk' hno h
    exact ⟨⟨hk.1.2 k' (.ask hk'), fun k'' h => hk.1.2 k'' (hrest k'' h)⟩,
      fun k'' h => hk.2 k'' (hrest k'' h)⟩
  have hvalue : ∀ n k, rank k < n → Good k → env' k = env k ∧
      (tasks' k).asks env' = (tasks k).asks env := by
    intro n
    induction n with
    | zero => exact fun k hk => absurd hk (Nat.not_lt_zero _)
    | succ n ih =>
      intro k hk hgood
      have hagree : ∀ k' ∈ (tasks k).asks env, env' k' = env k' := by
        intro k' hk'
        have hlt : rank k' < rank k := (hrank k).asks k' hk'
        cases hkeep : keep k' with
        | false => exact (ih k' (by omega) (hthrough k hgood k' hk' hkeep)).1
        | true =>
          by_cases hs : settled k'
          · exact hsettled k' hs
          · exact (ih k' (by omega) (hkept k' (hgood.2 k' (.ask hk') hkeep) hs)).1
      obtain ⟨hrun, hasks⟩ := Task.run_congr hagree
      rw [← henv' k, hgood.1.1, hrun, henv k]
      exact ⟨rfl, hasks⟩
  have hback : ∀ k k', Rests tasks' keep env' k k' → Good k → Rests tasks keep env k k' := by
    intro k k' h
    induction h with
    | ask h =>
      intro hgood
      rw [(hvalue _ _ (Nat.lt_succ_self _) hgood).2] at h
      exact .ask h
    | through h hk _ ih =>
      intro hgood
      rw [(hvalue _ _ (Nat.lt_succ_self _) hgood).2] at h
      exact .through h hk (ih (hthrough _ hgood _ h hk))
  refine ⟨fun k h => ?_, fun k v h => ?_,
    fun k h hns k' hr hk' => hrests k h hns k' (hback k k' hr (hkept k h hns)) hk'⟩
  · rcases hsub k with hn | he
    · exact absurd hn h
    · exact hc.keeps k (he ▸ h)
  · have hne : c' k ≠ none := by rw [h]; exact Option.some_ne_none v
    have hval : env' k = env k := by
      by_cases hs : settled k
      · exact hsettled k hs
      · exact (hvalue _ k (Nat.lt_succ_self _) (hkept k hne hs)).1
    rcases hsub k with hn | he
    · exact absurd hn hne
    · rw [hval]
      exact hc.right k v (he ▸ h)

/-- A kept value of an item that asks for anything rests on its mark. -/
def Links.Marks (L : Links K I) (tasks : ∀ k, Task V (V k)) (keep : K → Bool) (settled : K → Prop)
    (env : ∀ k, V k) : Prop :=
  ∀ k, keep k = true → (tasks k).asks env ≠ [] → k = L.mark (L.item k) ∨
    ¬settled k ∧ ∃ k', Rests tasks keep env k k' ∧ keep k' = true ∧ L.item k' = L.item k ∧
      (k' = L.mark (L.item k) ∨ (tasks k').asks env ≠ [])

/-- The item of the first key is that of the second, or a dependent of it. -/
def Links.Linked (L : Links K I) (k k' : K) : Prop :=
  L.item k' = L.item k ∨
    if L.wide (L.item k') then L.item k ∈ L.items else L.item k ∈ L.dependents (L.item k')

/-- What the kept values rest on belongs to the same item, or to one that it is a dependent of,
except for the settled ones. -/
def Links.Covers (L : Links K I) (tasks : ∀ k, Task V (V k)) (keep : K → Bool) (settled : K → Prop)
    (env : ∀ k, V k) : Prop :=
  ∀ k, keep k = true → ¬settled k → ∀ k', Rests tasks keep env k k' → L.Linked k k'

/-- Where values are kept that ask for anything, the mark is kept. -/
theorem Sound.mark (hc : Sound tasks keep settled env c) (hrank : Ranked tasks rank)
    (hm : L.Marks tasks keep settled env) :
    ∀ n k, rank k < n → c k ≠ none → (tasks k).asks env ≠ [] → c (L.mark (L.item k)) ≠ none := by
  intro n
  induction n with
  | zero => exact fun k hk => absurd hk (Nat.not_lt_zero _)
  | succ n ih =>
    intro k hk hkept hne
    rcases hm k (hc.keeps k hkept) hne with he | ⟨hns, k', hr, hkeep, hitem, hor⟩
    · rwa [← he]
    · have hkept' := hc.rests k hkept hns k' hr hkeep
      have hlt := hr.rank_lt hrank
      rcases hor with he | hne'
      · rwa [← he]
      · rw [← hitem]
        exact ih k' (by omega) hkept' hne'

/-- The values of an item are forgotten, and so are the marks of its dependents. -/
def Links.Gone (L : Links K I) (c : Memo V) (i : I) : Prop :=
  (∀ k, L.item k = i → c k = none) ∧ L.Quiet c i

/-- What asks for anything and depends on an item that is gone is not kept. -/
theorem Links.Gone.of_linked (h : L.Gone c' i) (hc : Sound tasks keep settled env c) (hrank : Ranked tasks rank)
    (hL : L.Valid) (hm : L.Marks tasks keep settled env) (hs : L.Shrinks c c') {k : K} (hk : c k ≠ none)
    (hne : (tasks k).asks env ≠ [])
    (hl : i = L.item k ∨ if L.wide i then L.item k ∈ L.items else L.item k ∈ L.dependents i) :
    c' k = none := by
  rcases hl with he | hdep
  · exact h.1 k he.symm
  · have hquiet := h.2
    unfold Links.Quiet at hquiet
    split at hquiet
    · rename_i hw
      rw [if_pos hw] at hdep
      exact hquiet k hdep
    · rename_i hw
      rw [if_neg hw] at hdep
      have hmark := hc.mark hrank hm _ k (Nat.lt_succ_self _) hk hne
      exact hs.forgotten hmark (hquiet _ hdep) (hL.item_mark _).symm

/-- What rests on a key of an item that is gone is not kept. -/
theorem Links.Gone.forgotten (h : L.Gone c' i) (hc : Sound tasks keep settled env c) (hrank : Ranked tasks rank)
    (hL : L.Valid) (hm : L.Marks tasks keep settled env) (hcov : L.Covers tasks keep settled env)
    (hs : L.Shrinks c c') {k k' : K} (hk : c k ≠ none) (hns : ¬settled k) (hr : Rests tasks keep env k k')
    (hi : L.item k' = i) : c' k = none := by
  have hl := hcov k (hc.keeps k hk) hns k' hr
  unfold Links.Linked at hl
  rw [hi] at hl
  exact h.of_linked hc hrank hL hm hs hk hr.exists_ask hl

/-- A change is safe if what was forgotten was forgotten with its dependents, and what is
kept was not concerned. -/
theorem Sound.shrinks (hc : Sound tasks keep settled env c) (henv : Solves tasks env)
    (henv' : Solves tasks' env') (hrank : Ranked tasks rank) (hL : L.Valid)
    (hm : L.Marks tasks keep settled env) (hcov : L.Covers tasks keep settled env) (hs : L.Shrinks c c')
    (hcl : L.Closed c c') (hsettled : ∀ k, settled k → env' k = env k)
    (hsame : ∀ k, c' k ≠ none → ¬settled k → Same tasks tasks' keep env k) :
    Sound tasks' keep settled env' c' := by
  have hsub : ∀ k, c' k = none ∨ c' k = c k := by
    intro k
    rcases hs (L.item k) with h | h
    · exact .inr (h k rfl)
    · exact .inl (h k rfl)
  refine hc.change henv henv' hrank hsub hsettled hsame fun k hkept hns k' hr hkeep hgone => hkept ?_
  have hk : c k ≠ none := by
    rcases hsub k with h | h
    · exact absurd h hkept
    · rwa [← h]
  have hk' : c k' ≠ none := hc.rests k hk hns k' hr hkeep
  have hall : L.Gone c' (L.item k') := ⟨fun k'' he => hs.forgotten hk' hgone he, hcl k' hk' hgone⟩
  exact hall.forgotten hc hrank hL hm hcov hs hk hns hr rfl

end

end HassOS.Framework
