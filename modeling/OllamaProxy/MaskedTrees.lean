/-
# The masking of a tree

In a tree each container is below one other only: the list of its containers
(`LogHeap.Holds`) has none twice. So the walk comes to each dict once, with its
old values in it, and what a value prints as is not changed before.

`Masked` says which entries of a heap have the preview of what they had, and
that all else is as it was. A call of the walk adds to them the entries that it
reaches (`walk_masked`), which for the whole extra are those of the forbidden
keys in the dicts of depth 2 at most (`maskRecord_masked`). Read as a value, the
new extra is that of `LogLibrary.maskRecord` (`maskRecord_holds`).

Key definitions: `LogRuntime.Masked`, `LogRuntime.entries`,
`LogRuntime.forbiddenEntries`.
Key theorems: `walk_masked`, `maskRecord_masked`, `maskRecord_holds`.
-/
import OllamaProxy.Masking

namespace OllamaProxy

open Kit Relation

/-! ### The containers of a tree -/

namespace LogHeap

variable {h g : LogHeap} {v : LogRef} {t : LogValue} {vs : List LogRef} {ts : List LogValue} {owned : List LogRef}

/-- Trees are as they were where their dicts are. -/
theorem Holds.frame (hts : h.Holds vs ts owned) (hlists : g.lists = h.lists)
    (hkeys : ∀ a, (g.dicts a).keys = (h.dicts a).keys)
    (hvals : ∀ a k, .dict a ∈ owned → (g.dicts a).val k = (h.dicts a).val k) : g.Holds vs ts owned := by
  induction hts with
  | nil => exact .nil
  | none _ ih => exact .none (ih hvals)
  | str s _ ih => exact .str s (ih hvals)
  | other n _ ih => exact .other n (ih hvals)
  | dict a hitemKeys _ _ ihitems ih =>
    have hitems := ihitems fun b k hb => hvals b k (List.mem_append_left _ (List.mem_cons_of_mem _ hb))
    refine .dict a (hitemKeys.trans (hkeys a).symm) ?_ (ih fun b k hb => hvals b k (List.mem_append_right _ hb))
    rwa [hkeys, List.map_congr_left fun k _ => hvals a k List.mem_cons_self]
  | list l _ _ ihitems ih =>
    have hitems := ihitems fun b k hb => hvals b k (List.mem_append_left _ (List.mem_cons_of_mem _ hb))
    exact .list l (by rwa [hlists]) (ih fun b k hb => hvals b k (List.mem_append_right _ hb))

/-- The containers of the first value come before those of the others. -/
theorem Holds.split (hts : h.Holds (v :: vs) ts owned) :
    ∃ t ts' part rest, ts = t :: ts' ∧ owned = part ++ rest ∧ h.Holds [v] [t] part ∧ h.Holds vs ts' rest := by
  cases hts with
  | none hvs => exact ⟨_, _, [], _, rfl, rfl, .none .nil, hvs⟩
  | str s hvs => exact ⟨_, _, [], _, rfl, rfl, .str s .nil, hvs⟩
  | other n hvs => exact ⟨_, _, [], _, rfl, rfl, .other n .nil, hvs⟩
  | dict a hkeys hitems hvs => exact ⟨_, _, _, _, rfl, by simp, .dict a hkeys hitems .nil, hvs⟩
  | list l hitems hvs => exact ⟨_, _, _, _, rfl, by simp, .list l hitems .nil, hvs⟩

theorem Holds.cons {part : List LogRef} (hv : h.Holds [v] [t] part) (hvs : h.Holds vs ts owned) :
    h.Holds (v :: vs) (t :: ts) (part ++ owned) := by
  cases hv with
  | none hnil => cases hnil; exact .none hvs
  | str s hnil => cases hnil; exact .str s hvs
  | other n hnil => cases hnil; exact .other n hvs
  | dict a hkeys hitems hnil => cases hnil; simpa using Holds.dict a hkeys hitems hvs
  | list l hitems hnil => cases hnil; simpa using Holds.list l hitems hvs

theorem Holds.of_mem (hts : h.Holds vs ts owned) (hv : v ∈ vs) : ∃ t part, h.Holds [v] [t] part ∧ part.Sublist owned := by
  induction vs generalizing ts owned with
  | nil => cases hv
  | cons v' vs ih =>
    obtain ⟨t, ts', part, rest, -, rfl, hv', hvs⟩ := hts.split
    rcases List.mem_cons.mp hv with rfl | hin
    · exact ⟨t, part, hv', List.sublist_append_left _ _⟩
    · obtain ⟨t', part', hholds, hsub⟩ := ih hvs hin
      exact ⟨t', part', hholds, hsub.trans (List.sublist_append_right _ _)⟩

end LogHeap

namespace LogRuntime

variable {lib : LogRuntime} {h g g' : LogHeap} {limit depth a l root : ℕ} {c c' : MaskCall} {v : LogRef}
  {t : LogValue} {owned : List LogRef}

theorem ref_cons_of_holds (ht : h.Holds [c.ref] [t] owned) : ∃ inner, owned = c.ref :: inner := by
  cases c with
  | dict a depth => cases ht; exact ⟨_, rfl⟩
  | list l depth => cases ht; exact ⟨_, rfl⟩

/-- A call goes on to a part of the tree. -/
theorem holds_of_calls (ht : h.Holds [c.ref] [t] owned) (hcalls : lib.Calls h c c') :
    ∃ t' part inner, h.Holds [c'.ref] [t'] part ∧ owned = c.ref :: inner ∧ part.Sublist inner := by
  obtain ⟨-, v, hv, hcall⟩ := hcalls
  rw [(call_eq_some_iff.mp hcall).1]
  cases c with
  | dict a depth =>
    cases ht with
    | @dict _ items _ _ inner _ hkeys hitems hvs =>
      cases hvs
      obtain ⟨k, hk, rfl⟩ := List.mem_map.mp hv
      obtain ⟨t', part, hholds, hsub⟩ := hitems.of_mem (List.mem_map_of_mem (List.mem_filter.mp hk).1)
      exact ⟨t', part, inner, hholds, List.append_nil _, hsub⟩
  | list l depth =>
    cases ht with
    | @list _ items _ _ inner _ hitems hvs =>
      cases hvs
      obtain ⟨t', part, hholds, hsub⟩ := hitems.of_mem hv
      exact ⟨t', part, inner, hholds, List.append_nil _, hsub⟩

/-- On a tree the calls nest at most as often as it has containers. -/
theorem within_of_holds {n : ℕ} (ht : h.Holds [c.ref] [t] owned) (hn : owned.length ≤ n) :
    Within (lib.Calls h) n c := by
  induction n generalizing c t owned with
  | zero =>
    obtain ⟨inner, rfl⟩ := ref_cons_of_holds ht
    cases hn
  | succ n ih =>
    intro c' hcalls
    obtain ⟨t', part, inner, hholds, rfl, hsub⟩ := holds_of_calls ht hcalls
    have hle := hsub.length_le
    rw [List.length_cons] at hn
    exact ih hholds (by omega)

/-- What is reached is of the containers of the tree. -/
theorem mem_owned_of_calls (hcalls : ReflTransGen (lib.Calls h) c c') (ht : h.Holds [c.ref] [t] owned) :
    c'.ref ∈ owned := by
  induction hcalls using ReflTransGen.head_induction_on generalizing t owned with
  | refl =>
    obtain ⟨inner, rfl⟩ := ref_cons_of_holds ht
    exact List.mem_cons_self
  | @head c c₁ hstep hrest ih =>
    obtain ⟨t', part, inner, hholds, rfl, hsub⟩ := holds_of_calls ht hstep
    exact List.mem_cons_of_mem _ (hsub.subset (ih hholds))

/-! ### The entries that a call masks -/

variable (lib)

/-- In `g` the entries have the previews of what they have in `h`, and all else
is as in `h`. -/
structure Masked (h g : LogHeap) (entries : Set (ℕ × LogKey)) : Prop where
  lists : g.lists = h.lists
  keys : ∀ a, (g.dicts a).keys = (h.dicts a).keys
  masked : ∀ a k, (a, k) ∈ entries → (g.dicts a).val k = .str (lib.previewAt h ((h.dicts a).val k))
  kept : ∀ a k, (a, k) ∉ entries → (g.dicts a).val k = (h.dicts a).val k

/-- The entries of forbidden keys in the dicts that a call reaches. -/
def entries (h : LogHeap) (c : MaskCall) : Set (ℕ × LogKey) :=
  { e | e.2 ∈ (h.dicts e.1).keys ∧ lib.forbidden e.2 = true ∧
    ∃ depth < maxRecursionDepth, ReflTransGen (lib.Calls h) c (.dict e.1 depth) }

/-- Those that are reached through a value. -/
def entriesBelow (h : LogHeap) (depth : ℕ) (v : LogRef) : Set (ℕ × LogKey) :=
  { e | ∃ c, v.call depth = some c ∧ e ∈ lib.entries h c }

variable {lib} {W : Set (ℕ × LogKey)} {e : ℕ × LogKey} {k : LogKey}

theorem mem_entries_iff : e ∈ lib.entries h c ↔ c.depth < maxRecursionDepth ∧
    ((c.ref = .dict e.1 ∧ e.2 ∈ (h.dicts e.1).keys ∧ lib.forbidden e.2 = true) ∨
      ∃ v ∈ lib.met h c, e ∈ lib.entriesBelow h c.depth v) := by
  constructor
  · rintro ⟨hkey, hforbidden, depth, hdepth, hreach⟩
    rcases ReflTransGen.cases_head hreach with rfl | ⟨c', ⟨hlt, v, hv, hcall⟩, hrest⟩
    · exact ⟨hdepth, Or.inl ⟨rfl, hkey, hforbidden⟩⟩
    · exact ⟨hlt, Or.inr ⟨v, hv, c', hcall, hkey, hforbidden, depth, hdepth, hrest⟩⟩
  · rintro ⟨hlt, ⟨href, hkey, hforbidden⟩ | ⟨v, hv, c', hcall, hkey, hforbidden, depth, hdepth, hrest⟩⟩
    · refine ⟨hkey, hforbidden, c.depth, hlt, ?_⟩
      cases c <;> cases href
      exact .refl
    · exact ⟨hkey, hforbidden, depth, hdepth, ReflTransGen.head ⟨hlt, v, hv, hcall⟩ hrest⟩

theorem entriesBelow_eq (hcall : v.call depth = some c) : lib.entriesBelow h depth v = lib.entries h c := by
  ext e
  simp [entriesBelow, hcall]

/-- The entries below a value are in its own dicts. -/
theorem mem_owned_of_mem_below (he : e ∈ lib.entriesBelow h depth v) (hv : h.Holds [v] [t] owned) :
    .dict e.1 ∈ owned := by
  obtain ⟨c, hcall, -, -, depth', -, hreach⟩ := he
  rw [← (call_eq_some_iff.mp hcall).1] at hv
  exact mem_owned_of_calls hreach hv

theorem Masked.refl (h : LogHeap) : lib.Masked h h ∅ where
  lists := rfl
  keys _ := rfl
  masked _ _ hmem := hmem.elim
  kept _ _ _ := rfl

/-- Trees without a masked entry are as they were. -/
theorem Masked.holds {vs : List LogRef} {ts : List LogValue} (hm : lib.Masked h g W) (hts : h.Holds vs ts owned)
    (hout : ∀ e ∈ W, .dict e.1 ∉ owned) : g.Holds vs ts owned :=
  hts.frame hm.lists hm.keys fun a k ha => hm.kept a k fun hmem => hout (a, k) hmem ha

theorem previewAt_holds (hv : h.Holds [v] [t] owned) : lib.previewAt h v = lib.preview t := by
  have hstr := lib.strAt_holds hv
  cases hv with
  | none _ => rfl
  | str s _ => rfl
  | other n _ => exact congrArg previewText hstr
  | dict a _ _ _ => exact congrArg previewText hstr
  | list l _ _ => exact congrArg previewText hstr

theorem Masked.set (hm : lib.Masked h g W) (hnot : (a, k) ∉ W)
    (hpreview : lib.previewAt g ((g.dicts a).val k) = lib.previewAt h ((h.dicts a).val k)) :
    lib.Masked h (g.set a k (.str (lib.previewAt g ((g.dicts a).val k)))) (W ∪ {(a, k)}) where
  lists := hm.lists
  keys b := (set_keys g a b k _).trans (hm.keys b)
  masked b k' hmem := by
    rw [set_val]
    split_ifs with hsame
    · obtain ⟨rfl, rfl⟩ := hsame
      rw [hpreview]
    · refine hm.masked b k' (hmem.resolve_right fun heq => hsame ?_)
      cases heq
      exact ⟨rfl, rfl⟩
  kept b k' hmem := by
    rw [Set.mem_union, not_or] at hmem
    rw [set_val, if_neg]
    · exact hm.kept b k' hmem.1
    · rintro ⟨rfl, rfl⟩
      exact hmem.2 rfl

/-! ### The walk of a tree -/

/-- Of a key: its own entry, or those below its value. -/
def itemEntries (lib : LogRuntime) (h : LogHeap) (depth a : ℕ) (k : LogKey) : Set (ℕ × LogKey) :=
  if lib.forbidden k then {(a, k)} else lib.entriesBelow h depth ((h.dicts a).val k)

theorem mem_owned_of_mem_item (he : e ∈ lib.itemEntries h depth a k) (hv : h.Holds [(h.dicts a).val k] [t] owned) :
    e = (a, k) ∨ .dict e.1 ∈ owned := by
  unfold itemEntries at he
  split_ifs at he
  · exact Or.inl he
  · exact Or.inr (mem_owned_of_mem_below he hv)

theorem mem_owned_of_mem_elements {vs : List LogRef} {ts : List LogValue} (hts : h.Holds vs ts owned)
    (he : e ∈ ⋃ v ∈ vs, lib.entriesBelow h depth v) : .dict e.1 ∈ owned := by
  obtain ⟨v, hv, hin⟩ := Set.mem_iUnion₂.mp he
  obtain ⟨t, part, hholds, hsub⟩ := hts.of_mem hv
  exact hsub.subset (mem_owned_of_mem_below hin hholds)

theorem mem_owned_of_mem_items {ks : List LogKey} {ts : List LogValue}
    (hts : h.Holds (ks.map (h.dicts a).val) ts owned) (he : e ∈ ⋃ k ∈ ks, lib.itemEntries h depth a k) :
    e.1 = a ∨ .dict e.1 ∈ owned := by
  obtain ⟨k, hk, hin⟩ := Set.mem_iUnion₂.mp he
  obtain ⟨t, part, hholds, hsub⟩ := hts.of_mem (List.mem_map_of_mem hk)
  rcases mem_owned_of_mem_item hin hholds with rfl | hmem
  · exact Or.inl rfl
  · exact Or.inr (hsub.subset hmem)

theorem entries_dict (hdepth : (MaskCall.dict a depth).depth < maxRecursionDepth) :
    lib.entries h (.dict a depth) = ⋃ k ∈ (h.dicts a).keys, lib.itemEntries h depth a k := by
  ext ⟨b, k⟩
  rw [mem_entries_iff, and_iff_right hdepth]
  simp only [MaskCall.depth, MaskCall.ref, LogRef.dict.injEq, Set.mem_iUnion₂]
  constructor
  · rintro (⟨rfl, hk, hforbidden⟩ | ⟨v, hv, he⟩)
    · exact ⟨k, hk, by simp [itemEntries, hforbidden]⟩
    · obtain ⟨k', hk', rfl⟩ := List.mem_map.mp hv
      obtain ⟨hmem, hforbidden⟩ := List.mem_filter.mp hk'
      exact ⟨k', hmem, by simpa [itemEntries, (Bool.not_eq_true' _).mp hforbidden] using he⟩
  · rintro ⟨k', hk', he⟩
    unfold itemEntries at he
    split_ifs at he with hforbidden
    · cases he
      exact Or.inl ⟨rfl, hk', hforbidden⟩
    · rw [Bool.not_eq_true] at hforbidden
      exact Or.inr ⟨_, List.mem_map_of_mem (List.mem_filter.mpr ⟨hk', by simp [hforbidden]⟩), he⟩

theorem entries_list (hdepth : (MaskCall.list l depth).depth < maxRecursionDepth) :
    lib.entries h (.list l depth) = ⋃ v ∈ h.lists l, lib.entriesBelow h depth v := by
  ext e
  rw [mem_entries_iff, and_iff_right hdepth]
  simp [MaskCall.depth, MaskCall.ref, met]

theorem entries_of_le (hdepth : maxRecursionDepth ≤ c.depth) : lib.entries h c = ∅ := by
  ext e
  simp [mem_entries_iff, hdepth.not_gt]

section

variable (ih : ∀ {c : MaskCall} {g g' : LogHeap} {W : Set (ℕ × LogKey)} {t : LogValue} {owned : List LogRef},
  h.Holds [c.ref] [t] owned → owned.Nodup → lib.Masked h g W → (∀ e ∈ W, .dict e.1 ∉ owned) →
    lib.walk limit c g = some g' → lib.Masked h g' (W ∪ lib.entries h c))

include ih

theorem enter_masked (hv : h.Holds [v] [t] owned) (hnodup : owned.Nodup) (hm : lib.Masked h g W)
    (hout : ∀ e ∈ W, .dict e.1 ∉ owned) (henter : lib.enter limit depth g v = some g') :
    lib.Masked h g' (W ∪ lib.entriesBelow h depth v) := by
  unfold enter at henter
  split at henter
  · rename_i hcall
    cases henter
    have hnone : lib.entriesBelow h depth v = ∅ := by
      ext e
      simp [entriesBelow, hcall]
    rwa [hnone, Set.union_empty]
  · rename_i c hcall
    rw [entriesBelow_eq hcall]
    rw [← (call_eq_some_iff.mp hcall).1] at hv
    exact ih hv hnodup hm hout henter

theorem elements_masked {vs : List LogRef} {ts : List LogValue} (hts : h.Holds vs ts owned) (hnodup : owned.Nodup)
    (hm : lib.Masked h g W) (hout : ∀ e ∈ W, .dict e.1 ∉ owned) (hfold : vs.foldlM (lib.enter limit depth) g = some g') :
    lib.Masked h g' (W ∪ ⋃ v ∈ vs, lib.entriesBelow h depth v) := by
  induction vs generalizing ts owned g W with
  | nil =>
    cases hfold
    simpa using hm
  | cons v vs ihvs =>
    obtain ⟨t, ts', part, rest, -, rfl, hv, hvs⟩ := hts.split
    obtain ⟨hpart, hrest, hdisjoint⟩ := List.nodup_append'.mp hnodup
    rw [List.foldlM_cons] at hfold
    obtain ⟨g₁, henter, hfold⟩ := Option.bind_eq_some_iff.mp hfold
    have hm₁ := enter_masked ih hv hpart hm (fun e he hin => hout e he (List.mem_append_left _ hin)) henter
    have hm' := ihvs hvs hrest hm₁ (fun e he hin => ?_) hfold
    · simpa [Set.union_assoc] using hm'
    · rcases he with he | he
      · exact hout e he (List.mem_append_right _ hin)
      · exact hdisjoint (mem_owned_of_mem_below he hv) hin

theorem item_masked (hv : h.Holds [(h.dicts a).val k] [t] owned) (hnodup : owned.Nodup) (hm : lib.Masked h g W)
    (hout : ∀ e ∈ W, .dict e.1 ∉ owned) (hk : (a, k) ∉ W) (hitem : lib.item limit depth a g k = some g') :
    lib.Masked h g' (W ∪ lib.itemEntries h depth a k) := by
  have hval := hm.kept a k hk
  unfold item at hitem
  unfold itemEntries
  split_ifs at hitem ⊢ with hforbidden
  · cases hitem
    refine hm.set hk ?_
    rw [hval]
    exact (previewAt_holds (hm.holds hv hout)).trans (previewAt_holds hv).symm
  · rw [hval] at hitem
    exact enter_masked ih hv hnodup hm hout hitem

theorem items_masked {ks : List LogKey} {ts : List LogValue} (hts : h.Holds (ks.map (h.dicts a).val) ts owned)
    (hnodup : owned.Nodup) (hkeys : ks.Nodup) (ha : .dict a ∉ owned) (hm : lib.Masked h g W)
    (hout : ∀ e ∈ W, .dict e.1 ∉ owned) (hown : ∀ k ∈ ks, (a, k) ∉ W)
    (hfold : ks.foldlM (lib.item limit depth a) g = some g') :
    lib.Masked h g' (W ∪ ⋃ k ∈ ks, lib.itemEntries h depth a k) := by
  induction ks generalizing ts owned g W with
  | nil =>
    cases hfold
    simpa using hm
  | cons k ks ihks =>
    obtain ⟨t, ts', part, rest, -, rfl, hv, hvs⟩ := hts.split
    obtain ⟨hpart, hrest, hdisjoint⟩ := List.nodup_append'.mp hnodup
    obtain ⟨hk, hks⟩ := List.nodup_cons.mp hkeys
    rw [List.foldlM_cons] at hfold
    obtain ⟨g₁, hitem, hfold⟩ := Option.bind_eq_some_iff.mp hfold
    have hm₁ := item_masked ih hv hpart hm (fun e he hin => hout e he (List.mem_append_left _ hin))
      (hown k List.mem_cons_self) hitem
    have hm' := ihks hvs hrest hks (fun hin => ha (List.mem_append_right _ hin)) hm₁ (fun e he hin => ?_)
      (fun k' hk' he => ?_) hfold
    · simpa [Set.union_assoc] using hm'
    · rcases he with he | he
      · exact hout e he (List.mem_append_right _ hin)
      · rcases mem_owned_of_mem_item he hv with rfl | hpart'
        · exact ha (List.mem_append_right _ hin)
        · exact hdisjoint hpart' hin
    · rcases he with he | he
      · exact hown k' (List.mem_cons_of_mem _ hk') he
      · rcases mem_owned_of_mem_item he hv with heq | hpart'
        · cases heq
          exact hk hk'
        · exact ha (List.mem_append_left _ hpart')

end

/-- **A call masks the entries that it reaches**, with the previews of what they
had. -/
theorem walk_masked (ht : h.Holds [c.ref] [t] owned) (hnodup : owned.Nodup) (hm : lib.Masked h g W)
    (hout : ∀ e ∈ W, .dict e.1 ∉ owned) (hwalk : lib.walk limit c g = some g') :
    lib.Masked h g' (W ∪ lib.entries h c) := by
  induction limit generalizing c g g' W t owned with
  | zero => cases c <;> cases hwalk
  | succ limit ih =>
    by_cases hdepth : maxRecursionDepth ≤ c.depth
    · rw [walk_of_le hdepth] at hwalk
      cases hwalk
      rwa [entries_of_le hdepth, Set.union_empty]
    · have hlt := not_le.mp hdepth
      cases c with
      | dict a depth =>
        rw [walk_dict hlt, hm.keys a] at hwalk
        rw [entries_dict hlt]
        cases ht with
        | @dict _ items _ _ inner _ hkeys hitems hvs =>
          cases hvs
          rw [List.append_nil] at hnodup hout
          obtain ⟨ha, hinner⟩ := List.nodup_cons.mp hnodup
          exact items_masked ih hitems hinner (h.dicts a).nodup ha hm
            (fun e he hin => hout e he (List.mem_cons_of_mem _ hin)) (fun k _ he => hout _ he List.mem_cons_self) hwalk
      | list l depth =>
        rw [walk_list hlt, hm.lists] at hwalk
        rw [entries_list hlt]
        cases ht with
        | @list _ items _ _ inner _ hitems hvs =>
          cases hvs
          rw [List.append_nil] at hnodup hout
          obtain ⟨-, hinner⟩ := List.nodup_cons.mp hnodup
          exact elements_masked ih hitems hinner hm (fun e he hin => hout e he (List.mem_cons_of_mem _ hin)) hwalk

/-! ### The new values -/

/-- Of the entries in these dicts, both sets have the same. -/
def SameIn (owned : List LogRef) (W E : Set (ℕ × LogKey)) : Prop :=
  ∀ e : ℕ × LogKey, .dict e.1 ∈ owned → (e ∈ W ↔ e ∈ E)

/-- The value has become what `LogLibrary.maskValue` makes of it, if the entries
in its dicts are those below it. -/
def BecomesMasked (lib : LogRuntime) (h g : LogHeap) (W : Set (ℕ × LogKey)) (depth : ℕ) (v : LogRef) (t : LogValue)
    (owned : List LogRef) : Prop :=
  h.Holds [v] [t] owned → owned.Nodup → SameIn owned W (lib.entriesBelow h depth v) →
    ∃ owned', owned'.Sublist owned ∧ g.Holds [v] [lib.maskValue depth t] owned'

theorem SameIn.left {part rest : List LogRef} {E F : Set (ℕ × LogKey)} (hsame : SameIn (part ++ rest) W (E ∪ F))
    (hF : ∀ e ∈ F, .dict e.1 ∉ part) : SameIn part W E := by
  intro e he
  rw [hsame e (List.mem_append_left _ he), Set.mem_union, or_iff_left]
  exact fun hin => hF e hin he

theorem SameIn.right {part rest : List LogRef} {E F : Set (ℕ × LogKey)} (hsame : SameIn (part ++ rest) W (E ∪ F))
    (hE : ∀ e ∈ E, .dict e.1 ∉ rest) : SameIn rest W F := by
  intro e he
  rw [hsame e (List.mem_append_right _ he), Set.mem_union, or_iff_right]
  exact fun hin => hE e hin he

theorem maskDict_keys : ∀ items : List (LogKey × LogValue),
    (lib.toLogLibrary.maskDict depth items).map (·.1) = items.map (·.1)
  | [] => by rw [LogLibrary.maskDict]
  | (k, t) :: items => by
    rw [LogLibrary.maskDict]
    by_cases hdepth : maxRecursionDepth ≤ depth
    · rw [if_pos hdepth]
    · rw [if_neg hdepth, List.map_cons, List.map_cons, maskDict_keys items]

section

variable {n : ℕ} {vs : List LogRef} {ts : List LogValue} (hm : lib.Masked h g W)
  (ih : ∀ (depth : ℕ) (v : LogRef) (t : LogValue) (owned : List LogRef), owned.length < n →
    BecomesMasked lib h g W depth v t owned)

include ih

theorem elements_hold (hdepth : depth < maxRecursionDepth) (hts : h.Holds vs ts owned) (hn : owned.length < n)
    (hnodup : owned.Nodup) (hsame : SameIn owned W (⋃ v ∈ vs, lib.entriesBelow h depth v)) :
    ∃ owned', owned'.Sublist owned ∧ g.Holds vs (lib.toLogLibrary.maskList depth ts) owned' := by
  induction vs generalizing ts owned with
  | nil =>
    cases hts
    exact ⟨[], List.Sublist.refl _, .nil⟩
  | cons v vs ihvs =>
    obtain ⟨t, ts', part, rest, rfl, rfl, hv, hvs⟩ := hts.split
    obtain ⟨hpart, hrest, hdisjoint⟩ := List.nodup_append'.mp hnodup
    simp only [List.mem_cons, Set.iUnion_iUnion_eq_or_left] at hsame
    rw [List.length_append] at hn
    obtain ⟨part', hpart', hnew⟩ := ih depth v t part (by omega) hv hpart
      (hsame.left fun e he hin => hdisjoint hin (mem_owned_of_mem_elements hvs he))
    obtain ⟨rest', hrest', hnews⟩ := ihvs hvs (by omega) hrest
      (hsame.right fun e he hin => hdisjoint (mem_owned_of_mem_below he hv) hin)
    rw [LogLibrary.maskList, if_neg hdepth.not_ge]
    exact ⟨part' ++ rest', hpart'.append hrest', hnew.cons hnews⟩

include hm

theorem items_hold {ks : List LogKey} {items : List (LogKey × LogValue)} (hdepth : depth < maxRecursionDepth)
    (hkeys : items.map (·.1) = ks) (hts : h.Holds (ks.map (h.dicts a).val) (items.map (·.2)) owned)
    (hn : owned.length < n) (hnodup : owned.Nodup) (ha : .dict a ∉ owned)
    (hown : ∀ k ∈ ks, (a, k) ∈ W ↔ lib.forbidden k = true)
    (hsame : SameIn owned W (⋃ k ∈ ks, lib.itemEntries h depth a k)) :
    ∃ owned', owned'.Sublist owned ∧
      g.Holds (ks.map (g.dicts a).val) ((lib.toLogLibrary.maskDict depth items).map (·.2)) owned' := by
  induction ks generalizing items owned with
  | nil =>
    cases List.map_eq_nil_iff.mp hkeys
    cases hts
    exact ⟨[], List.Sublist.refl _, .nil⟩
  | cons k ks ihks =>
    obtain ⟨⟨k, t⟩, items, rfl, rfl, htail⟩ := List.map_eq_cons_iff.mp hkeys
    obtain ⟨t', ts', part, rest, hcons, rfl, hv, hvs⟩ := hts.split
    cases hcons
    obtain ⟨hpart, hrest, hdisjoint⟩ := List.nodup_append'.mp hnodup
    rw [List.mem_append, not_or] at ha
    simp only [List.mem_cons, Set.iUnion_iUnion_eq_or_left] at hsame
    rw [List.length_append] at hn
    have hsameRest : SameIn rest W (⋃ k ∈ ks, lib.itemEntries h depth a k) := by
      refine hsame.right fun e he hin => ?_
      rcases mem_owned_of_mem_item he hv with rfl | hmem
      · exact ha.2 hin
      · exact hdisjoint hmem hin
    obtain ⟨rest', hrest', hnews⟩ := ihks htail hvs (by omega) hrest ha.2
      (fun k' hk' => hown k' (List.mem_cons_of_mem _ hk')) hsameRest
    have hownk := hown k List.mem_cons_self
    rw [LogLibrary.maskDict, if_neg hdepth.not_ge, List.map_cons, List.map_cons]
    by_cases hforbidden : lib.forbidden k = true
    · rw [if_pos hforbidden, hm.masked a k (hownk.mpr hforbidden), previewAt_holds hv]
      exact ⟨rest', hrest'.trans (List.sublist_append_right _ _), .str _ hnews⟩
    · have hsamePart : SameIn part W (lib.entriesBelow h depth ((h.dicts a).val k)) := by
        rw [itemEntries, if_neg hforbidden] at hsame
        refine hsame.left fun e he hin => ?_
        rcases mem_owned_of_mem_items hvs he with rfl | hmem
        · exact ha.1 hin
        · exact hdisjoint hin hmem
      obtain ⟨part', hpart', hnew⟩ := ih depth _ t part (by omega) hv hpart hsamePart
      rw [if_neg hforbidden, hm.kept a k fun hin => hforbidden (hownk.mp hin)]
      exact ⟨part' ++ rest', hpart'.append hrest', hnew.cons hnews⟩

theorem dict_hold {items : List (LogKey × LogValue)} (ht : h.Holds [.dict a] [.dict items] owned)
    (hn : owned.length ≤ n) (hnodup : owned.Nodup) (hsame : SameIn owned W (lib.entries h (.dict a depth))) :
    ∃ owned', owned'.Sublist owned ∧ g.Holds [.dict a] [.dict (lib.toLogLibrary.maskDict depth items)] owned' := by
  rcases Nat.lt_or_ge depth maxRecursionDepth with hdepth | hdepth
  · cases ht with
    | @dict _ _ _ _ inner _ hkeys hitems hvs =>
      cases hvs
      rw [List.append_nil] at *
      obtain ⟨ha, hinner⟩ := List.nodup_cons.mp hnodup
      have hown : ∀ k ∈ (h.dicts a).keys, (a, k) ∈ W ↔ lib.forbidden k = true := by
        intro k hk
        rw [hsame (a, k) List.mem_cons_self]
        exact ⟨fun hin => hin.2.1, fun hforbidden => ⟨hk, hforbidden, depth, hdepth, .refl⟩⟩
      rw [entries_dict hdepth] at hsame
      obtain ⟨inner', hsub, hnew⟩ := items_hold hm ih hdepth hkeys hitems (by simpa using hn) hinner ha hown
        fun e he => hsame e (List.mem_cons_of_mem _ he)
      refine ⟨.dict a :: inner' ++ [], by simpa using hsub, .dict a ?_ ?_ .nil⟩
      · rw [maskDict_keys, hkeys, hm.keys]
      · rwa [hm.keys]
  · have hitems : lib.toLogLibrary.maskDict depth items = items := by
      cases items with
      | nil => rw [LogLibrary.maskDict]
      | cons item items => exact if_pos hdepth
    rw [entries_of_le (c := .dict a depth) hdepth] at hsame
    rw [hitems]
    exact ⟨owned, List.Sublist.refl _, hm.holds ht fun e he hin => (hsame e hin).mp he⟩

theorem list_hold (ht : h.Holds [.list l] [.list ts] owned) (hn : owned.length ≤ n) (hnodup : owned.Nodup)
    (hsame : SameIn owned W (lib.entries h (.list l depth))) :
    ∃ owned', owned'.Sublist owned ∧ g.Holds [.list l] [.list (lib.toLogLibrary.maskList depth ts)] owned' := by
  rcases Nat.lt_or_ge depth maxRecursionDepth with hdepth | hdepth
  · cases ht with
    | @list _ _ _ _ inner _ hitems hvs =>
      cases hvs
      rw [List.append_nil] at *
      obtain ⟨-, hinner⟩ := List.nodup_cons.mp hnodup
      rw [entries_list hdepth] at hsame
      obtain ⟨inner', hsub, hnew⟩ := elements_hold ih hdepth hitems (by simpa using hn) hinner
        fun e he => hsame e (List.mem_cons_of_mem _ he)
      refine ⟨.list l :: inner' ++ [], by simpa using hsub, .list l ?_ .nil⟩
      rwa [hm.lists]
  · have hitems : lib.toLogLibrary.maskList depth ts = ts := by
      cases ts with
      | nil => rw [LogLibrary.maskList]
      | cons t ts => exact if_pos hdepth
    rw [entries_of_le (c := .list l depth) hdepth] at hsame
    rw [hitems]
    exact ⟨owned, List.Sublist.refl _, hm.holds ht fun e he hin => (hsame e hin).mp he⟩

end

/-- Where the walk comes to a value, it leaves what `LogLibrary.maskValue` does. -/
theorem becomesMasked (hm : lib.Masked h g W) (depth : ℕ) (v : LogRef) (t : LogValue) (owned : List LogRef) :
    BecomesMasked lib h g W depth v t owned := by
  induction hn : owned.length using Nat.strong_induction_on generalizing v t owned depth with
  | _ n ih =>
  have hless : ∀ depth v t owned, owned.length < n → BecomesMasked lib h g W depth v t owned :=
    fun depth v t owned hlt => ih _ hlt depth v t owned rfl
  intro hv hnodup hsame
  have hv' := hv
  cases hv with
  | none hvs =>
    cases hvs
    exact ⟨[], List.Sublist.refl _, .none .nil⟩
  | str s hvs =>
    cases hvs
    exact ⟨[], List.Sublist.refl _, .str s .nil⟩
  | other n hvs =>
    cases hvs
    exact ⟨[], List.Sublist.refl _, .other n .nil⟩
  | dict a hkeys hitems hvs =>
    cases hvs
    rw [entriesBelow_eq rfl] at hsame
    rw [LogLibrary.maskValue]
    exact dict_hold hm hless hv' hn.le hnodup hsame
  | list l hitems hvs =>
    cases hvs
    rw [entriesBelow_eq rfl] at hsame
    rw [LogLibrary.maskValue]
    exact list_hold hm hless hv' hn.le hnodup hsame

/-! ### A record -/

variable (lib) in
/-- The entries of forbidden keys in the dicts that occur at depth 2 at most. -/
def forbiddenEntries (h : LogHeap) (root : ℕ) : Set (ℕ × LogKey) :=
  { e | e.2 ∈ (h.dicts e.1).keys ∧ lib.forbidden e.2 = true ∧ ∃ depth ≤ 2, lib.Occurs h root (.dict e.1) depth }

/-- Empty, or at most eight characters of the text and an ellipsis. -/
def IsPreview (text preview : String) : Prop :=
  preview = "" ∨ ∃ shown, shown <+: text.toList ∧ shown.length ≤ 8 ∧ preview.toList = shown ++ ['…']

theorem entries_root (root : ℕ) : lib.entries h (.dict root 0) = lib.forbiddenEntries h root := by
  ext e
  refine and_congr_right fun _ => and_congr_right fun _ => ?_
  constructor
  · rintro ⟨depth, hdepth, hreach⟩
    exact ⟨depth, Nat.le_of_lt_succ hdepth, occurs_of_calls hreach⟩
  · rintro ⟨depth, hdepth, hocc⟩
    exact ⟨depth, Nat.lt_succ_of_le hdepth, calls_of_occurs hocc hdepth _ rfl rfl⟩

theorem isPreview_previewText (text : String) : IsPreview text (previewText text) := by
  by_cases hempty : text = ""
  · exact Or.inl (by rw [previewText, if_pos hempty])
  · exact Or.inr ⟨text.toList.take previewLen, List.take_prefix _ _, by simp [previewLen], toList_previewText hempty⟩

theorem isPreview_previewAt (h : LogHeap) (v : LogRef) :
    ∃ text, (v = .str text ∨ lib.strAt h v = text) ∧ IsPreview text (lib.previewAt h v) := by
  cases v with
  | none => exact ⟨_, Or.inr rfl, Or.inl rfl⟩
  | str s => exact ⟨s, Or.inl rfl, isPreview_previewText s⟩
  | dict a => exact ⟨_, Or.inr rfl, isPreview_previewText _⟩
  | list l => exact ⟨_, Or.inr rfl, isPreview_previewText _⟩
  | other n => exact ⟨_, Or.inr rfl, isPreview_previewText _⟩

theorem maskRecord_eq_some {record record' : HeapRecord} (hextra : record.extra = .dict root)
    (hmask : lib.maskRecord limit record = some record') :
    lib.walk limit (.dict root 0) record.heap = some record'.heap ∧ record'.extra = record.extra := by
  rw [maskRecord, hextra] at hmask
  obtain ⟨g, hwalk, rfl⟩ := Option.map_eq_some_iff.mp hmask
  exact ⟨hwalk, hextra.symm⟩

variable (lib) in
/-- **The masking of a tree is exact**, and there is a limit from which on it
ends. -/
theorem maskRecord_masked {record : HeapRecord} (hextra : record.extra = .dict root)
    (ht : record.heap.Holds [.dict root] [t] owned) (hnodup : owned.Nodup) :
    (∀ limit, owned.length ≤ limit → (lib.maskRecord limit record).isSome) ∧
      (∀ limit record', lib.maskRecord limit record = some record' → record'.extra = record.extra ∧
        lib.Masked record.heap record'.heap (lib.forbiddenEntries record.heap root)) ∧
      ∀ v, ∃ text, (v = .str text ∨ lib.strAt record.heap v = text) ∧ IsPreview text (lib.previewAt record.heap v) := by
  refine ⟨fun limit hlimit => ?_, fun limit record' hmask => ?_, isPreview_previewAt record.heap⟩
  · refine maskRecord_isSome_iff.mpr fun root' hroot' => ?_
    cases hextra.symm.trans hroot'
    exact within_of_holds (c := .dict root 0) ht hlimit
  · obtain ⟨hwalk, hsame⟩ := maskRecord_eq_some hextra hmask
    have hm := walk_masked (c := .dict root 0) ht hnodup (Masked.refl record.heap) (fun e he => he.elim) hwalk
    rw [Set.empty_union, entries_root] at hm
    exact ⟨hsame, hm⟩

namespace Sample

/-- A dict with another one, a secret, and a list with a third dict. -/
def nested : LogHeap where
  dicts a :=
    if a = 0 then ⟨[.str "user", .str "api_key", .str "headers"], by decide, fun k =>
      if k = .str "user" then .dict 1 else if k = .str "api_key" then .str "sk-123456789" else .list 0⟩
    else if a = 1 then ⟨[.str "name", .str "Password"], by decide, fun k =>
      if k = .str "name" then .str "ci" else .str "hunter2"⟩
    else ⟨[.str "Authorization"], by decide, fun _ => .str "Bearer sk-123456789"⟩
  lists l := if l = 0 then [.dict 2, .other 7] else []
  size := 1
  lists_of_le l hl := if_neg (Nat.ne_of_gt hl)

def tree : LogValue :=
  .dict [(.str "user", .dict [(.str "name", .str "ci"), (.str "Password", .str "hunter2")]),
    (.str "api_key", .str "sk-123456789"),
    (.str "headers", .list [.dict [(.str "Authorization", .str "Bearer sk-123456789")], .other 7])]

def nestedRecord : HeapRecord := ⟨nested, .dict 0, .none⟩

theorem nested_holds : nestedRecord.heap.Holds [.dict 0] [tree] [.dict 0, .dict 1, .list 0, .dict 2] := by
  have htree : nested.Holds [.dict 0] [tree] _ :=
    .dict 0 rfl (.dict 1 rfl (.str "ci" (.str "hunter2" .nil)) (.str "sk-123456789"
      (.list 0 (.dict 2 rfl (.str "Bearer sk-123456789" .nil) (.other 7 .nil)) .nil))) .nil
  exact htree

theorem maskRecord_masked_nested :
    (runtime.maskRecord 4 nestedRecord).isSome ∧
      ∀ record, runtime.maskRecord 4 nestedRecord = some record →
        runtime.Masked nested record.heap (runtime.forbiddenEntries nested 0) := by
  obtain ⟨hends, hmasked, -⟩ := maskRecord_masked runtime rfl nested_holds (by decide)
  exact ⟨hends 4 le_rfl, fun record hmask => (hmasked 4 record hmask).2⟩

end Sample

/-- **The record in memory becomes what `LogLibrary.maskRecord` makes of its
values.** -/
theorem maskRecord_holds {record record' : HeapRecord} {message : String} (ht : record.heap.Holds [record.extra] [t] owned)
    (hnodup : owned.Nodup) (hmessage : record.message = .str message)
    (hmask : lib.maskRecord limit record = some record') :
    (∃ owned', owned'.Sublist owned ∧
      record'.heap.Holds [record'.extra] [(lib.toLogLibrary.maskRecord ⟨t, .str message⟩).extra] owned') ∧
      record'.message = .str (lib.redactMessage message) := by
  have hkept : record'.extra = record.extra ∧ record'.message = .str (lib.redactMessage message) := by
    obtain ⟨g, -, rfl⟩ := Option.map_eq_some_iff.mp hmask
    rw [hmessage]
    exact ⟨rfl, rfl⟩
  refine ⟨?_, hkept.2⟩
  rw [hkept.1]
  cases hextra : record.extra with
  | dict root =>
    rw [hextra] at ht
    obtain ⟨hwalk, -⟩ := maskRecord_eq_some hextra hmask
    have hm := walk_masked (c := .dict root 0) ht hnodup (Masked.refl record.heap) (fun e he => he.elim) hwalk
    rw [Set.empty_union] at hm
    cases t with
    | dict items =>
      exact dict_hold hm (fun depth v t owned _ => becomesMasked hm depth v t owned) ht le_rfl hnodup fun e _ => Iff.rfl
    | _ => cases ht
  | _ =>
    rw [maskRecord, hextra] at hmask
    cases hmask
    rw [hextra] at ht
    have hsame := ht
    cases ht
    exact ⟨_, List.Sublist.refl _, hsame⟩

end LogRuntime

end OllamaProxy
