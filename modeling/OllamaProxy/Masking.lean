/-
# The masking of the extra, in memory

`_mask_dict` and `_mask_list` walk through objects that may be shared, or may
contain themselves, and assign to the dicts in place. Here the objects are in a
`LogHeap`, and the walk has a limit on the calls that nest, as the interpreter
has; beyond it there is a `RecursionError`.

What the walk calls depends on what it never assigns to: the lists, the keys,
and the values of the keys that are not forbidden (`LogHeap.Alike`). So it ends
exactly if no chain of its calls is longer than the limit (`walk_isSome_iff`).
Depth grows from dict to dict only. The calls for lists in lists are as many as
these lists (`calls_bounded_iff`), and the guard of `_mask_list` is never met
(`maskList_depth_lt`).

Key definitions: `LogHeap`, `LogRuntime.maskDict`, `LogRuntime.maskRecord`,
`LogRuntime.Occurs`, `LogRuntime.ListsNest`.
Key theorems: `walk_isSome_iff`, `calls_bounded_iff`.
-/
import OllamaProxy.Logging
import OllamaProxy.Lib.Nesting

namespace OllamaProxy

open Kit Relation

/-! ### Memory -/

/-- A value as a name refers to it: a dict or a list is an object. -/
inductive LogRef
  | none
  | str (s : String)
  | dict (a : ℕ)
  | list (l : ℕ)
  | other (n : ℕ)
deriving DecidableEq

/-- `val` is of no account for what is not a key. -/
structure LogDict where
  keys : List LogKey
  nodup : keys.Nodup
  val : LogKey → LogRef

/-- The objects by their addresses. There is none from `size` on. -/
structure LogHeap where
  dicts : ℕ → LogDict
  lists : ℕ → List LogRef
  size : ℕ
  lists_of_le : ∀ l, size ≤ l → lists l = []

/-- `d[k] = v`, for a key that is there. -/
def LogHeap.set (h : LogHeap) (a : ℕ) (k : LogKey) (v : LogRef) : LogHeap :=
  { h with dicts := Function.update h.dicts a { h.dicts a with val := Function.update (h.dicts a).val k v } }

/-- The values are the trees, of the containers in the last list. -/
inductive LogHeap.Holds (h : LogHeap) : List LogRef → List LogValue → List LogRef → Prop
  | nil : Holds h [] [] []
  | none {vs : List LogRef} {ts : List LogValue} {owned : List LogRef} (hvs : Holds h vs ts owned) :
      Holds h (.none :: vs) (.none :: ts) owned
  | str (s : String) {vs : List LogRef} {ts : List LogValue} {owned : List LogRef} (hvs : Holds h vs ts owned) :
      Holds h (.str s :: vs) (.str s :: ts) owned
  | other (n : ℕ) {vs : List LogRef} {ts : List LogValue} {owned : List LogRef} (hvs : Holds h vs ts owned) :
      Holds h (.other n :: vs) (.other n :: ts) owned
  | dict (a : ℕ) {items : List (LogKey × LogValue)} {vs : List LogRef} {ts : List LogValue} {inner owned : List LogRef}
      (hkeys : items.map (·.1) = (h.dicts a).keys)
      (hitems : Holds h ((h.dicts a).keys.map (h.dicts a).val) (items.map (·.2)) inner) (hvs : Holds h vs ts owned) :
      Holds h (.dict a :: vs) (.dict items :: ts) (.dict a :: inner ++ owned)
  | list (l : ℕ) {items : List LogValue} {vs : List LogRef} {ts : List LogValue} {inner owned : List LogRef}
      (hitems : Holds h (h.lists l) items inner) (hvs : Holds h vs ts owned) :
      Holds h (.list l :: vs) (.list items :: ts) (.list l :: inner ++ owned)

/-- `strAt` is `str()` of what a value is at the time. -/
structure LogRuntime extends LogLibrary where
  strAt : LogHeap → LogRef → String
  strAt_holds : ∀ {h : LogHeap} {v : LogRef} {t : LogValue} {owned : List LogRef}, h.Holds [v] [t] owned → strAt h v = str t

structure HeapRecord where
  heap : LogHeap
  extra : LogRef
  message : LogRef

/-! ### The patcher -/

namespace LogRuntime

variable (lib : LogRuntime)

def previewAt (h : LogHeap) : LogRef → String
  | .none => ""
  | .str s => previewText s
  | v => previewText (lib.strAt h v)

mutual

/-- `limit` is how many calls may nest. -/
def maskDict : (limit depth a : ℕ) → LogHeap → Option LogHeap
  | 0, _, _, _ => none
  | limit + 1, depth, a, h =>
    if maxRecursionDepth ≤ depth then some h
    else (h.dicts a).keys.foldlM (fun h k =>
      let v := (h.dicts a).val k
      if lib.forbidden k then some (h.set a k (.str (lib.previewAt h v)))
      else match v with
        | .dict b => maskDict limit (depth + 1) b h
        | .list l => maskList limit depth l h
        | _ => some h) h

def maskList : (limit depth l : ℕ) → LogHeap → Option LogHeap
  | 0, _, _, _ => none
  | limit + 1, depth, l, h =>
    if maxRecursionDepth ≤ depth then some h
    else (h.lists l).foldlM (fun h v =>
      match v with
      | .dict b => maskDict limit (depth + 1) b h
      | .list l => maskList limit depth l h
      | _ => some h) h

end

def maskRecord (limit : ℕ) (record : HeapRecord) : Option HeapRecord :=
  (match record.extra with
    | .dict a => lib.maskDict limit 0 a record.heap
    | _ => some record.heap).map fun heap =>
  { record with
    heap := heap
    message :=
      match record.message with
      | .str message => .str (lib.redactMessage message)
      | message => message }

end LogRuntime

/-! ### The calls of the walk -/

inductive MaskCall
  | dict (a depth : ℕ)
  | list (l depth : ℕ)

def MaskCall.depth : MaskCall → ℕ
  | .dict _ depth => depth
  | .list _ depth => depth

/-- The call for a value that is met at this depth. -/
def LogRef.call (depth : ℕ) : LogRef → Option MaskCall
  | .dict a => some (.dict a (depth + 1))
  | .list l => some (.list l depth)
  | _ => Option.none

namespace LogRuntime

variable (lib : LogRuntime)

/-- The values that a call looks into. -/
def met (h : LogHeap) : MaskCall → List LogRef
  | .dict a _ => ((h.dicts a).keys.filter fun k => !lib.forbidden k).map (h.dicts a).val
  | .list l _ => h.lists l

def Calls (h : LogHeap) (c c' : MaskCall) : Prop :=
  c.depth < maxRecursionDepth ∧ ∃ v ∈ lib.met h c, v.call c.depth = some c'

def walk (limit : ℕ) : MaskCall → LogHeap → Option LogHeap
  | .dict a depth => lib.maskDict limit depth a
  | .list l depth => lib.maskList limit depth l

def enter (limit depth : ℕ) (h : LogHeap) (v : LogRef) : Option LogHeap :=
  match v.call depth with
  | none => some h
  | some c => lib.walk limit c h

/-- The body of the loop of `_mask_dict`. -/
def item (limit depth a : ℕ) (h : LogHeap) (k : LogKey) : Option LogHeap :=
  if lib.forbidden k then some (h.set a k (.str (lib.previewAt h ((h.dicts a).val k))))
  else lib.enter limit depth h ((h.dicts a).val k)

/-- The heaps differ in values of forbidden keys only. -/
structure Alike (h g : LogHeap) : Prop where
  lists : g.lists = h.lists
  keys : ∀ a, (g.dicts a).keys = (h.dicts a).keys
  val : ∀ a k, lib.forbidden k = false → (g.dicts a).val k = (h.dicts a).val k

variable {lib} {h g : LogHeap} {limit depth a l : ℕ} {c c' : MaskCall}

theorem enter_eq (v : LogRef) : lib.enter limit depth h v =
    match v with
    | .dict b => lib.maskDict limit (depth + 1) b h
    | .list l => lib.maskList limit depth l h
    | _ => some h := by
  cases v <;> rfl

theorem walk_of_le (hdepth : maxRecursionDepth ≤ c.depth) : lib.walk (limit + 1) c h = some h := by
  cases c <;> exact if_pos hdepth

theorem walk_dict (hdepth : (MaskCall.dict a depth).depth < maxRecursionDepth) :
    lib.walk (limit + 1) (.dict a depth) h = (h.dicts a).keys.foldlM (lib.item limit depth a) h := by
  refine (if_neg hdepth.not_ge).trans (congrArg (fun body => (h.dicts a).keys.foldlM body h) ?_)
  funext h k
  rw [item, enter_eq]

theorem walk_list (hdepth : (MaskCall.list l depth).depth < maxRecursionDepth) :
    lib.walk (limit + 1) (.list l depth) h = (h.lists l).foldlM (lib.enter limit depth) h := by
  refine (if_neg hdepth.not_ge).trans (congrArg (fun body => (h.lists l).foldlM body h) ?_)
  funext h v
  rw [enter_eq]

theorem Alike.refl (h : LogHeap) : lib.Alike h h := ⟨rfl, fun _ => rfl, fun _ _ _ => rfl⟩

theorem Alike.trans {h₁ h₂ h₃ : LogHeap} (h₁₂ : lib.Alike h₁ h₂) (h₂₃ : lib.Alike h₂ h₃) : lib.Alike h₁ h₃ where
  lists := h₂₃.lists.trans h₁₂.lists
  keys a := (h₂₃.keys a).trans (h₁₂.keys a)
  val a k hk := (h₂₃.val a k hk).trans (h₁₂.val a k hk)

theorem set_keys (h : LogHeap) (a b : ℕ) (k : LogKey) (v : LogRef) : ((h.set a k v).dicts b).keys = (h.dicts b).keys := by
  by_cases hb : b = a
  · subst hb
    simp [LogHeap.set]
  · simp [LogHeap.set, hb]

theorem set_val (h : LogHeap) (a b : ℕ) (k k' : LogKey) (v : LogRef) :
    ((h.set a k v).dicts b).val k' = if b = a ∧ k' = k then v else (h.dicts b).val k' := by
  by_cases hb : b = a
  · subst hb
    simp [LogHeap.set, Function.update_apply]
  · simp [LogHeap.set, hb]

theorem Alike.set {k : LogKey} (hk : lib.forbidden k = true) (v : LogRef) : lib.Alike h (h.set a k v) where
  lists := rfl
  keys b := set_keys h a b k v
  val b k' hk' := by
    rw [set_val, if_neg]
    rintro ⟨-, rfl⟩
    rw [hk] at hk'
    cases hk'

theorem Alike.met (halike : lib.Alike h g) (c : MaskCall) : lib.met g c = lib.met h c := by
  cases c with
  | dict a depth =>
    simp only [LogRuntime.met]
    rw [halike.keys]
    refine List.map_congr_left fun k hk => halike.val a k ?_
    simpa using (List.mem_filter.mp hk).2
  | list l depth => exact congrFun halike.lists l

theorem Alike.calls (halike : lib.Alike h g) : lib.Calls g = lib.Calls h := by
  funext c c'
  simp only [Calls, halike.met]

theorem enter_alike (hwalk : ∀ c h g, lib.walk limit c h = some g → lib.Alike h g) {v : LogRef}
    (henter : lib.enter limit depth h v = some g) : lib.Alike h g := by
  unfold enter at henter
  split at henter
  · cases henter
    exact Alike.refl h
  · exact hwalk _ h g henter

theorem item_alike (hwalk : ∀ c h g, lib.walk limit c h = some g → lib.Alike h g) {k : LogKey}
    (hitem : lib.item limit depth a h k = some g) : lib.Alike h g := by
  unfold item at hitem
  split_ifs at hitem with hforbidden
  · cases hitem
    exact Alike.set hforbidden _
  · exact enter_alike hwalk hitem

/-- The walk assigns to forbidden keys only. -/
theorem walk_alike (c : MaskCall) (h g : LogHeap) (hwalk : lib.walk limit c h = some g) : lib.Alike h g := by
  induction limit generalizing c h g with
  | zero => cases c <;> cases hwalk
  | succ limit ih =>
    by_cases hdepth : maxRecursionDepth ≤ c.depth
    · rw [walk_of_le hdepth] at hwalk
      cases hwalk
      exact Alike.refl h
    · cases c with
      | dict a depth =>
        rw [walk_dict (not_le.mp hdepth)] at hwalk
        exact foldlM_inv (I := lib.Alike h) (fun g k g' hk hg hitem => hg.trans (item_alike ih hitem)) (Alike.refl h)
          hwalk
      | list l depth =>
        rw [walk_list (not_le.mp hdepth)] at hwalk
        exact foldlM_inv (I := lib.Alike h) (fun g v g' hv hg henter => hg.trans (enter_alike ih henter))
          (Alike.refl h) hwalk

theorem enter_isSome_iff (v : LogRef) :
    (lib.enter limit depth h v).isSome ↔ ∀ c, v.call depth = some c → (lib.walk limit c h).isSome := by
  unfold enter
  cases v.call depth with
  | none => simp
  | some c => simp

theorem within_succ_iff : Within (lib.Calls h) (limit + 1) c ↔
    c.depth < maxRecursionDepth → ∀ v ∈ lib.met h c, ∀ c', v.call c.depth = some c' → Within (lib.Calls h) limit c' := by
  constructor
  · exact fun hw hdepth v hv c' hc' => hw c' ⟨hdepth, v, hv, hc'⟩
  · rintro hw c' ⟨hdepth, v, hv, hc'⟩
    exact hw hdepth v hv c' hc'

theorem forall_met_dict {Q : LogRef → Prop} :
    (∀ v ∈ lib.met h (.dict a depth), Q v) ↔
      ∀ k ∈ (h.dicts a).keys, lib.forbidden k = false → Q ((h.dicts a).val k) := by
  rw [met, List.forall_mem_map]
  simp

/-- **The walk ends** exactly if no more calls nest than the limit has room for. -/
theorem walk_isSome_iff : (lib.walk limit c h).isSome ↔ Within (lib.Calls h) limit c := by
  induction limit generalizing c h with
  | zero => cases c <;> simp [walk, maskDict, maskList, Within]
  | succ limit ih =>
    -- whatever was assigned to by then
    have henter : ∀ {g : LogHeap} {depth : ℕ} (v : LogRef), lib.Alike h g →
        ((lib.enter limit depth g v).isSome ↔ ∀ c, v.call depth = some c → Within (lib.Calls h) limit c) := by
      intro g depth v halike
      rw [enter_isSome_iff, ← halike.calls]
      exact forall₂_congr fun c hc => ih
    rw [within_succ_iff]
    by_cases hdepth : maxRecursionDepth ≤ c.depth
    · rw [walk_of_le hdepth]
      exact iff_of_true rfl fun hlt => absurd hlt hdepth.not_gt
    · refine Iff.trans ?_ (imp_iff_right (not_le.mp hdepth)).symm
      cases c with
      | dict a depth =>
        rw [walk_dict (not_le.mp hdepth), forall_met_dict]
        refine foldlM_isSome_iff (I := lib.Alike h)
          (fun g k g' hk hg hitem => hg.trans (item_alike walk_alike hitem)) (fun g k hk halike => ?_) (Alike.refl h)
        unfold item
        split_ifs with hforbidden
        · refine iff_of_true rfl fun hfalse => ?_
          rw [hforbidden] at hfalse
          cases hfalse
        · rw [Bool.not_eq_true] at hforbidden
          rw [henter _ halike, halike.val a k hforbidden, imp_iff_right hforbidden]
          rfl
      | list l depth =>
        rw [walk_list (not_le.mp hdepth)]
        exact foldlM_isSome_iff (I := lib.Alike h)
          (fun g v g' hv hg henter => hg.trans (enter_alike walk_alike henter))
          (fun g v hv halike => henter v halike) (Alike.refl h)

/-! ### What is in reach -/

end LogRuntime

/-- The depth of a value below a dict of this depth; lists add none. -/
def LogRef.below (depth : ℕ) : LogRef → ℕ
  | .dict _ => depth + 1
  | _ => depth

def MaskCall.ref : MaskCall → LogRef
  | .dict a _ => .dict a
  | .list l _ => .list l

def LogHeap.Contains (h : LogHeap) (l l' : ℕ) : Prop := .list l' ∈ h.lists l

namespace LogRuntime

variable (lib : LogRuntime)

/-- The value occurs below the dict `root`, outside of masked values, at this
depth: that of the dict, or of the nearest dict above it. -/
inductive Occurs (h : LogHeap) (root : ℕ) : LogRef → ℕ → Prop
  | root : Occurs h root (.dict root) 0
  | entry {a depth : ℕ} {k : LogKey} (ha : Occurs h root (.dict a) depth) (hk : k ∈ (h.dicts a).keys)
      (hmasked : ¬ (lib.forbidden k = true ∧ depth ≤ 2)) :
      Occurs h root ((h.dicts a).val k) (((h.dicts a).val k).below depth)
  | element {l depth : ℕ} {v : LogRef} (hl : Occurs h root (.list l) depth) (hv : v ∈ h.lists l) :
      Occurs h root v (v.below depth)

/-- At most `m` lists are nested directly in one another. -/
def ListsNest (m : ℕ) (record : HeapRecord) : Prop :=
  ∀ root, record.extra = .dict root → ∀ l depth, lib.Occurs record.heap root (.list l) depth → depth ≤ 2 →
    Within record.heap.Contains m l

/-- A list that lists lead back to. -/
def ListInItself (record : HeapRecord) : Prop :=
  ∃ root l depth, record.extra = .dict root ∧ lib.Occurs record.heap root (.list l) depth ∧ depth ≤ 2 ∧
    TransGen record.heap.Contains l l

variable {lib} {h g : LogHeap} {limit depth a l root : ℕ} {c c' : MaskCall} {v : LogRef}

theorem call_eq_some_iff : v.call depth = some c ↔ c.ref = v ∧ c.depth = v.below depth := by
  cases v <;> cases c <;> simp [LogRef.call, LogRef.below, MaskCall.ref, MaskCall.depth, and_comm, eq_comm]

theorem le_below (v : LogRef) : depth ≤ v.below depth := by
  cases v <;> simp [LogRef.below]

theorem occurs_of_calls (hcalls : ReflTransGen (lib.Calls h) (.dict root 0) c) : lib.Occurs h root c.ref c.depth := by
  induction hcalls with
  | refl => exact .root
  | @tail c c' hc hstep ih =>
    obtain ⟨hdepth, v, hv, hcall⟩ := hstep
    obtain ⟨href, hbelow⟩ := call_eq_some_iff.mp hcall
    rw [href, hbelow]
    cases c with
    | dict a depth =>
      obtain ⟨k, hk, rfl⟩ := List.mem_map.mp hv
      obtain ⟨hmem, hforbidden⟩ := List.mem_filter.mp hk
      refine .entry ih hmem fun hmasked => ?_
      simp [hmasked.1] at hforbidden
    | list l depth => exact .element ih hv

/-- What occurs at depth 2 at most, the walk comes to. -/
theorem calls_of_occurs (hocc : lib.Occurs h root v depth) (hdepth : depth ≤ 2) :
    ∀ c : MaskCall, c.ref = v → c.depth = depth → ReflTransGen (lib.Calls h) (.dict root 0) c := by
  induction hocc with
  | root =>
    intro c href hzero
    cases c <;> cases href
    cases hzero
    exact .refl
  | @entry a depth k ha hk hmasked ih =>
    intro c href hbelow
    have hle : depth ≤ 2 := (le_below _).trans hdepth
    have hforbidden : lib.forbidden k = false := by
      rw [← Bool.not_eq_true]
      exact fun hyes => hmasked ⟨hyes, hle⟩
    have hmet : (h.dicts a).val k ∈ lib.met h (.dict a depth) :=
      List.mem_map_of_mem (List.mem_filter.mpr ⟨hk, by simp [hforbidden]⟩)
    exact (ih hle (.dict a depth) rfl rfl).tail ⟨Nat.lt_succ_of_le hle, _, hmet, call_eq_some_iff.mpr ⟨href, hbelow⟩⟩
  | @element l depth v hl hv ih =>
    intro c href hbelow
    have hle : depth ≤ 2 := (le_below v).trans hdepth
    exact (ih hle (.list l depth) rfl rfl).tail ⟨Nat.lt_succ_of_le hle, v, hv, call_eq_some_iff.mpr ⟨href, hbelow⟩⟩

/-- No call of `_mask_list` is stopped by its guard. -/
theorem maskList_depth_lt (hcalls : ReflTransGen (lib.Calls h) (.dict root 0) (.list l depth)) :
    depth < maxRecursionDepth := by
  rcases ReflTransGen.cases_tail hcalls with heq | ⟨c, -, hdepth, v, -, hcall⟩
  · cases heq
  · cases v <;> cases hcall
    exact hdepth

/-! ### How many calls nest -/

theorem calls_list (hcontains : h.Contains l a) (hdepth : depth < maxRecursionDepth) :
    lib.Calls h (.list l depth) (.list a depth) :=
  ⟨hdepth, .list a, hcontains, rfl⟩

/-- Calls that do not go to a deeper dict go from list to list. -/
theorem contains_of_calls (hcalls : lib.Calls h (.list l depth) c) (hsame : c.depth = depth) :
    ∃ l', c = .list l' depth ∧ h.Contains l l' := by
  obtain ⟨-, v, hv, hcall⟩ := hcalls
  cases v <;> cases hcall
  · simp [MaskCall.depth] at hsame
  · exact ⟨_, rfl, hv⟩

theorem walk_of_listsNest {m : ℕ}
    (hnest : ∀ l depth, lib.Occurs h root (.list l) depth → depth ≤ 2 → Within h.Contains m l) :
    Within (lib.Calls h) (maxRecursionDepth * (m + 1) + 1) (.dict root 0) := by
  let flat : MaskCall → MaskCall → Prop := fun c c' => lib.Calls h c c' ∧ c'.depth = c.depth
  have hlist : ∀ {n l depth}, Within h.Contains n l → Within flat n (.list l depth) := fun {n l depth} hw => by
    refine hw.of_simulates (R := fun l c => c = .list l depth) ?_ rfl
    rintro l c c' rfl ⟨hcalls, hsame⟩
    obtain ⟨l', rfl, hl'⟩ := contains_of_calls hcalls hsame
    exact ⟨l', hl', rfl⟩
  have hstep : ∀ c c', lib.Calls h c c' → c.depth < c'.depth ∨ c'.depth = c.depth ∧ flat c c' := by
    intro c c' hcalls
    obtain ⟨-, v, -, hcall⟩ := id hcalls
    have hle : c.depth ≤ v.below c.depth := le_below v
    rw [← (call_eq_some_iff.mp hcall).2] at hle
    rcases Nat.lt_or_eq_of_le hle with hlt | heq
    · exact Or.inl hlt
    · exact Or.inr ⟨heq.symm, hcalls, heq.symm⟩
  refine within_of_levels (fun c c' hcalls => hcalls.1) hstep fun c hc => ?_
  cases c with
  | list l depth =>
    exact (hlist (hnest l depth (occurs_of_calls hc) (Nat.le_of_lt_succ (maskList_depth_lt hc)))).mono (Nat.le_succ m)
  | dict a depth =>
    -- a dict, and then lists
    rintro c ⟨hcalls, hsame⟩
    cases c with
    | dict b depth' =>
      obtain ⟨-, v, -, hcall⟩ := hcalls
      cases v <;> cases hcall
      simp [MaskCall.depth] at hsame
    | list l depth' =>
      have hl := hc.tail hcalls
      exact hlist (hnest l depth' (occurs_of_calls hl) (Nat.le_of_lt_succ (maskList_depth_lt hl)))

theorem listsNest_of_walk {n : ℕ} (hw : Within (lib.Calls h) n (.dict root 0)) (hocc : lib.Occurs h root (.list l) depth)
    (hdepth : depth ≤ 2) : Within h.Contains n l := by
  have hlist := hw.of_reach (calls_of_occurs hocc hdepth (.list l depth) rfl rfl)
  refine hlist.of_simulates (R := fun c l => c = .list l depth) ?_ rfl
  rintro c l l' rfl hl'
  exact ⟨.list l' depth, calls_list hl' (Nat.lt_succ_of_le hdepth), rfl⟩

theorem maskRecord_isSome_iff {record : HeapRecord} : (lib.maskRecord limit record).isSome ↔
    ∀ root, record.extra = .dict root → Within (lib.Calls record.heap) limit (.dict root 0) := by
  rw [maskRecord, Option.isSome_map]
  cases hextra : record.extra with
  | dict root =>
    show (lib.walk limit (.dict root 0) record.heap).isSome ↔ _
    rw [walk_isSome_iff]
    simp
  | _ => simp

/-- The bound for lists that nest to `m`. -/
theorem maskRecord_of_listsNest {m : ℕ} {record : HeapRecord} (hnest : lib.ListsNest m record) :
    (lib.maskRecord (maxRecursionDepth * (m + 1) + 1) record).isSome :=
  maskRecord_isSome_iff.mpr fun root hextra => walk_of_listsNest (hnest root hextra)

theorem listsNest_of_maskRecord {record : HeapRecord} (hsome : (lib.maskRecord limit record).isSome) :
    lib.ListsNest limit record :=
  fun root hextra _ _ hocc hdepth => listsNest_of_walk (maskRecord_isSome_iff.mp hsome root hextra) hocc hdepth

theorem Occurs.contains {l' : ℕ} (hocc : lib.Occurs h root (.list l) depth) (hl' : ReflTransGen h.Contains l l') :
    lib.Occurs h root (.list l') depth := by
  induction hl' with
  | refl => exact hocc
  | tail _ hin ih => exact .element ih hin

theorem listsNest_iff {record : HeapRecord} : (∃ m, lib.ListsNest m record) ↔ ¬ lib.ListInItself record := by
  constructor
  · rintro ⟨m, hnest⟩ ⟨root, l, depth, hextra, hocc, hdepth, hcycle⟩
    exact not_within_of_cycle hcycle m (hnest root hextra l depth hocc hdepth)
  · intro hno
    refine ⟨(Finset.range record.heap.size).card + 1, fun root hextra l depth hocc hdepth => ?_⟩
    refine within_of_acyclic (fun l l' hl' => ?_) fun l' hl' hcycle => ?_
    · by_contra hout
      have hnil := record.heap.lists_of_le l (by simpa using hout)
      rw [LogHeap.Contains, hnil] at hl'
      cases hl'
    · exact hno ⟨root, l', depth, hextra, hocc.contains hl', hdepth, hcycle⟩

/-- **One bound on the calls that nest** holds for records exactly if one holds
for the lists that are nested directly in one another, and follows from it by
the depth. The masking of one record ends, with some limit, exactly if no list
is in itself. -/
theorem calls_bounded_iff :
    (∀ records : Set HeapRecord, (∃ bound, ∀ record ∈ records, (lib.maskRecord bound record).isSome) ↔
      ∃ m, ∀ record ∈ records, lib.ListsNest m record) ∧
    (∀ m record, lib.ListsNest m record → (lib.maskRecord (maxRecursionDepth * (m + 1) + 1) record).isSome) ∧
    ∀ record, (∃ limit, (lib.maskRecord limit record).isSome) ↔ ¬ lib.ListInItself record := by
  refine ⟨fun records => ⟨?_, ?_⟩, fun m record => maskRecord_of_listsNest, fun record => ?_⟩
  · rintro ⟨bound, hall⟩
    exact ⟨bound, fun record hmem => listsNest_of_maskRecord (hall record hmem)⟩
  · rintro ⟨m, hall⟩
    exact ⟨_, fun record hmem => maskRecord_of_listsNest (hall record hmem)⟩
  · rw [← listsNest_iff]
    constructor
    · rintro ⟨limit, hsome⟩
      exact ⟨limit, listsNest_of_maskRecord hsome⟩
    · rintro ⟨m, hnest⟩
      exact ⟨_, maskRecord_of_listsNest hnest⟩

namespace Sample

def runtime : LogRuntime where
  toLogLibrary := LogLibrary.Sample.library
  strAt _ _ := ""
  strAt_holds _ := rfl

/-- A dict with a list that is its own element. -/
def selfList : LogHeap where
  dicts _ := ⟨[.str "items"], by decide, fun _ => .list 0⟩
  lists l := if l = 0 then [.list 0] else []
  size := 1
  lists_of_le l hl := if_neg (Nat.ne_of_gt hl)

theorem selfList_overflows : ¬ ∃ bound, (runtime.maskRecord bound ⟨selfList, .dict 0, .none⟩).isSome := by
  rintro ⟨bound, hsome⟩
  have hocc : runtime.Occurs selfList 0 (.list 0) 0 := .entry .root (k := .str "items") (by decide) (by decide +kernel)
  have hcontains : selfList.Contains 0 0 := by
    unfold LogHeap.Contains
    decide
  exact not_within_of_cycle (.single hcontains) bound (listsNest_of_maskRecord hsome 0 rfl 0 0 hocc (by decide))

end Sample

end LogRuntime

end OllamaProxy
