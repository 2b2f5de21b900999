/-
# No key is passed over for ever

While the set of active keys stays as it is, `pick_next_key` goes round it: the
pointer stops behind the key it has chosen, so a key that is not in flight comes
nearer with every key that is chosen before it (`call_nearer`). Of `n` active
keys it is chosen among the next `n`, whatever is picked and released in the
meantime.

Key definitions: `PoolCall`, `KeyManager.call`, `KeyManager.returned`,
`KeyManager.inTurn`.
Key theorems: `scan_returns`, `call_nearer`, `mem_returned`, `fair`.
-/
import OllamaProxy.Selection

namespace OllamaProxy

open Kit

/-- A call on the key manager; `pick_next_key` finds the table `t`. -/
inductive PoolCall
  | pick (t : KeyTable) (now : ℤ)
  | release (id : ℕ)

/-- The active keys that the call finds, if it looks for them, are `active`. -/
def PoolCall.Finds (active : List ℕ) : PoolCall → Prop
  | .pick t _ => ids t = active
  | .release _ => True

instance (active : List ℕ) : ∀ c : PoolCall, Decidable (c.Finds active)
  | .pick t _ => inferInstanceAs (Decidable (ids t = active))
  | .release _ => inferInstanceAs (Decidable True)

namespace KeyManager

def call (m : KeyManager) : PoolCall → Option KeyManager
  | .pick t now => some (pickNextKey m t now).2.1
  | .release id => some (m.release id)

/-- The key that the call returns. -/
def returned (m : KeyManager) : PoolCall → List ℕ
  | .pick t now => ((pickNextKey m t now).1.map (·.1)).toList
  | .release _ => []

/-- Picks that find these tables, each followed by the release of the key it
returns. -/
def inTurn (m : KeyManager) : List (KeyTable × ℤ) → List PoolCall
  | [] => []
  | (t, now) :: ts =>
    let m' := (pickNextKey m t now).2.1
    match (pickNextKey m t now).1 with
    | none => .pick t now :: inTurn m' ts
    | some key => .pick t now :: .release key.1 :: inTurn (m'.release key.1) ts

end KeyManager

/-- How far the key is ahead of the pointer. -/
def KeyManager.distance (m : KeyManager) (active : List ℕ) (id : ℕ) : ℕ :=
  ahead active.length m.nextIdx (active.idxOf id)

variable {active : List ℕ} {id : ℕ} {m : KeyManager} {t : KeyTable}

theorem pickNextKey_of_active (hpool : active ≠ []) (ht : ids t = active) (now : ℤ) :
    (pickNextKey m t now).1 = (m.choose (loadActive t)).1 ∧
      (pickNextKey m t now).2.1 = (m.choose (loadActive t)).2 := by
  have hload : (loadActive t).isEmpty = false := by
    rw [Bool.eq_false_iff, Ne, List.isEmpty_iff]
    intro hnil
    exact hpool (by rw [← ht, ids, hnil]; rfl)
  unfold pickNextKey
  rw [hload]
  exact ⟨rfl, rfl⟩

theorem ids_get? (t : KeyTable) (i : ℕ) : (ids t)[i]? = (loadActive t)[i]?.map (·.1) :=
  List.getElem?_map

/-- A pick chooses the free key itself, or one that the pointer meets before
it. -/
theorem scan_returns (hmem : id ∈ ids t) (hfree : id ∉ m.inFlight) :
    ∃ offset key, scan (loadActive t) m.nextIdx m.inFlight = some (offset, key) ∧
      offset ≤ m.distance (ids t) id ∧ (offset = m.distance (ids t) id → key.1 = id) := by
  have hidx : (ids t).idxOf id < (ids t).length := List.idxOf_lt_length_iff.mpr hmem
  have hlen : (ids t).length = (loadActive t).length := List.length_map _
  -- the key stands where the pointer gets to after its distance
  have hplace : (ids t)[(m.nextIdx + m.distance (ids t) id) % (ids t).length]? = some id := by
    rw [KeyManager.distance, add_ahead hidx, List.getElem?_eq_getElem hidx, List.getElem_idxOf hidx]
  rw [ids_get?, hlen] at hplace
  obtain ⟨key, hkey, hid⟩ := Option.map_eq_some_iff.mp hplace
  have hfreeKey : key.1 ∉ m.inFlight := hid ▸ hfree
  cases hscan : scan (loadActive t) m.nextIdx m.inFlight with
  | none => exact absurd ((scan_eq_none_iff m.nextIdx).mp hscan key (List.mem_of_getElem? hkey)) hfreeKey
  | some found =>
    obtain ⟨offset, chosen⟩ := found
    have hlt : m.distance (ids t) id < (loadActive t).length := hlen ▸ ahead_lt (by omega)
    refine ⟨offset, chosen, rfl, scan_le hscan hlt hkey hfreeKey, fun heq => ?_⟩
    have hchosen := (scan_eq_some hscan).2.1
    rw [heq, hkey] at hchosen
    cases hchosen
    exact hid

/-- While the active keys stay the same, a call returns the free key, or one
that was nearer to the pointer; then the key is nearer than before. -/
theorem call_nearer {c : PoolCall} (hmem : id ∈ active) (hfree : id ∉ m.inFlight)
    (hc : c.Finds active) : ∃ m', m.call c = some m' ∧
      (m.returned c = [] ∧ id ∉ m'.inFlight ∧ m'.distance active id ≤ m.distance active id ∨
        m.returned c = [id] ∨
        ∃ i, m.returned c = [i] ∧ id ∉ m'.inFlight ∧ m'.distance active id < m.distance active id) := by
  cases c with
  | release i => exact ⟨_, rfl, Or.inl ⟨rfl, fun h => hfree (Finset.mem_of_mem_erase h), le_rfl⟩⟩
  | pick t now =>
    refine ⟨_, rfl, ?_⟩
    have ht : ids t = active := hc
    subst ht
    obtain ⟨hkey, hm⟩ := pickNextKey_of_active (m := m) (List.ne_nil_of_mem hmem) rfl now
    obtain ⟨offset, key, hscan, hle, hexact⟩ := scan_returns hmem hfree
    have hlen : (ids t).length = (loadActive t).length := List.length_map _
    simp only [KeyManager.returned, hkey, hm, KeyManager.choose, hscan]
    by_cases hid : key.1 = id
    · exact Or.inr (Or.inl (by simp [hid]))
    · have hlt : offset < m.distance (ids t) id := lt_of_le_of_ne hle fun h => hid (hexact h)
      have hnear : ahead (ids t).length ((m.nextIdx + offset + 1) % (ids t).length) ((ids t).idxOf id) =
          m.distance (ids t) id - (offset + 1) :=
        ahead_advance (List.idxOf_lt_length_iff.mpr hmem) hlt
      refine Or.inr (Or.inr ⟨key.1, rfl, ?_, ?_⟩)
      · exact fun h => (Finset.mem_insert.mp h).elim (fun h => hid h.symm) hfree
      · rw [KeyManager.distance, ← hlen, hnear]
        omega

/-- A key that is not in flight is among the first that are returned, as many
as there are active keys. -/
theorem mem_returned {calls : List PoolCall} (hmem : id ∈ active) (hfree : id ∉ m.inFlight)
    (hcalls : ∀ c ∈ calls, c.Finds active)
    (hlen : active.length ≤ (outputs KeyManager.call KeyManager.returned m calls).length) :
    id ∈ (outputs KeyManager.call KeyManager.returned m calls).take active.length :=
  mem_take_outputs (I := fun m => id ∉ m.inFlight) (μ := fun m => m.distance active id)
    (fun _ _ hI hc => call_nearer hmem hI hc) hfree hcalls
    (ahead_lt (List.length_pos_of_mem hmem)) hlen

/-- With nothing in flight a pick reserves an active key; its release leaves
nothing in flight again. -/
theorem pick_release (hpool : active ≠ []) (ht : ids t = active) (now : ℤ) (hidle : m.inFlight = ∅) :
    ∃ key, (pickNextKey m t now).1 = some key ∧
      ((pickNextKey m t now).2.1.release key.1).inFlight = ∅ := by
  obtain ⟨hkey, hm⟩ := pickNextKey_of_active (m := m) hpool ht now
  have hpick : (m.choose (loadActive t)).1 ≠ none := by
    rw [Ne, choose_eq_none_iff, hidle]
    intro hall
    obtain ⟨i, hi⟩ := List.exists_mem_of_ne_nil _ (ht ▸ hpool : ids t ≠ [])
    obtain ⟨key, hkey, -⟩ := List.mem_map.mp hi
    exact absurd (hall key hkey) (Finset.notMem_empty _)
  rw [hkey, hm]
  rcases choose_cases m (loadActive t) with hnone | ⟨key, -, -, next, hsome⟩
  · exact absurd (by rw [hnone]) hpick
  · rw [hsome]
    exact ⟨key, rfl, by simp [KeyManager.release, hidle]⟩

theorem length_inTurn (hpool : active ≠ []) {picks : List (KeyTable × ℤ)}
    (hpicks : ∀ x ∈ picks, ids x.1 = active) (hidle : m.inFlight = ∅) :
    (outputs KeyManager.call KeyManager.returned m (m.inTurn picks)).length = picks.length := by
  induction picks generalizing m with
  | nil => rfl
  | cons x picks ih =>
    obtain ⟨ht, hrest⟩ := List.forall_mem_cons.mp hpicks
    obtain ⟨key, hkey, hreleased⟩ := pick_release hpool ht x.2 hidle
    have hpicked : m.call (.pick x.1 x.2) = some (pickNextKey m x.1 x.2).2.1 := rfl
    have hrelease : (pickNextKey m x.1 x.2).2.1.call (.release key.1) =
        some ((pickNextKey m x.1 x.2).2.1.release key.1) := rfl
    have hcalls : m.inTurn (x :: picks) = .pick x.1 x.2 :: .release key.1 ::
        ((pickNextKey m x.1 x.2).2.1.release key.1).inTurn picks := by
      rw [KeyManager.inTurn, hkey]
    rw [hcalls, outputs_cons hpicked, outputs_cons hrelease]
    simp [KeyManager.returned, hkey, ih hrest hreleased]

theorem finds_inTurn {picks : List (KeyTable × ℤ)} (hpicks : ∀ x ∈ picks, ids x.1 = active) :
    ∀ c ∈ m.inTurn picks, c.Finds active := by
  induction picks generalizing m with
  | nil => exact fun c hc => by cases hc
  | cons x picks ih =>
    obtain ⟨ht, hrest⟩ := List.forall_mem_cons.mp hpicks
    rw [KeyManager.inTurn]
    split
    · exact List.forall_mem_cons.mpr ⟨ht, ih hrest⟩
    · exact List.forall_mem_cons.mpr ⟨ht, List.forall_mem_cons.mpr ⟨trivial, ih hrest⟩⟩

/-- While the active keys stay the same, one that is not in flight is among the
next `n` that are returned, `n` being their number. Where nothing is in flight,
`n` picks that are each followed by the release return every key once. -/
theorem fair (active : List ℕ) (m : KeyManager) :
    (∀ calls : List PoolCall, (∀ c ∈ calls, c.Finds active) → ∀ id ∈ active, id ∉ m.inFlight →
      active.length ≤ (outputs KeyManager.call KeyManager.returned m calls).length →
        id ∈ (outputs KeyManager.call KeyManager.returned m calls).take active.length) ∧
    (m.inFlight = ∅ → ∀ picks : List (KeyTable × ℤ), (∀ x ∈ picks, ids x.1 = active) →
      picks.length = active.length →
        (outputs KeyManager.call KeyManager.returned m (m.inTurn picks)).Perm active) := by
  constructor
  · exact fun calls hcalls id hmem hfree hlen => mem_returned hmem hfree hcalls hlen
  · intro hidle picks hpicks hlen
    by_cases hpool : active = []
    · subst hpool
      rw [List.length_nil, List.length_eq_zero_iff] at hlen
      subst hlen
      exact List.Perm.nil
    · have hcount := length_inTurn hpool hpicks hidle
      have hnodup : active.Nodup := by
        obtain ⟨x, hx⟩ := List.exists_mem_of_length_pos
          (hlen ▸ List.length_pos_iff.mpr hpool : 0 < picks.length)
        exact hpicks x hx ▸ ids_nodup x.1
      have hall : active ⊆ outputs KeyManager.call KeyManager.returned m (m.inTurn picks) := by
        intro id hmem
        have hfree : id ∉ m.inFlight := hidle ▸ Finset.notMem_empty id
        exact List.mem_of_mem_take
          (mem_returned hmem hfree (finds_inTurn hpicks) (hlen ▸ hcount.ge))
      exact ((List.subperm_of_subset hnodup hall).perm_of_length_le (by omega)).symm

/-- Key 1 is in flight and the pointer is past the end; key 2 comes next. -/
theorem fair_pool :
    2 ∈ (outputs KeyManager.call KeyManager.returned ⟨none, 7, {1}⟩
      [.pick Sample.pool 0, .release 1, .pick Sample.pool 0]).take 2 ∧
    (outputs KeyManager.call KeyManager.returned .new
      (KeyManager.new.inTurn [(Sample.pool, 0), (Sample.pool, 0)])).Perm [1, 2] :=
  ⟨(fair [1, 2] ⟨none, 7, {1}⟩).1 _ (by decide) 2 (by decide) (by decide) (by decide),
    (fair [1, 2] .new).2 rfl _ (by decide) rfl⟩

end OllamaProxy
