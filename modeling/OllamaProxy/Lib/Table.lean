/-
# Tables with an integer primary key

A table is its rows in the order of their ids, as `ORDER BY id` reads them.
The order is a field of the structure, so an id names at most one row.
`mapRows` is an `UPDATE`, `erase` a `DELETE`, `insert` an `INSERT` (the new id
is one more than the largest id present), `select` a `SELECT` and `total` a
`SUM`.

The last section is about writing a loaded copy of a row back: only the
columns that were set to another value than the copy's are written.

Key definitions: `Table`, `get?`, `mapRows`, `modify`, `erase`, `insert`,
`select`, `netChange`.
Key theorems: `get?_eq_some_iff`, `get?_mapRows`, `get?_erase`, `get?_insert`,
`mem_select`.
-/
import Mathlib

namespace Kit

/-- Rows by id, in the order of their ids. -/
structure Table (α : Type*) where
  rows : List (ℕ × α)
  sorted : rows.Pairwise fun a b => a.1 < b.1

namespace Table

variable {α : Type*}

/-- The row with this id. -/
def get? (t : Table α) (id : ℕ) : Option α := (t.rows.find? fun r => r.1 = id).map (·.2)

def empty : Table α := ⟨[], .nil⟩

/-- Every row changes; the ids stay. -/
def mapRows (t : Table α) (f : ℕ → α → α) : Table α where
  rows := t.rows.map fun r => (r.1, f r.1 r.2)
  sorted := List.pairwise_map.mpr t.sorted

/-- The row with this id changes. -/
def modify (t : Table α) (id : ℕ) (f : α → α) : Table α :=
  t.mapRows fun i a => if i = id then f a else a

/-- Every row becomes a row of another table. -/
def map {β : Type*} (f : α → β) (t : Table α) : Table β where
  rows := t.rows.map fun r => (r.1, f r.2)
  sorted := List.pairwise_map.mpr t.sorted

def erase (t : Table α) (id : ℕ) : Table α where
  rows := t.rows.filter fun r => r.1 ≠ id
  sorted := t.sorted.filter _

/-- The id the next row gets: one more than the largest id present. -/
def nextId (t : Table α) : ℕ := (t.rows.getLast?.map (·.1)).getD 0 + 1

theorem lt_nextId (t : Table α) {r : ℕ × α} (hr : r ∈ t.rows) : r.1 < t.nextId := by
  obtain ⟨pre, last, hrows⟩ : ∃ pre last, t.rows = pre ++ [last] :=
    ⟨_, _, (List.dropLast_append_getLast (List.ne_nil_of_mem hr)).symm⟩
  have hsorted := t.sorted
  rw [hrows, List.pairwise_append] at hsorted
  simp only [nextId, hrows, List.getLast?_append, List.getLast?_singleton, Option.some_or,
    Option.map_some, Option.getD_some]
  rw [hrows] at hr
  rcases List.mem_append.mp hr with h | h
  · have := hsorted.2.2 r h last (List.mem_singleton_self _)
    omega
  · rw [List.mem_singleton.mp h]
    omega

def insert (t : Table α) (a : α) : Table α where
  rows := t.rows ++ [(t.nextId, a)]
  sorted := List.pairwise_append.mpr ⟨t.sorted, List.pairwise_singleton _ _, fun r hr b hb => by
    rw [List.mem_singleton.mp hb]
    exact t.lt_nextId hr⟩

/-- The rows that satisfy `p`, in the order of their ids. -/
def select (t : Table α) (p : α → Bool) : List (ℕ × α) := t.rows.filter fun r => p r.2

/-! ### An id names at most one row -/

theorem find?_eq_some_iff : ∀ {rows : List (ℕ × α)}, rows.Pairwise (fun a b => a.1 < b.1) →
    ∀ (id : ℕ) (r : ℕ × α), rows.find? (fun r => r.1 = id) = some r ↔ r ∈ rows ∧ r.1 = id
  | [], _, id, r => by simp
  | x :: rows, h, id, r => by
    obtain ⟨hx, hrows⟩ := List.pairwise_cons.mp h
    by_cases hid : x.1 = id
    · simp only [List.find?_cons, hid, decide_true, Option.some.injEq, List.mem_cons]
      constructor
      · rintro rfl
        exact ⟨Or.inl rfl, hid⟩
      · rintro ⟨rfl | hr, hrid⟩
        · rfl
        · have := hx r hr
          omega
    · simp only [List.find?_cons, hid, decide_false, List.mem_cons]
      rw [find?_eq_some_iff hrows id r]
      constructor
      · rintro ⟨hr, hrid⟩
        exact ⟨Or.inr hr, hrid⟩
      · rintro ⟨rfl | hr, hrid⟩
        · exact absurd hrid hid
        · exact ⟨hr, hrid⟩

theorem get?_eq_some_iff (t : Table α) (id : ℕ) (a : α) :
    t.get? id = some a ↔ (id, a) ∈ t.rows := by
  simp only [get?, Option.map_eq_some_iff, find?_eq_some_iff t.sorted]
  constructor
  · rintro ⟨r, ⟨hr, rfl⟩, rfl⟩
    exact hr
  · intro h
    exact ⟨_, ⟨h, rfl⟩, rfl⟩

theorem mem_select (t : Table α) (p : α → Bool) (id : ℕ) (a : α) :
    (id, a) ∈ t.select p ↔ t.get? id = some a ∧ p a = true := by
  simp [select, get?_eq_some_iff]

theorem select_ids_sorted (t : Table α) (p : α → Bool) :
    ((t.select p).map (·.1)).Pairwise (· < ·) :=
  List.pairwise_map.mpr (t.sorted.filter _)

theorem select_ids_nodup (t : Table α) (p : α → Bool) : ((t.select p).map (·.1)).Nodup :=
  (t.select_ids_sorted p).imp ne_of_lt

/-- A query that only one row satisfies. -/
theorem select_eq_singleton {t : Table α} {p : α → Bool} {id : ℕ} {a : α} (ha : t.get? id = some a)
    (hp : p a = true) (hone : ∀ j b, t.get? j = some b → p b = true → j = id) :
    t.select p = [(id, a)] := by
  have hmem : (id, a) ∈ t.select p := (t.mem_select p id a).mpr ⟨ha, hp⟩
  have hall : ∀ r ∈ t.select p, r = (id, a) := by
    rintro ⟨j, b⟩ hr
    obtain ⟨hb, hpb⟩ := (t.mem_select p j b).mp hr
    cases hone j b hb hpb
    rw [Option.some.inj (ha.symm.trans hb)]
  have hsorted := t.select_ids_sorted p
  rcases hsel : t.select p with _ | ⟨r, _ | ⟨r', rest⟩⟩ <;> rw [hsel] at hmem hall hsorted
  · cases hmem
  · rw [hall r List.mem_cons_self]
  · have hr := hall r List.mem_cons_self
    have hr' := hall r' (List.mem_cons_of_mem _ List.mem_cons_self)
    simp [hr, hr'] at hsorted

/-! ### What the operations do to a row -/

@[simp] theorem get?_mapRows (t : Table α) (f : ℕ → α → α) (id : ℕ) :
    (t.mapRows f).get? id = (t.get? id).map (f id) := by
  ext b
  simp only [get?_eq_some_iff, Option.map_eq_some_iff, mapRows, List.mem_map, Prod.mk.injEq]
  constructor
  · rintro ⟨r, hr, rfl, rfl⟩
    exact ⟨r.2, hr, rfl⟩
  · rintro ⟨a, ha, rfl⟩
    exact ⟨_, ha, rfl, rfl⟩

theorem get?_modify (t : Table α) (id i : ℕ) (f : α → α) :
    (t.modify id f).get? i = if i = id then (t.get? i).map f else t.get? i := by
  by_cases h : i = id <;> simp [modify, h]

@[simp] theorem get?_modify_self (t : Table α) (id : ℕ) (f : α → α) :
    (t.modify id f).get? id = (t.get? id).map f := by
  simp [get?_modify]

@[simp] theorem get?_modify_of_ne (t : Table α) {id i : ℕ} (h : i ≠ id) (f : α → α) :
    (t.modify id f).get? i = t.get? i := by
  simp [get?_modify, h]

theorem get?_erase (t : Table α) (id i : ℕ) :
    (t.erase id).get? i = if i = id then none else t.get? i := by
  ext b
  by_cases h : i = id <;> simp [get?_eq_some_iff, erase, h]

theorem get?_nextId (t : Table α) : t.get? t.nextId = none := by
  cases h : t.get? t.nextId with
  | none => rfl
  | some a => exact absurd (t.lt_nextId ((t.get?_eq_some_iff _ _).mp h)) (lt_irrefl _)

theorem get?_insert (t : Table α) (a : α) (i : ℕ) :
    (t.insert a).get? i = if i = t.nextId then some a else t.get? i := by
  ext b
  rw [get?_eq_some_iff]
  by_cases h : i = t.nextId
  · subst h
    have hnone : (t.nextId, b) ∉ t.rows := fun hb => absurd (t.lt_nextId hb) (lt_irrefl _)
    simp [insert, hnone, eq_comm]
  · simp [get?_eq_some_iff, insert, h]

theorem ext_rows {s t : Table α} (h : s.rows = t.rows) : s = t := by
  cases s
  cases t
  cases h
  rfl

theorem modify_eq_self {t : Table α} {id : ℕ} {f : α → α} (h : ∀ a, t.get? id = some a → f a = a) :
    t.modify id f = t := by
  apply ext_rows
  simp only [modify, mapRows]
  rw [List.map_congr_left (g := fun r => r), List.map_id']
  intro r hr
  by_cases hid : r.1 = id
  · rw [if_pos hid, h r.2 (hid ▸ (t.get?_eq_some_iff r.1 r.2).mpr hr)]
  · rw [if_neg hid]

/-- Two changes of a row that look alike under `f`. -/
theorem map_rows_modify_congr {β : Type*} (f : α → β) {t : Table α} {id : ℕ} {g g' : α → α}
    (h : ∀ a, t.get? id = some a → f (g a) = f (g' a)) :
    ((t.modify id g).rows.map fun r => (r.1, f r.2)) = (t.modify id g').rows.map fun r => (r.1, f r.2) := by
  simp only [modify, mapRows, List.map_map]
  apply List.map_congr_left
  intro r hr
  by_cases hid : r.1 = id
  · have hrow : t.get? id = some r.2 := hid ▸ (t.get?_eq_some_iff r.1 r.2).mpr hr
    simp [hid, h r.2 hrow]
  · simp [hid]

theorem modify_congr {t : Table α} {id : ℕ} {g g' : α → α} (h : ∀ a, t.get? id = some a → g a = g' a) :
    t.modify id g = t.modify id g' := by
  apply ext_rows
  have hrows := map_rows_modify_congr (fun a => a) h
  simpa using hrows

/-! ### Sums over a column -/

/-- The sum of a column. -/
def total (t : Table α) (f : α → ℕ) : ℕ := (t.rows.map fun r => f r.2).sum

theorem total_mapRows {t : Table α} {f : α → ℕ} {g : ℕ → α → α} (h : ∀ i a, f (g i a) = f a) :
    (t.mapRows g).total f = t.total f := by
  simp [total, mapRows, Function.comp_def, h]

/-- A row that grows by `k` in the column makes the sum grow by `k`. -/
theorem total_modify {t : Table α} {f : α → ℕ} {g : α → α} {id k : ℕ} {a : α} (ha : t.get? id = some a)
    (hk : f (g a) = f a + k) : (t.modify id g).total f = t.total f + k := by
  have hrows : ∀ rows : List (ℕ × α), rows.Pairwise (fun a b => a.1 < b.1) → (id, a) ∈ rows →
      (rows.map fun r => f (if r.1 = id then g r.2 else r.2)).sum = (rows.map fun r => f r.2).sum + k := by
    intro rows hsorted hmem
    induction rows with
    | nil => cases hmem
    | cons r rows ih =>
      obtain ⟨hr, hrest⟩ := List.pairwise_cons.mp hsorted
      rw [List.map_cons, List.sum_cons, List.map_cons, List.sum_cons]
      rcases List.mem_cons.mp hmem with rfl | hmem
      · have hothers : rows.map (fun r => f (if r.1 = id then g r.2 else r.2)) = rows.map fun r => f r.2 := by
          apply List.map_congr_left
          intro r' hr'
          have : id < r'.1 := hr r' hr'
          rw [if_neg (by omega)]
        rw [if_pos rfl, hothers]
        show f (g a) + _ = f a + _ + k
        omega
      · have : r.1 < id := hr _ hmem
        rw [if_neg (by omega), ih hrest hmem]
        omega
  have h := hrows t.rows t.sorted ((t.get?_eq_some_iff id a).mp ha)
  simpa [total, modify, mapRows, Function.comp_def] using h

/-! ### The operations commute with `map` -/

section

variable {β : Type*} (f : α → β)

@[simp] theorem get?_map (t : Table α) (id : ℕ) : (t.map f).get? id = (t.get? id).map f := by
  ext b
  simp only [get?_eq_some_iff, Option.map_eq_some_iff, map, List.mem_map, Prod.mk.injEq]
  constructor
  · rintro ⟨r, hr, rfl, rfl⟩
    exact ⟨r.2, hr, rfl⟩
  · rintro ⟨a, ha, rfl⟩
    exact ⟨_, ha, rfl, rfl⟩

@[simp] theorem nextId_map (t : Table α) : (t.map f).nextId = t.nextId := by
  simp [nextId, map, List.getLast?_map, Function.comp_def]

theorem map_insert (t : Table α) (a : α) : (t.insert a).map f = (t.map f).insert (f a) := by
  apply ext_rows
  have hid : (t.map f).nextId = t.nextId := t.nextId_map f
  simp only [insert, hid]
  simp [map]

theorem map_erase (t : Table α) (id : ℕ) : (t.erase id).map f = (t.map f).erase id := by
  apply ext_rows
  simp [erase, map, List.filter_map, Function.comp_def]

theorem map_modify {g : α → α} {g' : β → β} (t : Table α) (id : ℕ) (h : ∀ a, f (g a) = g' (f a)) :
    (t.modify id g).map f = (t.map f).modify id g' := by
  apply ext_rows
  simp only [modify, mapRows, map, List.map_map]
  apply List.map_congr_left
  intro r hr
  by_cases hid : r.1 = id <;> simp [hid, h]

theorem map_modify_congr {t : Table α} {id : ℕ} {g g' : α → α} (h : ∀ a, t.get? id = some a → f (g a) = f (g' a)) :
    (t.modify id g).map f = (t.modify id g').map f :=
  ext_rows (map_rows_modify_congr f h)

theorem map_mapRows_congr {t : Table α} {g g' : ℕ → α → α} (h : ∀ i a, f (g i a) = f (g' i a)) :
    (t.mapRows g).map f = (t.mapRows g').map f := by
  apply ext_rows
  simp only [mapRows, map, List.map_map]
  apply List.map_congr_left
  intro r _
  simp [h]

end

end Table

/-! ### Writing a loaded copy back

A session that loaded a row keeps a copy of it. What it writes back is the
columns whose new value differs from the copy's; the other columns keep what
the table holds by then. -/

/-- What a column holds after the write-back. -/
def netChange {β : Type*} [DecidableEq β] (copy new db : β) : β := if new = copy then db else new

/-- The write-back of a column whose loaded values never compare equal to new
ones, unless both are absent. -/
def netChangeSome {β : Type*} (copy new db : Option β) : Option β :=
  if copy.isNone && new.isNone then db else new

variable {β : Type*}

@[simp] theorem netChange_self [DecidableEq β] (copy new : β) : netChange copy new copy = new := by
  unfold netChange
  split_ifs with h
  · exact h.symm
  · rfl

theorem netChange_of_ne [DecidableEq β] {copy new : β} (h : new ≠ copy) (db : β) :
    netChange copy new db = new := if_neg h

@[simp] theorem netChangeSome_some (copy db : Option β) (x : β) :
    netChangeSome copy (some x) db = some x := by
  simp [netChangeSome]

end Kit
