/-
# A round-robin pointer into a list that shrinks

A pointer is an index into a list. Each visit takes the key at the pointer,
modulo the length, and moves the pointer on by one; a key that `drops` leaves
the list when it is visited. The pointer does not move back then, so the key
behind a dropped one is passed over.

`visits` is the pointer, `laps` the same sequence without one: a lap tries the
keys of the list in their order, but passes over the key behind a dropped one;
the next lap is over the keys that survived. Of a row of dropped keys, every
second one is tried in a lap.

Key definitions: `visits`, `tried`, `survivors`, `laps`, `lapsFrom`.
Key theorems: `visits_eq_tried_append`, `visits_eq_lapsFrom`.
-/
import Mathlib

namespace Kit
namespace RoundRobin

variable {κ : Type*} (drops : κ → Bool)

/-- The first `k` keys that the pointer at `s` visits. -/
def visits : ℕ → List κ → ℕ → List κ
  | 0, _, _ => []
  | k + 1, l, s =>
    match l[s % l.length]? with
    | none => []
    | some x =>
      x :: visits k (if drops x then l.eraseIdx (s % l.length) else l) ((s + 1) % l.length)

/-- The keys that one lap tries. -/
def tried : List κ → List κ
  | [] => []
  | [x] => [x]
  | x :: y :: xs => if drops x then x :: tried xs else x :: tried (y :: xs)

/-- The keys that are left after a lap. -/
def survivors : List κ → List κ
  | [] => []
  | [x] => if drops x then [] else [x]
  | x :: y :: xs => if drops x then y :: survivors xs else x :: survivors (y :: xs)

/-- The keys that `m` laps try. -/
def laps : ℕ → List κ → List κ
  | 0, _ => []
  | m + 1, l => tried drops l ++ laps m (survivors drops l)

/-- A lap from position `p` to the end, then `m` laps. -/
def lapsFrom (m p : ℕ) (l : List κ) : List κ :=
  tried drops (l.drop p) ++ laps drops m (l.take p ++ survivors drops (l.drop p))

variable {drops}

@[simp] theorem visits_nil (k s : ℕ) : visits drops k [] s = [] := by
  cases k <;> rfl

theorem visits_cons {l : List κ} {s : ℕ} {x : κ} (h : l[s % l.length]? = some x) (k : ℕ) :
    visits drops (k + 1) l s =
      x :: visits drops k (if drops x then l.eraseIdx (s % l.length) else l) ((s + 1) % l.length) := by
  rw [visits, h]

theorem visits_mod (k : ℕ) (l : List κ) (s : ℕ) :
    visits drops k l (s % l.length) = visits drops k l s := by
  cases k with
  | zero => rfl
  | succ k => rw [visits, visits, Nat.mod_mod, Nat.mod_add_mod]

theorem length_visits_le (k : ℕ) (l : List κ) (s : ℕ) : (visits drops k l s).length ≤ k := by
  induction k generalizing l s with
  | zero => exact le_rfl
  | succ k ih =>
    unfold visits
    split
    · exact Nat.zero_le _
    · exact Nat.succ_le_succ (ih _ _)

theorem tried_cons_of_not {x : κ} (hx : drops x = false) (xs : List κ) :
    tried drops (x :: xs) = x :: tried drops xs := by
  cases xs with
  | nil => rfl
  | cons y ys => simp [tried, hx]

theorem survivors_cons_of_not {x : κ} (hx : drops x = false) (xs : List κ) :
    survivors drops (x :: xs) = x :: survivors drops xs := by
  cases xs with
  | nil => simp [survivors, hx]
  | cons y ys => simp [survivors, hx]

theorem tried_ne_nil {l : List κ} (hl : l ≠ []) : tried drops l ≠ [] := by
  rcases l with _ | ⟨x, _ | ⟨y, ys⟩⟩
  · exact absurd rfl hl
  · exact List.cons_ne_nil _ _
  · rw [tried]
    split_ifs <;> exact List.cons_ne_nil _ _

/-- From position `pre.length` the pointer finishes its lap, then starts at 0. -/
theorem visits_eq_tried_append : ∀ (rest pre : List κ) (k : ℕ),
    visits drops k (pre ++ rest) pre.length =
      (tried drops rest ++
        visits drops (k - (tried drops rest).length) (pre ++ survivors drops rest) 0).take k
  | [], pre, k => by
    have hwrap : visits drops k pre pre.length = visits drops k pre 0 := by
      rw [← visits_mod k pre pre.length, Nat.mod_self]
    simp only [tried, survivors, List.append_nil, List.nil_append, List.length_nil, Nat.sub_zero, hwrap]
    rw [List.take_of_length_le (length_visits_le _ _ _)]
  | x :: rest, pre, 0 => by simp [visits]
  | x :: rest, pre, k + 1 => by
    have hlen : pre.length < (pre ++ x :: rest).length := by simp
    have hmod : pre.length % (pre ++ x :: rest).length = pre.length := Nat.mod_eq_of_lt hlen
    have hget : (pre ++ x :: rest)[pre.length % (pre ++ x :: rest).length]? = some x := by
      rw [hmod, List.getElem?_append_right le_rfl, Nat.sub_self]
      rfl
    rw [visits_cons hget, hmod]
    cases hx : drops x with
    | false =>
      -- the key stays, and the pointer goes on to the next one
      have ih := visits_eq_tried_append rest (pre ++ [x]) k
      rw [List.append_assoc, List.singleton_append, List.length_append, List.length_singleton] at ih
      rw [tried_cons_of_not hx, survivors_cons_of_not hx, if_neg Bool.false_ne_true, visits_mod, ih,
        List.cons_append, List.take_succ_cons, List.length_cons, Nat.add_sub_add_right,
        List.append_assoc, List.singleton_append]
    | true =>
      have herase : (pre ++ x :: rest).eraseIdx pre.length = pre ++ rest := by
        rw [List.eraseIdx_append_of_length_le le_rfl, Nat.sub_self]
        rfl
      rw [if_pos rfl, herase]
      cases rest with
      | nil =>
        have hwrap : (pre.length + 1) % (pre ++ [x]).length = 0 := by simp
        rw [hwrap]
        simp only [tried, survivors, hx, if_true, List.append_nil, List.singleton_append,
          List.take_succ_cons, List.length_singleton, Nat.add_sub_cancel]
        rw [List.take_of_length_le (length_visits_le _ _ _)]
      | cons y ys =>
        -- the key behind the dropped one is passed over
        have hnext : (pre.length + 1) % (pre ++ x :: y :: ys).length = (pre ++ [y]).length := by
          rw [List.length_append, List.length_append, List.length_singleton]
          exact Nat.mod_eq_of_lt (by simp)
        have ih := visits_eq_tried_append ys (pre ++ [y]) k
        rw [List.append_assoc, List.singleton_append] at ih
        rw [hnext, ih]
        simp only [tried, survivors, hx, if_true, List.cons_append, List.take_succ_cons,
          List.length_cons, Nat.add_sub_add_right, List.append_assoc, List.nil_append]

theorem laps_nil (m : ℕ) : laps drops m ([] : List κ) = [] := by
  induction m with
  | zero => rfl
  | succ m ih => rw [laps, survivors, ih]; rfl

theorem visits_zero_eq_laps (m k : ℕ) (l : List κ) (hk : k ≤ m) :
    visits drops k l 0 = (laps drops m l).take k := by
  induction m generalizing k l with
  | zero =>
    rw [Nat.le_zero.mp hk]
    rfl
  | succ m ih =>
    cases k with
    | zero => rfl
    | succ k =>
      by_cases hl : l = []
      · rw [hl, laps_nil]
        rfl
      · have hpos : 0 < (tried drops l).length := List.length_pos_iff.mpr (tried_ne_nil hl)
        have hlap : visits drops (k + 1) l 0 = _ := visits_eq_tried_append l [] (k + 1)
        have hrest := ih (k + 1 - (tried drops l).length) (survivors drops l) (by omega)
        rw [List.nil_append, hrest] at hlap
        rw [hlap, laps, List.take_append, List.take_append, List.take_take, Nat.min_self]

/-- The pointer makes laps. -/
theorem visits_eq_lapsFrom (k : ℕ) (l : List κ) (s : ℕ) :
    visits drops k l s = (lapsFrom drops k (s % l.length) l).take k := by
  by_cases hl : l = []
  · subst hl
    simp [lapsFrom, tried, survivors, laps_nil]
  · have hlt : s % l.length < l.length := Nat.mod_lt _ (List.length_pos_iff.mpr hl)
    have hlap : visits drops k (l.take (s % l.length) ++ l.drop (s % l.length))
        (l.take (s % l.length)).length = _ := visits_eq_tried_append _ _ k
    rw [List.take_append_drop, List.length_take_of_le hlt.le, visits_mod] at hlap
    rw [hlap, visits_zero_eq_laps k _ _ (by omega), lapsFrom, List.take_append, List.take_append,
      List.take_take, Nat.min_self]

end RoundRobin
end Kit
