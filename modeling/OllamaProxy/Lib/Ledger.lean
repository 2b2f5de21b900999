/-
# Exclusive reservations

What a lock table is for: a party holds at most one resource, and a resource
is held by at most one party. `Ledger` is the state (who holds what, and the
set of reserved resources that the parties consult), `Ledger.Step` what a
party may do with it, `Ledger.Exclusive` the invariant every step keeps. A
party that never releases keeps its resource, so the set is empty exactly
when nobody holds anything (`Exclusive.reserved_eq_empty_iff`).
-/
import Mathlib

namespace Kit

/-- Who holds what, and the set of reserved resources. -/
structure Ledger (P K : Type*) where
  holder : P → Option K
  reserved : Finset K

namespace Ledger

variable {P K : Type*} [DecidableEq P] [DecidableEq K]

/-- One step of one party. A party reserves only a free resource, and it
releases only what it holds. -/
inductive Step : Ledger P K → Ledger P K → Prop
  | stutter (l : Ledger P K) : Step l l
  | reserve (l : Ledger P K) (p : P) (k : K) (hp : l.holder p = none) (hk : k ∉ l.reserved) :
      Step l ⟨Function.update l.holder p (some k), insert k l.reserved⟩
  | release (l : Ledger P K) (p : P) (k : K) (hp : l.holder p = some k) :
      Step l ⟨Function.update l.holder p none, l.reserved.erase k⟩

/-- The set is what the parties hold, and no two hold the same. -/
structure Exclusive (l : Ledger P K) : Prop where
  mem_reserved : ∀ k, k ∈ l.reserved ↔ ∃ p, l.holder p = some k
  unique : ∀ p q k, l.holder p = some k → l.holder q = some k → p = q

omit [DecidableEq P] [DecidableEq K] in
theorem exclusive_empty : Exclusive (⟨fun _ => none, ∅⟩ : Ledger P K) where
  mem_reserved := by simp
  unique := by simp

theorem Exclusive.reserve {l : Ledger P K} (h : l.Exclusive) {p : P} {k : K}
    (hp : l.holder p = none) (hk : k ∉ l.reserved) :
    Exclusive ⟨Function.update l.holder p (some k), insert k l.reserved⟩ where
  mem_reserved j := by
    simp only [Finset.mem_insert, h.mem_reserved]
    constructor
    · rintro (rfl | ⟨q, hq⟩)
      · exact ⟨p, by simp⟩
      · have hqp : q ≠ p := fun he => by simp [he, hp] at hq
        exact ⟨q, by simp [hqp, hq]⟩
    · rintro ⟨q, hq⟩
      by_cases hqp : q = p
      · subst hqp
        simp only [Function.update_self, Option.some.injEq] at hq
        exact Or.inl hq.symm
      · rw [Function.update_of_ne hqp] at hq
        exact Or.inr ⟨q, hq⟩
  unique q r j hq hr := by
    have hfree : ∀ i, l.holder i ≠ some k := fun i hi => hk ((h.mem_reserved k).mpr ⟨i, hi⟩)
    simp only [Function.update_apply] at hq hr
    split_ifs at hq hr with h1 h2 h2
    · rw [h1, h2]
    · cases hq
      exact absurd hr (hfree r)
    · cases hr
      exact absurd hq (hfree q)
    · exact h.unique q r j hq hr

theorem Exclusive.release {l : Ledger P K} (h : l.Exclusive) {p : P} {k : K}
    (hp : l.holder p = some k) :
    Exclusive ⟨Function.update l.holder p none, l.reserved.erase k⟩ where
  mem_reserved j := by
    simp only [Finset.mem_erase, h.mem_reserved]
    constructor
    · rintro ⟨hjk, q, hq⟩
      have hqp : q ≠ p := fun he => hjk (Option.some.inj (by rw [← hq, he, hp]))
      exact ⟨q, by simp [hqp, hq]⟩
    · rintro ⟨q, hq⟩
      simp only [Function.update_apply] at hq
      split_ifs at hq with hqp
      refine ⟨fun hjk => hqp (h.unique q p k (hjk ▸ hq) hp), q, hq⟩
  unique q r j hq hr := by
    simp only [Function.update_apply] at hq hr
    split_ifs at hq hr
    exact h.unique q r j hq hr

theorem Exclusive.step {l l' : Ledger P K} (h : l.Exclusive) (hs : Step l l') : l'.Exclusive := by
  cases hs with
  | stutter => exact h
  | reserve p k hp hk => exact h.reserve hp hk
  | release p k hp => exact h.release hp

omit [DecidableEq P] [DecidableEq K] in
/-- Nothing is reserved exactly when nobody holds anything. -/
theorem Exclusive.reserved_eq_empty_iff {l : Ledger P K} (h : l.Exclusive) :
    l.reserved = ∅ ↔ ∀ p, l.holder p = none := by
  constructor
  · intro he p
    by_contra hp
    obtain ⟨k, hk⟩ := Option.ne_none_iff_exists'.mp hp
    have := (h.mem_reserved k).mpr ⟨p, hk⟩
    rw [he] at this
    exact absurd this (Finset.notMem_empty k)
  · intro hn
    rw [Finset.eq_empty_iff_forall_notMem]
    intro k hk
    obtain ⟨p, hp⟩ := (h.mem_reserved k).mp hk
    rw [hn p] at hp
    cases hp

end Ledger
end Kit
