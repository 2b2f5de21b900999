/-
# Signed values that carry their time

A signer turns a purpose, a message and an instant into a value, and reads a
value back for one purpose: the message and the time stamp. The stamp of an
instant may be coarser than the clock. What was signed for one purpose does not
read for another one.

Nobody but the owner of the secret can make a value that reads: a value that is
`Unforged` reads for a purpose only if its message was signed for it. The log of
what was signed grows, and a value stays unforged.

`accept` reads a value whose stamp is not older than `maxAge`.

Key definitions: `Signer`, `Signed`, `Unforged`, `accept`.
Key theorems: `accept_value_of_ne`, `Unforged.of_accept`, `unforged_value`.
-/
import Mathlib

namespace Kit

/-- `κ` are the purposes, `π` the messages and `ω` the values. -/
structure Signer (κ π ω : Type*) where
  stamp : ℤ → ℤ
  sign : κ → π → ℤ → ω
  loads : κ → ω → Option (π × ℤ)
  loads_sign : ∀ k m t, loads k (sign k m t) = some (m, t)
  loads_sign_of_ne : ∀ {k k'} m t, k ≠ k' → loads k' (sign k m t) = none

/-- A message that was signed. -/
structure Signed (κ π : Type*) where
  purpose : κ
  message : π
  time : ℤ
deriving DecidableEq

namespace Signer

variable {κ π ω : Type*} (S : Signer κ π ω)

/-- Signing at an instant. -/
def dumps (k : κ) (m : π) (now : ℤ) : ω := S.sign k m (S.stamp now)

/-- The value of an entry of the log. -/
def value (e : Signed κ π) : ω := S.dumps e.purpose e.message e.time

/-- Reading at an instant: the message, unless the stamp is too old or in the
future. -/
def accept (maxAge : ℤ) (now : ℤ) (k : κ) (v : ω) : Option π :=
  match S.loads k v with
  | some (m, t) => if maxAge < S.stamp now - t ∨ S.stamp now - t < 0 then none else some m
  | none => none

/-- Where the value reads, its message was signed for the purpose. -/
def Unforged (log : List (Signed κ π)) (v : ω) : Prop :=
  ∀ k m t, S.loads k v = some (m, t) → ∃ e ∈ log, e.purpose = k ∧ e.message = m ∧ S.stamp e.time = t

variable {S} {log log' : List (Signed κ π)} {v : ω} {k : κ} {m : π} {maxAge now : ℤ}

theorem accept_eq_some_iff : S.accept maxAge now k v = some m ↔
    ∃ t, S.loads k v = some (m, t) ∧ 0 ≤ S.stamp now - t ∧ S.stamp now - t ≤ maxAge := by
  unfold accept
  cases hv : S.loads k v with
  | none => simp
  | some r =>
    obtain ⟨m', t⟩ := r
    simp only [Option.ite_none_left_eq_some, not_or, not_lt, Option.some.injEq, Prod.mk.injEq]
    constructor
    · rintro ⟨⟨hold, hfuture⟩, rfl⟩
      exact ⟨t, ⟨rfl, rfl⟩, hfuture, hold⟩
    · rintro ⟨t', ⟨rfl, rfl⟩, hfuture, hold⟩
      exact ⟨⟨hold, hfuture⟩, rfl⟩

/-- A value that was just signed is accepted. -/
theorem accept_dumps (h : 0 ≤ maxAge) : S.accept maxAge now k (S.dumps k m now) = some m :=
  accept_eq_some_iff.mpr ⟨S.stamp now, S.loads_sign k m (S.stamp now), by omega, by omega⟩

/-- A value signed for one purpose is not accepted for another one. -/
theorem accept_value_of_ne {e : Signed κ π} (h : e.purpose ≠ k) (maxAge now : ℤ) :
    S.accept maxAge now k (S.value e) = none := by
  unfold accept value dumps
  rw [S.loads_sign_of_ne e.message _ h]

theorem Unforged.mono (h : S.Unforged log v) (hlog : log ⊆ log') : S.Unforged log' v := by
  intro k m t hv
  obtain ⟨e, he, hentry⟩ := h k m t hv
  exact ⟨e, hlog he, hentry⟩

/-- What was signed is not forged. -/
theorem unforged_value {e : Signed κ π} (he : e ∈ log) : S.Unforged log (S.value e) := by
  intro k m t hv
  by_cases hk : e.purpose = k
  · subst hk
    rw [value, dumps, S.loads_sign] at hv
    cases hv
    exact ⟨e, he, rfl, rfl, rfl⟩
  · rw [value, dumps, S.loads_sign_of_ne e.message _ hk] at hv
    cases hv

/-- What is accepted was signed for the purpose, not too long ago. -/
theorem Unforged.of_accept (h : S.Unforged log v) (hv : S.accept maxAge now k v = some m) :
    ∃ e ∈ log, e.purpose = k ∧ e.message = m ∧ S.loads k v = some (m, S.stamp e.time) ∧
      S.stamp now - S.stamp e.time ≤ maxAge := by
  obtain ⟨t, ht, -, hage⟩ := accept_eq_some_iff.mp hv
  obtain ⟨e, he, hpurpose, hmessage, rfl⟩ := h k m t ht
  exact ⟨e, he, hpurpose, hmessage, ht, hage⟩

end Signer

end Kit
