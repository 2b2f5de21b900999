/-
# Places on a ring

On a ring of `n` places a pointer at `s` stands at place `s % n`; it may be
any number. `ahead n s i` is how many places it has to go forward to reach
place `i`.

Key theorems: `add_ahead`, `ahead_unique`, `ahead_advance`.
-/
import Mathlib

namespace Kit

def ahead (n s i : ℕ) : ℕ := (i + (n - s % n)) % n

variable {n s i : ℕ}

theorem ahead_lt (hn : 0 < n) : ahead n s i < n := Nat.mod_lt _ hn

theorem add_ahead (hi : i < n) : (s + ahead n s i) % n = i := by
  have hs : s % n < n := Nat.mod_lt _ (by omega)
  have hcycle : s % n + (i + (n - s % n)) = i + n := by omega
  calc (s + (i + (n - s % n)) % n) % n = (s % n + (i + (n - s % n))) % n := by simp
    _ = i := by rw [hcycle, Nat.add_mod_right, Nat.mod_eq_of_lt hi]

/-- Fewer than `n` places reach `i` in one way only. -/
theorem ahead_unique {o : ℕ} (ho : o < n) (h : (s + o) % n = i) : ahead n s i = o := by
  have hi : i < n := h ▸ Nat.mod_lt _ (by omega)
  have hmod : s + ahead n s i ≡ s + o [MOD n] := (add_ahead hi).trans h.symm
  have hsame : ahead n s i % n = o % n := Nat.ModEq.add_left_cancel' s hmod
  rwa [Nat.mod_eq_of_lt (ahead_lt (by omega)), Nat.mod_eq_of_lt ho] at hsame

/-- A pointer that goes past `o` places before `i` is that much nearer. -/
theorem ahead_advance {o : ℕ} (hi : i < n) (ho : o < ahead n s i) :
    ahead n ((s + o + 1) % n) i = ahead n s i - (o + 1) := by
  have hlt : ahead n s i < n := ahead_lt (by omega)
  apply ahead_unique (by omega)
  calc ((s + o + 1) % n + (ahead n s i - (o + 1))) % n = (s + ahead n s i) % n := by
        rw [Nat.mod_add_mod]
        congr 1
        omega
    _ = i := add_ahead hi

end Kit
