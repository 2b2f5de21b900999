/-
# Authenticated encryption

`close` makes a value of a message with a key and a nonce, and `read` gives the
message back to the holder of the key, and nothing to the holder of another one.

Key definitions: `Cipher`, `Sealed`.
Key theorems: `read_token`, `read_eq_some_iff`.
-/
import Mathlib

namespace Kit

/-- `κ` are the keys, `π` the messages and `ω` the values. -/
structure Cipher (κ π ω : Type*) where
  close : κ → ℕ → π → ω
  read : κ → ω → Option π
  read_close : ∀ k n m, read k (close k n m) = some m
  read_close_of_ne : ∀ {k k'} n m, k ≠ k' → read k' (close k n m) = none

/-- A message that was closed. -/
structure Sealed (κ π : Type*) where
  key : κ
  nonce : ℕ
  message : π
deriving DecidableEq

namespace Cipher

variable {κ π ω : Type*} (C : Cipher κ π ω)

def token (b : Sealed κ π) : ω := C.close b.key b.nonce b.message

variable {C} {b : Sealed κ π} {k : κ} {m : π}

/-- The holder of a key reads the message, or nothing. -/
theorem read_token [DecidableEq κ] (b : Sealed κ π) (k : κ) :
    C.read k (C.token b) = if b.key = k then some b.message else none := by
  split_ifs with hk
  · rw [← hk]
    exact C.read_close b.key b.nonce b.message
  · exact C.read_close_of_ne b.nonce b.message hk

theorem read_eq_some_iff : C.read k (C.token b) = some m ↔ b.key = k ∧ b.message = m := by
  classical
  rw [read_token]
  split_ifs with hk <;> simp [hk]

end Cipher

end Kit
