/-
# How deep a relation goes

`Within r n a` says that a chain of `r`-steps from `a` has at most `n` elements,
`a` among them. Calls of a recursive function that nest are such a chain, and
`n` is the room on its stack.

On finitely many elements chains are bounded unless one comes back to where it
was (`within_of_acyclic`). A chain that climbs through finitely many levels is
bounded if it is on each of them (`within_of_levels`).

The last section is about a loop whose body may fail: whether it gets to its
end, and what holds there.

Key definitions: `Within`.
Key theorems: `within_of_acyclic`, `within_of_levels`, `foldlM_isSome_iff`.
-/
import Mathlib

namespace Kit

open Relation

variable {α : Type*} {r s : α → α → Prop}

/-- No chain from `a` has more than `n` elements. -/
def Within (r : α → α → Prop) : ℕ → α → Prop
  | 0, _ => False
  | n + 1, a => ∀ b, r a b → Within r n b

theorem Within.mono : ∀ {n m : ℕ} {a : α}, n ≤ m → Within r n a → Within r m a
  | 0, _, _, _, h => h.elim
  | n + 1, 0, _, hle, _ => by omega
  | n + 1, m + 1, _, hle, h => fun b hb => (h b hb).mono (by omega)

/-- It says of chains what it should. -/
theorem within_iff_chain : ∀ {n : ℕ} {a : α},
    Within r n a ↔ ∀ chain : List α, (a :: chain).IsChain r → chain.length < n
  | 0, a => ⟨fun h => h.elim, fun h => absurd (h [] (List.isChain_singleton a)) (by simp)⟩
  | n + 1, a => by
    constructor
    · intro h chain hchain
      cases chain with
      | nil => exact Nat.succ_pos n
      | cons b chain =>
        obtain ⟨hab, hrest⟩ := List.isChain_cons_cons.mp hchain
        have hlt := within_iff_chain.mp (h b hab) chain hrest
        rw [List.length_cons]
        omega
    · intro h b hab
      refine within_iff_chain.mpr fun chain hchain => ?_
      have hlt := h (b :: chain) (List.isChain_cons_cons.mpr ⟨hab, hchain⟩)
      rw [List.length_cons] at hlt
      omega

theorem Within.of_reach {n : ℕ} {a b : α} (h : Within r n a) (hb : ReflTransGen r a b) : Within r n b := by
  induction hb with
  | refl => exact h
  | @tail b c hab hbc ih =>
    cases n with
    | zero => exact h.elim
    | succ n => exact (ih c hbc).mono (Nat.le_succ n)

/-- Where each `s`-step goes along with an `r`-step. -/
theorem Within.of_simulates {β : Type*} {s : β → β → Prop} {R : α → β → Prop}
    (hstep : ∀ a b b', R a b → s b b' → ∃ a', r a a' ∧ R a' b') :
    ∀ {n : ℕ} {a : α} {b : β}, R a b → Within r n a → Within s n b
  | 0, _, _, _, h => h.elim
  | _ + 1, a, b, hab, h => fun b' hb' => by
    obtain ⟨a', ha', hab'⟩ := hstep a b b' hab hb'
    exact Within.of_simulates hstep hab' (h a' ha')

/-- From where a chain comes back there is a longer one. -/
theorem not_within_of_cycle {a : α} (h : TransGen r a a) (n : ℕ) : ¬ Within r n a := by
  induction n with
  | zero => exact id
  | succ n ih =>
    intro hw
    obtain ⟨b, hab, hba⟩ := TransGen.head'_iff.mp h
    exact ih ((hw b hab).of_reach hba)

/-- Among finitely many elements with a next one. Each step leaves one element
fewer to be reached. -/
theorem within_of_acyclic {elements : Finset α} (hfinite : ∀ a b, r a b → a ∈ elements) {a : α}
    (hacyclic : ∀ b, ReflTransGen r a b → ¬ TransGen r b b) : Within r (elements.card + 1) a := by
  classical
  let reached : α → Finset α := fun b => elements.filter (ReflTransGen r b)
  suffices hreached : ∀ n b, ReflTransGen r a b → (reached b).card ≤ n → Within r (n + 1) b from
    hreached _ a .refl (Finset.card_filter_le _ _)
  intro n
  induction n with
  | zero =>
    intro b hab hcard c hbc
    have hmem : b ∈ reached b := Finset.mem_filter.mpr ⟨hfinite b c hbc, .refl⟩
    have hpos := Finset.card_pos.mpr ⟨b, hmem⟩
    omega
  | succ n ih =>
    intro b hab hcard c hbc
    have hfewer : reached c ⊂ reached b := by
      refine Finset.ssubset_iff_subset_ne.mpr ⟨fun d hd => ?_, fun heq => ?_⟩
      · obtain ⟨hmem, hcd⟩ := Finset.mem_filter.mp hd
        exact Finset.mem_filter.mpr ⟨hmem, hcd.head hbc⟩
      · have hmem : b ∈ reached c := heq ▸ Finset.mem_filter.mpr ⟨hfinite b c hbc, .refl⟩
        exact hacyclic b hab (TransGen.head' hbc (Finset.mem_filter.mp hmem).2)
    have hlt := Finset.card_lt_card hfewer
    exact ih c (hab.tail hbc) (by omega)

/-- A step goes to a higher level or is one of `s`, and from level `k` there is
none: the chain has at most `w` elements on each level below, and one on this. -/
theorem within_of_levels {level : α → ℕ} {k w : ℕ} (hstop : ∀ a b, r a b → level a < k)
    (hstep : ∀ a b, r a b → level a < level b ∨ level b = level a ∧ s a b) {a : α}
    (hs : ∀ b, ReflTransGen r a b → Within s w b) : Within r ((k - level a) * w + 1) a := by
  induction hj : k - level a using Nat.strong_induction_on generalizing a with
  | _ j ih =>
  -- on the level of `a`, with `n` elements left
  have hlevel : ∀ n b, ReflTransGen r a b → level b = level a → n ≤ w → Within s n b →
      Within r ((j - 1) * w + n + 1) b := by
    intro n
    induction n with
    | zero => exact fun b _ _ _ h => h.elim
    | succ n ihn =>
      intro b hab hb hn hw c hbc
      have hlt := hstop b c hbc
      rcases hstep b c hbc with hup | ⟨hsame, hsc⟩
      · have hrest := ih (k - level c) (by omega) (fun d hd => hs d ((hab.tail hbc).trans hd)) rfl
        have hle : (k - level c) * w ≤ (j - 1) * w := Nat.mul_le_mul_right w (by omega)
        exact hrest.mono (by omega)
      · exact ihn c (hab.tail hbc) (hsame.trans hb) (by omega) (hw c hsc)
  cases j with
  | zero => exact fun b hb => absurd (hstop a b hb) (by omega)
  | succ j =>
    have h := hlevel w a .refl rfl le_rfl (hs a .refl)
    rwa [Nat.add_sub_cancel, ← Nat.succ_mul] at h

/-! ### A loop whose body may fail -/

section

variable {σ β : Type*} {f : σ → β → Option σ} {I : σ → Prop} {xs : List β} {x₀ x₁ : σ}

theorem foldlM_inv (hI : ∀ x y x', y ∈ xs → I x → f x y = some x' → I x') (h₀ : I x₀)
    (h : xs.foldlM f x₀ = some x₁) : I x₁ := by
  induction xs generalizing x₀ with
  | nil =>
    cases h
    exact h₀
  | cons y xs ih =>
    rw [List.foldlM_cons] at h
    obtain ⟨x, hx, hrest⟩ := Option.bind_eq_some_iff.mp h
    exact ih (fun x y x' hy => hI x y x' (List.mem_cons_of_mem _ hy)) (hI x₀ y x List.mem_cons_self h₀ hx) hrest

/-- Where the invariant decides which bodies fail. -/
theorem foldlM_isSome_iff {P : β → Prop} (hI : ∀ x y x', y ∈ xs → I x → f x y = some x' → I x')
    (hP : ∀ x y, y ∈ xs → I x → ((f x y).isSome ↔ P y)) (h₀ : I x₀) :
    (xs.foldlM f x₀).isSome ↔ ∀ y ∈ xs, P y := by
  induction xs generalizing x₀ with
  | nil => simp [List.foldlM]
  | cons y xs ih =>
    rw [List.foldlM_cons, List.forall_mem_cons, ← hP x₀ y List.mem_cons_self h₀]
    cases hx : f x₀ y with
    | none => simp
    | some x =>
      have hrest := ih (fun x y x' hy => hI x y x' (List.mem_cons_of_mem _ hy))
        (fun x y hy => hP x y (List.mem_cons_of_mem _ hy)) (hI x₀ y x List.mem_cons_self h₀ hx)
      simpa using hrest

end

end Kit
