/-
# Runs of a system with enabled and disabled actions

`step s a` is the state after action `a`, `none` where `a` is not enabled. A
run is a list of actions. `Along P` says that every step of a run meets `P`
(a condition on the state before the step and on the action), `Throughout Q`
that `Q` holds in every state the run passes.

The rules: an invariant that every step keeps is kept by a run (`run_inv`),
and where a step keeps `Q` exactly when it meets `P`, a run keeps `Q`
throughout exactly when it meets `P` all along (`throughout_iff_along`).

A step may put something out (`out s a`); `outputs` is what a run puts out, in
order. Where every step moves `μ` by its output, as a machine `next` reads it,
so does a run (`run_outputs`); a machine that takes any input is a fold
(`run_some`).
-/
import Mathlib

namespace Kit

variable {σ α : Type*} (step : σ → α → Option σ)

/-- The state after the actions, `none` if one of them is not enabled. -/
def run : σ → List α → Option σ
  | s, [] => some s
  | s, a :: as => (step s a).bind fun s' => run s' as

/-- Every step of the run meets `P`. -/
def Along (P : σ → α → Prop) : σ → List α → Prop
  | _, [] => True
  | s, a :: as => P s a ∧
    match step s a with
    | some s' => Along P s' as
    | none => True

/-- `Q` holds in every state the run passes, its first and last included. -/
def Throughout (Q : σ → Prop) : σ → List α → Prop
  | s, [] => Q s
  | s, a :: as => Q s ∧
    match step s a with
    | some s' => Throughout Q s' as
    | none => True

variable {step}

theorem run_cons_iff {s s' : σ} {a : α} {as : List α} :
    run step s (a :: as) = some s' ↔ ∃ s1, step s a = some s1 ∧ run step s1 as = some s' :=
  Option.bind_eq_some_iff

theorem run_append (s : σ) (as bs : List α) :
    run step s (as ++ bs) = (run step s as).bind fun s' => run step s' bs := by
  induction as generalizing s with
  | nil => rfl
  | cons a as ih =>
    simp only [List.cons_append, run, Option.bind_assoc]
    exact congrArg _ (funext ih)

theorem run_concat_iff {s s' : σ} {a : α} {as : List α} :
    run step s (as ++ [a]) = some s' ↔ ∃ s1, run step s as = some s1 ∧ step s1 a = some s' := by
  rw [run_append, Option.bind_eq_some_iff]
  simp [run]

theorem along_cons {P : σ → α → Prop} {s s' : σ} {a : α} {as : List α} (h : step s a = some s') :
    Along step P s (a :: as) ↔ P s a ∧ Along step P s' as := by
  simp [Along, h]

theorem throughout_cons {Q : σ → Prop} {s s' : σ} {a : α} {as : List α} (h : step s a = some s') :
    Throughout step Q s (a :: as) ↔ Q s ∧ Throughout step Q s' as := by
  simp [Throughout, h]

theorem Throughout.head {Q : σ → Prop} {s : σ} {as : List α} (h : Throughout step Q s as) : Q s := by
  cases as with
  | nil => exact h
  | cons a as => exact h.1

theorem Throughout.last {Q : σ → Prop} {s s' : σ} {as : List α} (h : Throughout step Q s as)
    (hrun : run step s as = some s') : Q s' := by
  induction as generalizing s with
  | nil => cases hrun; exact h
  | cons a as ih =>
    obtain ⟨s1, h1, h2⟩ := run_cons_iff.mp hrun
    exact ih ((throughout_cons h1).mp h).2 h2

theorem along_append {P : σ → α → Prop} {s s1 : σ} {as bs : List α}
    (hrun : run step s as = some s1) :
    Along step P s (as ++ bs) ↔ Along step P s as ∧ Along step P s1 bs := by
  induction as generalizing s with
  | nil =>
    cases hrun
    simp [Along]
  | cons a as ih =>
    obtain ⟨s2, h1, h2⟩ := run_cons_iff.mp hrun
    rw [List.cons_append, along_cons h1, along_cons h1, ih h2, and_assoc]

theorem along_of_forall {P : σ → α → Prop} {s : σ} {as : List α} (h : ∀ s, ∀ a ∈ as, P s a) :
    Along step P s as := by
  induction as generalizing s with
  | nil => trivial
  | cons a as ih =>
    refine ⟨h s a List.mem_cons_self, ?_⟩
    split
    · exact ih fun s a ha => h s a (List.mem_cons_of_mem _ ha)
    · trivial

theorem Along.and {P P' : σ → α → Prop} {s : σ} {as : List α} (h : Along step P s as)
    (h' : Along step P' s as) : Along step (fun s a => P s a ∧ P' s a) s as := by
  induction as generalizing s with
  | nil => trivial
  | cons a as ih =>
    obtain ⟨ha, has⟩ := h
    obtain ⟨ha', has'⟩ := h'
    refine ⟨⟨ha, ha'⟩, ?_⟩
    split <;> rename_i hs <;> rw [hs] at has has'
    · exact ih has has'
    · trivial

/-- What the states of a run that meets `P` all along give of its steps. -/
theorem along_mono {I : σ → Prop} {P P' : σ → α → Prop}
    (hI : ∀ s a s', I s → P s a → step s a = some s' → I s') (hP : ∀ s a, I s → P s a → P' s a)
    {s : σ} {as : List α} (h0 : I s) (h : Along step P s as) : Along step P' s as := by
  induction as generalizing s with
  | nil => trivial
  | cons a as ih =>
    obtain ⟨ha, has⟩ := h
    refine ⟨hP s a h0 ha, ?_⟩
    cases hs : step s a with
    | none => trivial
    | some s' =>
      rw [hs] at has
      exact ih (hI s a s' h0 ha hs) has

/-- What holds throughout holds after every step. -/
theorem Throughout.along {Q : σ → Prop} {s : σ} {as : List α} (h : Throughout step Q s as) :
    Along step (fun s a => ∀ s', step s a = some s' → Q s') s as := by
  induction as generalizing s with
  | nil => trivial
  | cons a as ih =>
    have h2 := h.2
    cases hs : step s a with
    | none => simp [Along, hs]
    | some s' =>
      rw [hs] at h2
      rw [along_cons hs]
      refine ⟨fun s'' h'' => ?_, ih h2⟩
      cases hs.symm.trans h''
      exact h2.head

instance Along.decidable {P : σ → α → Prop} [∀ s a, Decidable (P s a)] :
    ∀ s as, Decidable (Along step P s as)
  | _, [] => inferInstanceAs (Decidable True)
  | s, a :: as =>
    match h : step s a with
    | some s' =>
      have := Along.decidable (P := P) s' as
      decidable_of_iff (P s a ∧ Along step P s' as) (along_cons h).symm
    | none => decidable_of_iff (P s a) (by simp [Along, h])

instance Throughout.decidable {Q : σ → Prop} [DecidablePred Q] :
    ∀ s as, Decidable (Throughout step Q s as)
  | s, [] => inferInstanceAs (Decidable (Q s))
  | s, a :: as =>
    match h : step s a with
    | some s' =>
      have := Throughout.decidable (Q := Q) s' as
      decidable_of_iff (Q s ∧ Throughout step Q s' as) (throughout_cons h).symm
    | none => decidable_of_iff (Q s) (by simp [Throughout, h])

/-- What every step that meets `P` keeps, a run that meets `P` all along keeps. -/
theorem run_inv {I : σ → Prop} {P : σ → α → Prop}
    (hstep : ∀ s a s', I s → P s a → step s a = some s' → I s') {s s' : σ} {as : List α}
    (hI : I s) (hP : Along step P s as) (hrun : run step s as = some s') : I s' := by
  induction as generalizing s with
  | nil => cases hrun; exact hI
  | cons a as ih =>
    obtain ⟨s1, h1, h2⟩ := run_cons_iff.mp hrun
    obtain ⟨ha, has⟩ := (along_cons h1).mp hP
    exact ih (hstep s a s1 hI ha h1) has h2

/-- What every step keeps, a run keeps. -/
theorem run_inv' {I : σ → Prop} (hstep : ∀ s a s', I s → step s a = some s' → I s') {s s' : σ}
    {as : List α} (hI : I s) (hrun : run step s as = some s') : I s' :=
  run_inv (P := fun _ _ => True) (fun s a s' h _ => hstep s a s' h) hI
    (along_of_forall fun _ _ _ => trivial) hrun

/-- What every step by an action of `A` keeps, a run of such actions keeps. -/
theorem run_inv_of {A : α → Prop} {I : σ → Prop}
    (hstep : ∀ s a s', I s → A a → step s a = some s' → I s') {s s' : σ} {as : List α}
    (hI : I s) (hA : ∀ a ∈ as, A a) (hrun : run step s as = some s') : I s' :=
  run_inv (P := fun _ a => A a) hstep hI (along_of_forall fun _ a ha => hA a ha) hrun

/-- Where every step by an action of `b` brings `μ` down, a run has at most `μ`
of them. -/
theorem run_countP_le {I : σ → Prop} {P : σ → α → Prop} {b : α → Bool} {μ : σ → ℕ}
    (hI : ∀ s a s', I s → P s a → step s a = some s' → I s')
    (hμ : ∀ s a s', I s → P s a → step s a = some s' → μ s' + (if b a then 1 else 0) ≤ μ s)
    {s s' : σ} {as : List α} (h0 : I s) (hP : Along step P s as) (hrun : run step s as = some s') :
    μ s' + as.countP b ≤ μ s := by
  induction as generalizing s with
  | nil =>
    cases hrun
    exact le_rfl
  | cons a as ih =>
    obtain ⟨s1, h1, h2⟩ := run_cons_iff.mp hrun
    obtain ⟨ha, has⟩ := (along_cons h1).mp hP
    have hfirst := hμ s a s1 h0 ha h1
    have hrest := ih (hI s a s1 h0 ha h1) has h2
    rw [List.countP_cons]
    omega

/-- What every step keeps between the state and the number of actions of `b` so
far. -/
theorem run_countP_inv {b : α → Bool} {R : σ → ℕ → Prop}
    (hR : ∀ s n a s', R s n → step s a = some s' → R s' (n + if b a then 1 else 0)) {s s' : σ} {n : ℕ}
    {as : List α} (h0 : R s n) (hrun : run step s as = some s') : R s' (n + as.countP b) := by
  induction as generalizing s n with
  | nil =>
    cases hrun
    exact h0
  | cons a as ih =>
    obtain ⟨s1, h1, h2⟩ := run_cons_iff.mp hrun
    have hrest := ih (hR s n a s1 h0 h1) h2
    rwa [List.countP_cons, Nat.add_comm (as.countP b), ← Nat.add_assoc]

/-- Where a step by an action of `A` keeps `Q` exactly when it meets `P`, a run
of such actions that starts with `Q` keeps it throughout exactly when it meets
`P` all along. -/
theorem throughout_iff_along {A : α → Prop} {I Q : σ → Prop} {P : σ → α → Prop}
    (hI : ∀ s a s', I s → step s a = some s' → I s')
    (hQ : ∀ s a s', I s → Q s → A a → step s a = some s' → (Q s' ↔ P s a)) {s s' : σ} {as : List α}
    (h0 : I s) (hq : Q s) (hA : ∀ a ∈ as, A a) (hrun : run step s as = some s') :
    Throughout step Q s as ↔ Along step P s as := by
  induction as generalizing s with
  | nil => exact ⟨fun _ => trivial, fun _ => hq⟩
  | cons a as ih =>
    obtain ⟨s1, h1, h2⟩ := run_cons_iff.mp hrun
    obtain ⟨ha, has⟩ := List.forall_mem_cons.mp hA
    rw [throughout_cons h1, along_cons h1]
    have hqp := hQ s a s1 h0 hq ha h1
    constructor
    · rintro ⟨-, h⟩
      exact ⟨hqp.mp h.head, (ih (hI s a s1 h0 h1) h.head has h2).mp h⟩
    · rintro ⟨hp, h⟩
      exact ⟨hq, (ih (hI s a s1 h0 h1) (hqp.mpr hp) has h2).mpr h⟩

/-- Two conditions that agree on the steps of a run. -/
theorem along_congr {I : σ → Prop} {P P' : σ → α → Prop}
    (hI : ∀ s a s', I s → step s a = some s' → I s')
    (hP : ∀ s a s', I s → step s a = some s' → (P s a ↔ P' s a)) {s s' : σ} {as : List α}
    (h0 : I s) (hrun : run step s as = some s') : Along step P s as ↔ Along step P' s as := by
  induction as generalizing s with
  | nil => exact Iff.rfl
  | cons a as ih =>
    obtain ⟨s1, h1, h2⟩ := run_cons_iff.mp hrun
    rw [along_cons h1, along_cons h1, hP s a s1 h0 h1, ih (hI s a s1 h0 h1) h2]

/-! ### Outputs -/

variable {β γ : Type*}

variable (step) in
/-- What the run puts out. -/
def outputs (out : σ → α → List β) : σ → List α → List β
  | _, [] => []
  | s, a :: as => out s a ++
    match step s a with
    | some s' => outputs out s' as
    | none => []

theorem outputs_cons {out : σ → α → List β} {s s' : σ} {a : α} {as : List α} (h : step s a = some s') :
    outputs step out s (a :: as) = out s a ++ outputs step out s' as := by
  simp [outputs, h]

theorem outputs_append {out : σ → α → List β} {s s1 : σ} {as bs : List α}
    (hrun : run step s as = some s1) :
    outputs step out s (as ++ bs) = outputs step out s as ++ outputs step out s1 bs := by
  induction as generalizing s with
  | nil =>
    cases hrun
    rfl
  | cons a as ih =>
    obtain ⟨s2, h1, h2⟩ := run_cons_iff.mp hrun
    rw [List.cons_append, outputs_cons h1, outputs_cons h1, ih h2, List.append_assoc]

/-- An output comes from an action of the run. -/
theorem exists_of_mem_outputs {out : σ → α → List β} {b : β} {s : σ} {as : List α}
    (h : b ∈ outputs step out s as) : ∃ s' a, a ∈ as ∧ b ∈ out s' a := by
  induction as generalizing s with
  | nil => cases h
  | cons a as ih =>
    rw [outputs, List.mem_append] at h
    rcases h with h | h
    · exact ⟨s, a, List.mem_cons_self, h⟩
    · cases hs : step s a with
      | none =>
        rw [hs] at h
        cases h
      | some s1 =>
        rw [hs] at h
        obtain ⟨s', a', ha', hb⟩ := ih h
        exact ⟨s', a', List.mem_cons_of_mem a ha', hb⟩

theorem run_some {f : γ → β → γ} (c : γ) (bs : List β) :
    run (fun c b => some (f c b)) c bs = some (bs.foldl f c) := by
  induction bs generalizing c with
  | nil => rfl
  | cons b bs ih => exact ih (f c b)

theorem forall_mem_outputs {out : σ → α → List β} {P : β → Prop} (h : ∀ s a, ∀ b ∈ out s a, P b)
    {s : σ} {as : List α} : ∀ b ∈ outputs step out s as, P b := by
  intro b hb
  obtain ⟨s', a, -, hba⟩ := exists_of_mem_outputs hb
  exact h s' a b hba

/-- Where every step that meets `P` moves `μ` by its output, a run that meets
`P` all along does. -/
theorem run_outputs {next : γ → β → Option γ} {μ : σ → γ} {out : σ → α → List β} {I : σ → Prop}
    {P : σ → α → Prop} (hI : ∀ s a s', I s → P s a → step s a = some s' → I s')
    (hout : ∀ s a s', I s → P s a → step s a = some s' → run next (μ s) (out s a) = some (μ s'))
    {s s' : σ} {as : List α} (h0 : I s) (hP : Along step P s as) (hrun : run step s as = some s') :
    run next (μ s) (outputs step out s as) = some (μ s') := by
  induction as generalizing s with
  | nil =>
    cases hrun
    rfl
  | cons a as ih =>
    obtain ⟨s1, h1, h2⟩ := run_cons_iff.mp hrun
    obtain ⟨ha, has⟩ := (along_cons h1).mp hP
    rw [outputs_cons h1, run_append, hout s a s1 h0 ha h1]
    exact ih (hI s a s1 h0 ha h1) has h2

/-- What every step that meets `P` keeps between the state and all that has been
put out. -/
theorem run_history {out : σ → α → List β} {P : σ → α → Prop} {R : σ → List β → Prop}
    (hR : ∀ s l a s', R s l → P s a → step s a = some s' → R s' (l ++ out s a)) {s s' : σ} {l : List β}
    {as : List α} (h0 : R s l) (hP : Along step P s as) (hrun : run step s as = some s') :
    R s' (l ++ outputs step out s as) := by
  induction as generalizing s l with
  | nil =>
    cases hrun
    rwa [outputs, List.append_nil]
  | cons a as ih =>
    obtain ⟨s1, h1, h2⟩ := run_cons_iff.mp hrun
    obtain ⟨ha, has⟩ := (along_cons h1).mp hP
    rw [outputs_cons h1, ← List.append_assoc]
    exact ih (hR s l a s1 h0 ha h1) has h2

/-- Where a step that puts out anything but `b` brings `μ` down, and no other
step raises it, `b` is one of the first `μ + 1` outputs. -/
theorem mem_take_outputs {out : σ → α → List β} {A : α → Prop} {I : σ → Prop} {μ : σ → ℕ} {b : β}
    (hstep : ∀ s a, I s → A a → ∃ s', step s a = some s' ∧
      (out s a = [] ∧ I s' ∧ μ s' ≤ μ s ∨ out s a = [b] ∨ ∃ c, out s a = [c] ∧ I s' ∧ μ s' < μ s))
    {s : σ} {as : List α} (hI : I s) (hA : ∀ a ∈ as, A a) {k : ℕ} (hk : μ s < k)
    (hlen : k ≤ (outputs step out s as).length) : b ∈ (outputs step out s as).take k := by
  induction as generalizing s k with
  | nil =>
    simp [outputs] at hlen
    omega
  | cons a as ih =>
    obtain ⟨ha, has⟩ := List.forall_mem_cons.mp hA
    obtain ⟨s', hs', hcase⟩ := hstep s a hI ha
    obtain ⟨k, rfl⟩ := Nat.exists_eq_succ_of_ne_zero (by omega : k ≠ 0)
    rw [outputs_cons hs'] at hlen ⊢
    rcases hcase with ⟨hout, hI', hμ⟩ | hout | ⟨c, hout, hI', hμ⟩ <;> rw [hout] at hlen ⊢
    · exact ih hI' has (by omega) (by simpa using hlen)
    · simp
    · rw [List.singleton_append, List.take_succ_cons]
      rw [List.singleton_append, List.length_cons] at hlen
      exact List.mem_cons_of_mem _ (ih hI' has (by omega) (by omega))

/-- Where every step's output takes a machine that follows the system to one that
follows it after the step, so does a run's. -/
theorem run_follows {next : γ → β → Option γ} {out : σ → α → List β} {R : σ → γ → Prop}
    (hR : ∀ s c a s', R s c → step s a = some s' → ∃ c', run next c (out s a) = some c' ∧ R s' c')
    {s s' : σ} {c : γ} {as : List α} (h0 : R s c) (hrun : run step s as = some s') :
    ∃ c', run next c (outputs step out s as) = some c' ∧ R s' c' := by
  induction as generalizing s c with
  | nil =>
    cases hrun
    exact ⟨c, rfl, h0⟩
  | cons a as ih =>
    obtain ⟨s1, h1, h2⟩ := run_cons_iff.mp hrun
    obtain ⟨c1, hc1, hR1⟩ := hR s c a s1 h0 h1
    obtain ⟨c', hc', hR'⟩ := ih hR1 h2
    exact ⟨c', by rw [outputs_cons h1, run_append, hc1, Option.bind_some, hc'], hR'⟩

end Kit
