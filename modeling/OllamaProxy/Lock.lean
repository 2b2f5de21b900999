/-
# The lock of `pick_next_key`

Only the request that holds the lock is inside `pick_next_key`. So while no
admin operation runs, the list that a request found empty is still empty when
its reactivation runs, and no other request can make a key active in between
(`World.Guarded`).

Key definitions: `Turn.Locks`, `World.Locked`, `World.Guarded`.
Key theorems: `Move.locks`, `step_locked`, `Guarded.active_of_active`,
`Guarded.step`.
-/
import OllamaProxy.Rows

namespace OllamaProxy

open Kit

/-- Before the count, or at it. -/
def Pc.isFresh : Pc → Bool
  | .idle | .count => true
  | _ => false

namespace Turn

variable {rot : Rotation} {now : ℤ} {p : ℕ} {x x' : Turn} {ev : Event}

/-- What a move does to the lock of `pick_next_key`. -/
inductive Locks (p : ℕ) (x x' : Turn) : Prop
  | keeps (hl : x'.manager.lock = x.manager.lock)
    (hh : x'.request.pc.holdsLock = true → x.request.pc.holdsLock = true)
  | takes (hfree : x.manager.lock = none) (hl : x'.manager.lock = some p)
  | drops (hheld : x.request.pc.holdsLock = true) (hnot : x'.request.pc.holdsLock = false)

end Turn

namespace Request

theorem Rests.holdsLock {q q' : Request} (h : q.Rests q') : q'.pc.holdsLock = false := by
  rcases h.pc with hpc | ⟨answer, hpc⟩ <;> rw [hpc] <;> rfl

theorem noKey_holdsLock (q : Request) (now : ℤ) : (q.noKey now).pc.holdsLock = false := by
  rcases q.noKey_pc now with ⟨answer, h⟩ | h <;> rw [h] <;> rfl

end Request

namespace Turn

variable {rot : Rotation} {now : ℤ} {p : ℕ} {x x' : Turn} {ev : Event}

theorem Move.locks (h : Move rot now p x ev x') : Locks p x x' := by
  have hfalse : ∀ {pc : Pc}, pc.holdsLock = false → pc.holdsLock = true → x.request.pc.holdsLock = true :=
    fun hf ht => by rw [hf] at ht; cases ht
  cases h with
  | counted hpc => exact .keeps rfl (hfalse (Request.nextIteration_rests _).holdsLock)
  | quit answer hpc hev ha => exact .keeps rfl (hfalse rfl)
  | acquired hpc hlock => exact .takes hlock rfl
  | pick h =>
    have hheld := h.holdsLock
    cases h with
    | emptied hpc hempty => exact .keeps rfl fun _ => hheld
    | reactivated updateNow hpc => exact .keeps rfl fun _ => hheld
    | left answer t hpc hev ht ha => exact .drops hheld rfl
    | missed hpc hall => exact .drops hheld (Request.noKey_holdsLock _ _)
    | skipped id row m hpc hchoose hvault => exact .drops hheld (Request.returned_rests _ _).holdsLock
    | attempted id row m rawKey hpc hchoose hvault => exact .drops hheld rfl
  | slept deadline hpc => exact .keeps rfl id
  | woke deadline hpc => exact .keeps rfl (hfalse (Request.nextIteration_rests _).holdsLock)
  | answer rawKey copy hpc hkey h =>
    cases h with
    | answered u rec ret hd => exact .keeps rfl (hfalse rfl)
    | unrecorded u ret hd => exact .keeps rfl (hfalse (Request.returned_rests _ _).holdsLock)
    | unread u e hd => exact .keeps rfl (hfalse rfl)
    | hungUp written expired => exact .keeps rfl (hfalse rfl)
  | record copy hpc hkey h =>
    cases h with
    | recorded v ret t hpc' hcommit => exact .keeps rfl (hfalse rfl)
    | recordedUsage u ret t hpc' hcommit => exact .keeps rfl (hfalse (Request.returned_rests _ _).holdsLock)
    | refreshed ret row hpc' hrow => exact .keeps rfl (hfalse (Request.returned_rests _ _).holdsLock)
    | cancelled written rec ret t hpc' ht => exact .keeps rfl (hfalse rfl)
    | leaked t hev ht => exact .keeps rfl (hfalse rfl)

/-- A request counts the pool once, at its start. -/
theorem Move.not_fresh (h : Move rot now p x ev x') : x'.request.pc.isFresh = false := by
  cases h.reaches with
  | rests hpc => rcases hpc with hc | ⟨answer, hc⟩ <;> rw [hc] <;> rfl
  | waits _ hpc | loads hpc | reactivates hpc | reloads hpc | calls _ _ hpc | commits _ _ _ _ hpc
  | refreshes _ hpc => rw [hpc]; rfl

end Turn

namespace World

variable {rot : Rotation} {w w' : World} {a : Action} {id : ℕ}

/-- Only the request that `lock` names is inside `pick_next_key`. -/
def Locked (w : World) : Prop :=
  ∀ p, (w.requests p).pc.holdsLock = true → w.manager.lock = some p

theorem Locked.unique (hw : w.Locked) {p q : ℕ} (hp : (w.requests p).pc.holdsLock = true)
    (hq : (w.requests q).pc.holdsLock = true) : p = q := by
  have hlp := hw p hp
  rw [hw q hq] at hlp
  exact (Option.some.inj hlp).symm

theorem step_locked (hs : w.Sound) (hw : w.Locked) (h : w.step rot a = some w') : w'.Locked := by
  intro r hr
  cases a with
  | start p kind =>
    obtain ⟨-, rfl⟩ := step_start h
    by_cases hrp : r = p
    · subst hrp
      cases kind <;> simp [Request.start, Pc.holdsLock] at hr
    · simp only [Function.update_of_ne hrp] at hr
      exact hw r hr
  | resume p ev =>
    obtain ⟨x', hm, rfl⟩ := step_resume hs h
    by_cases hrp : r = p
    · subst hrp
      rw [put_requests_self] at hr
      cases hm.locks with
      | keeps hl hh => exact hl.trans (hw r (hh hr))
      | takes hfree hl => exact hl
      | drops hheld hnot =>
        rw [hnot] at hr
        cases hr
    · rw [put_requests_of_ne w hrp] at hr
      have hlock := hw r hr
      cases hm.locks with
      | keeps hl hh => exact hl.trans hlock
      | takes hfree hl =>
        rw [turn_manager, hlock] at hfree
        cases hfree
      | drops hheld hnot => exact absurd (hw.unique hr hheld) hrp
  | admin op => cases h; exact hw r hr
  | tick d => cases h; exact hw r hr

end World

/-! ### Runs without admin operations -/

theorem not_active_of_empty {t : KeyTable} (h : loadActive t = []) (id : ℕ) :
    ¬ HasStatus t id .active :=
  loadActive_isEmpty_iff.mp (by rw [h]; rfl) id

namespace World

variable {rot : Rotation} {w w' : World} {a : Action} {id : ℕ}

/-- What holds along a run without admin operations, the lock included. -/
structure Guarded (w : World) : Prop where
  unattended : w.Unattended
  locked : w.Locked
  emptied : ∀ p updateNow, (w.requests p).pc = .reactivate updateNow →
    ∀ id, ¬ HasStatus w.table id .active
  fresh : ∀ p, (w.requests p).pc = .count → (w.requests p).reactivated = []

/-- A key becomes active only by the reactivation of a request inside
`pick_next_key`. -/
theorem Guarded.active_of_active (hw : w.Guarded) (h : w.step rot a = some w')
    (ha : a.isAdmin = false) (hact : HasStatus w'.table id .active) :
    HasStatus w.table id .active ∨
      ∃ p updateNow, a.isTurnOf p = true ∧ (w.requests p).pc = .reactivate updateNow := by
  have hrow := step_row hw.unattended.sound h ha id
  generalize hrow' : w'.table.get? id = row' at hrow
  cases hrow with
  | keeps =>
    left
    unfold HasStatus at hact ⊢
    rw [← hrow']
    exact hact
  | reactivates p updateNow row hturn hpc hrow hcool => exact Or.inr ⟨p, updateNow, hturn, hpc⟩
  | commits p rec ret copy row hturn hpc hkey hid hrow =>
    left
    rw [← hid]
    exact hw.unattended.active p copy (by rw [hpc]; rfl) hkey

theorem Guarded.step (hw : w.Guarded) (h : w.step rot a = some w') (ha : a.isAdmin = false) :
    w'.Guarded := by
  have hs := hw.unattended.sound
  refine ⟨hw.unattended.step h ha, step_locked hs hw.locked h, ?_, ?_⟩ <;> intro r
  · intro updateNow hpc id hact
    cases step_request hs h r with
    | keeps hturn hreq =>
      rw [hreq] at hpc
      rcases hw.active_of_active h ha hact with hold | ⟨p, u, hturn', hp⟩
      · exact hw.emptied r updateNow hpc id hold
      · have hpr := hw.locked.unique (p := p) (q := r) (by rw [hp]; rfl) (by rw [hpc]; rfl)
        rw [hpr, hturn] at hturn'
        cases hturn'
    | starts kind hturn hidle htable hreq =>
      rw [hreq] at hpc
      cases kind <;> cases hpc
    | turns ev x' ha' hw' hm =>
      rw [hw', put_requests_self] at hpc
      rw [hw', put_table] at hact
      obtain ⟨-, htable, hempty⟩ := hm.of_reactivate hpc
      rw [htable] at hact
      exact not_active_of_empty hempty id hact
  · intro hpc
    cases step_request hs h r with
    | keeps hturn hreq =>
      rw [hreq] at hpc ⊢
      exact hw.fresh r hpc
    | starts kind hturn hidle htable hreq =>
      rw [hreq]
      cases kind <;> rfl
    | turns ev x' ha' hw' hm =>
      rw [hw', put_requests_self] at hpc
      have hfresh := hm.not_fresh
      rw [hpc] at hfresh
      cases hfresh

theorem init_guarded (t : KeyTable) (now : ℤ) : (init t now).Guarded where
  unattended := init_unattended t now
  locked _ h := by cases h
  emptied _ _ h := by cases h
  fresh _ h := by cases h

end World

end OllamaProxy
