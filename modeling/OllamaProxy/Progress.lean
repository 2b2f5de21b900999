/-
# Every request comes to an end

The lock of `pick_next_key` is held by the request that is inside, and by no
other (`World.Owned`). So a running request can always go on: its await can
return, or it waits for the lock and the request inside can go on. It can come
to its end without a failure or a cancellation, whatever has happened before
(`can_finish`).

And it does not go on for ever: an iteration of the loop is a bounded number of
turns, where the polls of `_wait_for_free_slot` are as far apart as its sleeps
are long. So the number of turns that a request takes in any run is bounded by
what it counted (`turns_bounded`).

Key definitions: `World.Owned`, `Request.Advances`, `Request.turnsLeft`,
`pacedStep`.
Key theorems: `step_owned`, `can_finish`, `resume_advances`, `turns_bounded`.
-/
import OllamaProxy.Lock
import OllamaProxy.EmptyPool

namespace OllamaProxy

open Kit

/-! ### The lock -/

namespace Turn

variable {rot : Rotation} {now : ℤ} {p : ℕ} {x x' : Turn} {ev : Event}

/-- What a move does to the lock and to being inside `pick_next_key`. -/
inductive Passes (p : ℕ) (x x' : Turn) : Prop
  | keeps (hl : x'.manager.lock = x.manager.lock)
    (hh : x'.request.pc.holdsLock = x.request.pc.holdsLock)
  | takes (hfree : x.manager.lock = none) (hl : x'.manager.lock = some p)
    (hin : x'.request.pc.holdsLock = true)
  | drops (hheld : x.request.pc.holdsLock = true) (hl : x'.manager.lock = none)
    (hout : x'.request.pc.holdsLock = false)

theorem PickMove.passes (h : PickMove rot now x ev x') : Passes p x x' := by
  have hheld := h.holdsLock
  cases h with
  | emptied hpc hempty => exact .keeps rfl hheld.symm
  | reactivated updateNow hpc => exact .keeps rfl hheld.symm
  | left answer t hpc hev ht ha => exact .drops hheld rfl rfl
  | missed hpc hall => exact .drops hheld rfl (Request.noKey_holdsLock _ _)
  | skipped id row m hpc hchoose hvault => exact .drops hheld rfl (Request.returned_rests _ _).holdsLock
  | attempted id row m rawKey hpc hchoose hvault => exact .drops hheld rfl rfl

theorem Move.passes (h : Move rot now p x ev x') : Passes p x x' := by
  cases h with
  | counted hpc => exact .keeps rfl (by rw [(Request.nextIteration_rests _).holdsLock, hpc]; rfl)
  | quit answer hpc hev ha =>
    rcases hpc with hpc | hpc | ⟨deadline, hpc⟩ <;> exact .keeps rfl (by rw [hpc]; rfl)
  | acquired hpc hlock => exact .takes hlock rfl rfl
  | pick h => exact h.passes
  | slept deadline hpc => exact .keeps rfl rfl
  | woke deadline hpc => exact .keeps rfl (by rw [(Request.nextIteration_rests _).holdsLock, hpc]; rfl)
  | answer rawKey copy hpc hkey h =>
    have hold : x.request.pc.holdsLock = false := by rw [hpc]; rfl
    cases h with
    | answered u rec ret hd => exact .keeps rfl hold.symm
    | unrecorded u ret hd => exact .keeps rfl ((Request.returned_rests _ _).holdsLock.trans hold.symm)
    | unread u e hd => exact .keeps rfl hold.symm
    | hungUp written expired => exact .keeps rfl hold.symm
  | record copy hpc hkey h =>
    have hold : x.request.pc.holdsLock = false := by
      cases hc : x.request.pc <;> first | rfl | (rw [hc] at hpc; cases hpc)
    cases h with
    | recorded v ret t hpc' hcommit => exact .keeps rfl hold.symm
    | recordedUsage u ret t hpc' hcommit =>
      exact .keeps rfl ((Request.returned_rests _ _).holdsLock.trans hold.symm)
    | refreshed ret row hpc' hrow => exact .keeps rfl ((Request.returned_rests _ _).holdsLock.trans hold.symm)
    | cancelled written rec ret t hpc' ht => exact .keeps rfl hold.symm
    | leaked t hev ht => exact .keeps rfl hold.symm

end Turn

namespace World

variable {rot : Rotation} {w w' : World} {a : Action} {p : ℕ}

/-- The lock is held by the request that is inside `pick_next_key`. -/
def Owned (w : World) : Prop := ∀ p, w.manager.lock = some p ↔ (w.requests p).pc.holdsLock = true

theorem init_owned (t : KeyTable) (now : ℤ) : (init t now).Owned := fun p => by
  simp [init, KeyManager.new, Request.idle, Pc.holdsLock]

theorem step_owned (hs : w.Sound) (hw : w.Owned) (h : w.step rot a = some w') : w'.Owned := by
  intro r
  cases a with
  | start p kind =>
    obtain ⟨hpc, rfl⟩ := step_start h
    by_cases hrp : r = p
    · subst hrp
      have hold := hw r
      rw [hpc] at hold
      simp only [Function.update_self]
      cases kind <;> exact hold
    · simp only [Function.update_of_ne hrp]
      exact hw r
  | resume p ev =>
    obtain ⟨x', hm, rfl⟩ := step_resume hs h
    by_cases hrp : r = p
    · subst hrp
      rw [put_requests_self, put_manager]
      cases hm.passes with
      | keeps hl hh =>
        rw [hl, hh]
        exact hw r
      | takes hfree hl hin => exact iff_of_true hl hin
      | drops hheld hl hout => exact iff_of_false (by rw [hl]; nofun) (by rw [hout]; nofun)
    · rw [put_requests_of_ne w hrp, put_manager]
      cases hm.passes with
      | keeps hl hh =>
        rw [hl]
        exact hw r
      | takes hfree hl hin =>
        have hfree' : w.manager.lock ≠ some r := by
          rw [show w.manager.lock = none from hfree]
          nofun
        rw [hl, ← hw r]
        exact iff_of_false (fun he => hrp (Option.some.inj he).symm) hfree'
      | drops hheld hl hout =>
        have hp : w.manager.lock = some p := (hw p).mpr hheld
        rw [hl, ← hw r, hp]
        exact iff_of_false (by nofun) fun he => hrp (Option.some.inj he).symm
  | admin op =>
    cases h
    exact hw r
  | tick d =>
    cases h
    exact hw r

/-- What every reachable world has. -/
structure Regular (w : World) : Prop where
  sound : w.Sound
  owned : w.Owned
  candid : ∀ p, (w.requests p).Candid

theorem init_regular (t : KeyTable) (now : ℤ) : (init t now).Regular :=
  ⟨init_sound t now, init_owned t now, fun _ => .idle⟩

theorem Regular.step (hw : w.Regular) (h : w.step rot a = some w') : w'.Regular :=
  ⟨step_sound hw.sound h, step_owned hw.sound hw.owned h, step_candid hw.sound hw.candid h⟩

theorem run_regular {t : KeyTable} {now : ℤ} {as : List Action} (h : run (step rot) (init t now) as = some w) :
    w.Regular :=
  run_inv' (fun _ _ _ => Regular.step) (init_regular t now) h

end World

/-! ### From one await to the next -/

/-- `_SATURATION_WAIT_TOTAL`. -/
def saturationWaitTotal : ℤ := seconds 10

/-- `_SATURATION_BACKOFF`, 0.01 seconds. -/
def saturationBackoff : ℤ := 10000

/-- The awaits of one iteration of the loop, at time `now`. A sleep is followed by
another one only before the deadline. -/
inductive Pc.Next (now : ℤ) : Pc → Pc → Prop
  | acquired : Next now .lock .load
  | emptied : Next now .load (.reactivate now)
  | reactivated (updateNow : ℤ) : Next now (.reactivate updateNow) .reload
  | missed {pc : Pc} (h : pc.holdsLock = true) : Next now pc (.wait (now + saturationWaitTotal))
  | attempted {pc : Pc} (h : pc.holdsLock = true) (rawKey : String) : Next now pc (.upstream rawKey)
  | slept {deadline : ℤ} (h : now < deadline) : Next now (.wait deadline) (.wait deadline)
  | answered (rawKey : String) (rec : Recorder) (ret : Return) : Next now (.upstream rawKey) (.commit rec ret)
  | recorded (rec : Recorder) (ret : Return) : Next now (.commit rec ret) (.refresh ret)

namespace Request

/-- How a turn takes a request on: to its end, to the next iteration, or to the
next await of this one. -/
inductive Advances (now : ℤ) (q q' : Request) : Prop
  | ends (answer : Answer) (hpc : q'.pc = .done answer)
  | loops (hpc : q'.pc = .lock) (hleft : q'.left + 1 = q.left)
  | goesOn (hleft : q'.left = q.left) (hpc : Pc.Next now q.pc q'.pc)

variable {now : ℤ} {q q' : Request}

/-- What it does depends on the iterations that are left, not on the rest. -/
theorem Advances.of_left {r : Request} (h : Advances now r q') (hleft : r.left = q.left) (hpc : r.pc = q.pc) :
    Advances now q q' := by
  cases h with
  | ends answer hd => exact .ends answer hd
  | loops hd hl => exact .loops hd (hl.trans hleft)
  | goesOn hl hn => exact .goesOn (hl.trans hleft) (hpc ▸ hn)

theorem giveUp_advances (q : Request) : Advances now q q.giveUp := by
  obtain ⟨answer, h⟩ := q.giveUp_eq
  rw [h]
  exact .ends answer rfl

theorem nextIteration_advances (q : Request) : Advances now q q.nextIteration := by
  unfold nextIteration
  split
  · exact q.giveUp_advances
  · next left hleft => exact .loops rfl hleft.symm

theorem returned_advances (q : Request) (ret : Return) : Advances now q (q.returned ret) := by
  cases ret with
  | models ok ids => exact .ends _ rfl
  | outcome o =>
    simp only [returned]
    split
    · exact (nextIteration_advances { q with all404 := q.all404 && o.all404Hint }).of_left rfl rfl
    · split <;> exact .ends _ rfl

theorem noKey_advances (h : q.pc.holdsLock = true) : Advances now q (q.noKey now) := by
  obtain ⟨pc, heq, hpc⟩ := q.noKey_eq now
  rw [heq]
  rcases hpc with ⟨answer, rfl⟩ | rfl
  · exact .ends answer rfl
  · exact .goesOn rfl (.missed h)

/-- Neither the kind of a request nor its count changes after the count. -/
structure SameBudget (q q' : Request) : Prop where
  kind : q'.kind = q.kind
  count : q'.initialCount = q.initialCount

theorem nextIteration_sameBudget (q : Request) : q.SameBudget q.nextIteration := by
  unfold nextIteration
  split
  · obtain ⟨answer, h⟩ := q.giveUp_eq
    rw [h]
    exact ⟨rfl, rfl⟩
  · exact ⟨rfl, rfl⟩

theorem returned_sameBudget (q : Request) (ret : Return) : q.SameBudget (q.returned ret) := by
  cases ret with
  | models ok ids => exact ⟨rfl, rfl⟩
  | outcome o =>
    simp only [returned]
    split
    · have h := nextIteration_sameBudget { q with all404 := q.all404 && o.all404Hint }
      exact ⟨h.kind, h.count⟩
    · split <;> exact ⟨rfl, rfl⟩

theorem noKey_sameBudget (q : Request) (now : ℤ) : q.SameBudget (q.noKey now) := by
  obtain ⟨pc, h, -⟩ := q.noKey_eq now
  rw [h]
  exact ⟨rfl, rfl⟩

end Request

namespace Turn

variable {rot : Rotation} {now : ℤ} {p : ℕ} {x x' : Turn} {ev : Event}

theorem PickMove.advances (h : PickMove rot now x ev x') : x.request.Advances now x'.request := by
  have hheld := h.holdsLock
  cases h with
  | emptied hpc hempty => exact .goesOn rfl (hpc ▸ .emptied)
  | reactivated updateNow hpc => exact .goesOn rfl (hpc ▸ .reactivated updateNow)
  | left answer t hpc hev ht ha => exact .ends answer rfl
  | missed hpc hall => exact Request.noKey_advances hheld
  | skipped id row m hpc hchoose hvault => exact (Request.returned_advances _ _).of_left rfl rfl
  | attempted id row m rawKey hpc hchoose hvault => exact .goesOn rfl (.attempted hheld rawKey)

theorem AnswerMove.advances {copy : Copy} {rawKey : String} (hpc : x.request.pc = .upstream rawKey)
    (h : AnswerMove rot now x copy ev x') : x.request.Advances now x'.request := by
  cases h with
  | answered u rec ret hd => exact .goesOn rfl (hpc ▸ .answered rawKey rec ret)
  | unrecorded u ret hd => exact (Request.returned_advances _ _).of_left rfl rfl
  | unread u e hd => exact .ends _ rfl
  | hungUp written expired => exact .ends _ rfl

theorem RecordMove.advances {copy : Copy} (h : RecordMove x copy ev x') :
    x.request.Advances now x'.request := by
  cases h with
  | recorded v ret t hpc hcommit => exact .goesOn rfl (hpc ▸ .recorded _ ret)
  | recordedUsage u ret t hpc hcommit => exact (Request.returned_advances _ _).of_left rfl rfl
  | refreshed ret row hpc hrow => exact (Request.returned_advances _ _).of_left rfl rfl
  | cancelled written rec ret t hpc ht => exact .ends _ rfl
  | leaked t hev ht => exact .ends _ rfl

/-- A sleep that ends before the deadline, with a key in flight, is followed by
another one. -/
theorem onWait_advances {deadline : ℤ} (hpc : x.request.pc = .wait deadline)
    (h : x.onWait now deadline ev = some x') : x.request.Advances now x'.request := by
  cases ev with
  | ok =>
    simp only [onWait] at h
    cases hw : waitForFreeSlot deadline now x.manager.inFlight with
    | none =>
      rw [hw] at h
      cases h
      have hnow : now < deadline := by
        by_contra hlate
        unfold waitForFreeSlot at hw
        split_ifs at hw
      have hnext : Pc.Next now x.request.pc x.request.pc := by
        rw [hpc]
        exact .slept hnow
      exact .goesOn rfl hnext
    | some slept =>
      rw [hw] at h
      cases slept with
      | true =>
        cases h
        exact Request.nextIteration_advances _
      | false =>
        cases h
        exact Request.giveUp_advances _
  | cancel _ _ =>
    cases h
    exact .ends _ rfl
  | fail => cases h
  | answer u => cases h

/-- After the count, every turn takes a request on within what it counted. -/
theorem resume_advances (hx : x.request.Sound) (hcount : x.request.pc ≠ .count)
    (h : x.resume rot now p ev = some x') : x.request.Advances now x'.request := by
  cases resume_move hx h with
  | counted hpc => exact absurd hpc hcount
  | quit answer hpc hev ha => exact .ends answer rfl
  | acquired hpc hlock => exact .goesOn rfl (hpc ▸ .acquired)
  | pick h => exact h.advances
  | slept deadline hpc => exact onWait_advances hpc (by simpa [resume, hpc] using h)
  | woke deadline hpc => exact Request.nextIteration_advances _
  | answer rawKey copy hpc hkey h => exact h.advances hpc
  | record copy hpc hkey h => exact h.advances

theorem Move.sameBudget (h : Move rot now p x ev x') (hcount : x.request.pc ≠ .count) :
    x.request.SameBudget x'.request := by
  cases h with
  | counted hpc => exact absurd hpc hcount
  | pick h =>
    cases h with
    | missed hpc hall => exact Request.noKey_sameBudget _ _
    | skipped id row m hpc hchoose hvault =>
      have h := Request.returned_sameBudget { x.picked id row with reserved := none } x.request.undecryptable
      exact ⟨h.kind, h.count⟩
    | _ => exact ⟨rfl, rfl⟩
  | woke deadline hpc => exact Request.nextIteration_sameBudget _
  | answer rawKey copy hpc hkey h =>
    cases h with
    | unrecorded u ret hd =>
      have h := Request.returned_sameBudget { x.heard copy u with reserved := none } ret
      exact ⟨h.kind, h.count⟩
    | _ => exact ⟨rfl, rfl⟩
  | record copy hpc hkey h =>
    cases h with
    | recordedUsage u ret t hpc' hcommit =>
      have h := Request.returned_sameBudget
        { x.request with key := some { copy with row := u.touch copy.row }, reserved := none } ret
      exact ⟨h.kind, h.count⟩
    | refreshed ret row hpc' hrow =>
      have h := Request.returned_sameBudget
        { x.request with key := some ⟨copy.id, row, false⟩, reserved := none } ret
      exact ⟨h.kind, h.count⟩
    | _ => exact ⟨rfl, rfl⟩
  | _ => exact ⟨rfl, rfl⟩

end Turn

/-! ### The turns that are left -/

def Pc.isWaiting : Pc → Bool
  | .wait _ => true
  | _ => false

/-- The turns of one iteration: to the wait, and the polls of a wait. -/
def turnsPerIteration : ℕ := 1004

/-- The turns that an iteration may still take, if a wait may take `polls`. -/
def Pc.turnsLeft (polls : ℤ → ℕ) : Pc → ℕ
  | .idle | .count | .done _ => 0
  | .lock => turnsPerIteration
  | .load => 1003
  | .reactivate _ => 1002
  | .reload => 1001
  | .wait deadline => polls deadline
  | .upstream _ => 3
  | .commit _ _ => 2
  | .refresh _ => 1

theorem Pc.turnsLeft_of_holdsLock {pc : Pc} (h : pc.holdsLock = true) (polls : ℤ → ℕ) :
    1001 ≤ pc.turnsLeft polls := by
  cases pc <;> first | (cases h; done) | (simp [turnsLeft])

namespace Request

variable {now : ℤ} {q q' : Request} {polls polls' : ℤ → ℕ}

/-- The turns that the request may still take once it has counted. -/
def turnsLeft (polls : ℤ → ℕ) (q : Request) : ℕ :=
  if q.pc.isDone = true then 0 else turnsPerIteration * q.left + q.pc.turnsLeft polls

/-- Inside the loop. -/
def looping (q : Request) : Prop := q.isRunning = true ∧ q.pc ≠ .count

theorem looping.of_not_fresh (hfresh : q.pc.isFresh = false) (hdone : ¬ q.pc.isDone = true) : q.looping := by
  unfold looping isRunning
  cases hpc : q.pc with
  | idle | count =>
    rw [hpc] at hfresh
    cases hfresh
  | done answer => exact absurd (by rw [hpc]; rfl) hdone
  | _ => exact ⟨rfl, nofun⟩

theorem looping.of_holdsLock (h : q.pc.holdsLock = true) : q.looping := by
  have hdone : ¬ q.pc.isDone = true := by
    rw [(Pc.not_holdsKey_of_holdsLock h).2.2]
    nofun
  refine .of_not_fresh ?_ hdone
  cases hpc : q.pc <;> first | rfl | (rw [hpc] at h; cases h)

theorem looping.not_fresh (h : q.looping) : q.pc.isFresh = false := by
  obtain ⟨hrun, hcount⟩ := h
  cases hpc : q.pc with
  | idle => simp [isRunning, hpc] at hrun
  | count => exact absurd hpc hcount
  | _ => rfl

theorem looping.turnsLeft_pos (h : q.looping) (hpos : ∀ deadline, 1 ≤ polls deadline) :
    1 ≤ q.pc.turnsLeft polls ∧ q.pc.isDone = false := by
  obtain ⟨hrun, hcount⟩ := h
  cases hpc : q.pc with
  | idle => simp [isRunning, hpc] at hrun
  | done answer => simp [isRunning, hpc] at hrun
  | count => exact absurd hpc hcount
  | wait deadline => exact ⟨hpos deadline, rfl⟩
  | _ => exact ⟨by simp [Pc.turnsLeft, turnsPerIteration], rfl⟩

theorem Advances.turnsLeft_lt (h : Advances now q q') (hq : q.looping) (hpos : ∀ deadline, 1 ≤ polls deadline)
    (hwait : polls' (now + saturationWaitTotal) ≤ 1000)
    (hslept : ∀ deadline, q.pc = .wait deadline → q'.pc = .wait deadline → now < deadline →
      polls' deadline < polls deadline) :
    q'.turnsLeft polls' < q.turnsLeft polls := by
  obtain ⟨hrank, hnot⟩ := hq.turnsLeft_pos hpos
  have hq : q.turnsLeft polls = turnsPerIteration * q.left + q.pc.turnsLeft polls := by simp [turnsLeft, hnot]
  cases h with
  | ends answer hpc =>
    have hzero : q'.turnsLeft polls' = 0 := by simp [turnsLeft, hpc, Pc.isDone]
    omega
  | loops hpc hleft =>
    have hq' : q'.turnsLeft polls' = turnsPerIteration * q'.left + turnsPerIteration := by
      simp [turnsLeft, hpc, Pc.isDone, Pc.turnsLeft]
    rw [hq, hq', ← hleft, Nat.mul_add]
    omega
  | goesOn hleft hpc =>
    have hrest : q'.pc.turnsLeft polls' < q.pc.turnsLeft polls ∧ q'.pc.isDone = false := by
      generalize q.pc = pc at hpc hslept
      generalize q'.pc = pc' at hpc hslept
      cases hpc with
      | missed hheld =>
        have hlock := Pc.turnsLeft_of_holdsLock hheld polls
        exact ⟨lt_of_le_of_lt hwait (by omega), rfl⟩
      | attempted hheld rawKey =>
        have hlock := Pc.turnsLeft_of_holdsLock hheld polls
        exact ⟨lt_of_lt_of_le (by decide : 3 < 1001) hlock, rfl⟩
      | slept hnow => exact ⟨hslept _ rfl rfl hnow, rfl⟩
      | _ => exact ⟨by simp [Pc.turnsLeft, turnsPerIteration], rfl⟩
    have hq' : q'.turnsLeft polls' = turnsPerIteration * q'.left + q'.pc.turnsLeft polls' := by
      simp [turnsLeft, hrest.2]
    rw [hq, hq', hleft]
    omega

end Request

/-! ### A request can finish -/

/-- Awaits return, upstream calls with `u`, and time passes. -/
def Action.Calm (u : Upstream) : Action → Prop
  | .resume _ ev => ev = .ok ∨ ev = .answer u
  | .tick _ => True
  | .start _ _ | .admin _ => False

namespace Turn

variable {rot : Rotation} {now : ℤ} {p : ℕ} {x : Turn}

variable (rot now p) in
/-- Only the lock makes a running request wait for another one. -/
theorem resume_enabled (hx : x.request.Sound) (hrun : x.request.isRunning = true)
    (hlock : x.request.pc = .lock → x.manager.lock = none) (u : Upstream) :
    ∃ ev x', (ev = .ok ∨ ev = .answer u) ∧ x.resume rot now p ev = some x' := by
  have hsome : ∀ {ev}, (ev = .ok ∨ ev = .answer u) → (x.resume rot now p ev).isSome = true →
      ∃ ev x', (ev = .ok ∨ ev = .answer u) ∧ x.resume rot now p ev = some x' := fun hev h => by
    obtain ⟨x', hx'⟩ := Option.isSome_iff_exists.mp h
    exact ⟨_, x', hev, hx'⟩
  cases hpc : x.request.pc with
  | idle => simp [Request.isRunning, hpc] at hrun
  | done answer => simp [Request.isRunning, hpc] at hrun
  | lock => exact hsome (Or.inl rfl) (by simp [resume, hpc, onLock, hlock hpc])
  | load =>
    refine hsome (Or.inl rfl) ?_
    simp only [resume, hpc, onLoad]
    split <;> rfl
  | wait deadline =>
    refine hsome (Or.inl rfl) ?_
    simp only [resume, hpc, onWait]
    split <;> rfl
  | upstream rawKey =>
    refine hsome (Or.inr rfl) ?_
    simp only [resume, hpc, onUpstream]
    split <;> rfl
  | commit rec ret =>
    obtain ⟨copy, hkey, -⟩ := hx.held (by rw [hpc]; rfl)
    exact hsome (Or.inl rfl) (by simp [resume, hpc, onCommit, hkey])
  | refresh ret =>
    obtain ⟨copy, hkey, -⟩ := hx.held (by rw [hpc]; rfl)
    exact hsome (Or.inl rfl) (by simp [resume, hpc, onRefresh, hkey])
  | _ => exact hsome (Or.inl rfl) (by simp [resume, hpc, onCount, onReactivate, onReload])

end Turn

namespace World

variable {rot : Rotation} {w w' : World} {p q : ℕ} {u : Upstream}

/-- What a run of calm actions reaches. -/
def Reaches (rot : Rotation) (u : Upstream) (w w' : World) : Prop :=
  ∃ as, (∀ a ∈ as, Action.Calm u a) ∧ run (step rot) w as = some w'

theorem Reaches.refl (w : World) : Reaches rot u w w := ⟨[], by simp, rfl⟩

theorem Reaches.trans {w'' : World} (h : Reaches rot u w w') (h' : Reaches rot u w' w'') : Reaches rot u w w'' := by
  obtain ⟨as, has, hrun⟩ := h
  obtain ⟨bs, hbs, hrun'⟩ := h'
  refine ⟨as ++ bs, fun a ha => ?_, by rw [run_append, hrun]; exact hrun'⟩
  rcases List.mem_append.mp ha with ha | ha
  · exact has a ha
  · exact hbs a ha

theorem Reaches.step {a : Action} (ha : a.Calm u) (h : w.step rot a = some w') : Reaches rot u w w' :=
  ⟨[a], by simpa using ha, by simp [run, h]⟩

theorem Reaches.regular (h : Reaches rot u w w') (hw : w.Regular) : w'.Regular := by
  obtain ⟨as, -, hrun⟩ := h
  exact run_inv' (fun _ _ _ => Regular.step) hw hrun

variable (rot) in
/-- A request that is not blocked by the lock takes its turn. -/
theorem exists_turn (hw : w.Regular) (hrun : (w.requests p).isRunning = true)
    (hlock : (w.requests p).pc = .lock → w.manager.lock = none) (u : Upstream) :
    ∃ ev x', Reaches rot u w (w.put p x') ∧ Turn.Move rot w.now p (w.turn p) ev x' ∧
      (w.turn p).resume rot w.now p ev = some x' := by
  have hx : (w.turn p).request.Sound := hw.sound p
  obtain ⟨ev, x', hev, hx'⟩ := Turn.resume_enabled rot w.now p hx hrun hlock u
  have hstep : w.step rot (.resume p ev) = some (w.put p x') := by simp [step, hx']
  exact ⟨ev, x', .step (a := .resume p ev) hev hstep, Turn.resume_move (hw.sound p) hx', hx'⟩

variable (rot) in
/-- The request inside `pick_next_key` leaves it. The induction is on the turns
that it has left. -/
theorem exists_unlocked (u : Upstream) : ∀ (n : ℕ) {w : World}, w.Regular →
    w.manager.lock = some q → (w.requests q).turnsLeft (fun _ => 1) ≤ n →
      ∃ w', Reaches rot u w w' ∧ w'.manager.lock = none ∧ ∀ p, p ≠ q → w'.requests p = w.requests p
  | n, w, hw, hlock, hn => by
    have hheld : (w.requests q).pc.holdsLock = true := (hw.owned q).mp hlock
    have hloop : (w.requests q).looping := .of_holdsLock hheld
    obtain ⟨ev, x', hreach, hm, hx'⟩ := exists_turn rot hw hloop.1
      (fun hpc => by rw [hpc] at hheld; cases hheld) u
    have hlt : x'.request.turnsLeft (fun _ => 1) < (w.requests q).turnsLeft (fun _ => 1) := by
      refine (Turn.resume_advances (hw.sound q) hloop.2 hx').turnsLeft_lt hloop (fun _ => le_rfl) (by decide) ?_
      intro deadline hpc
      rw [turn_request] at hpc
      rw [hpc] at hheld
      cases hheld
    have hothers : ∀ p, p ≠ q → (w.put q x').requests p = w.requests p := fun p hp => put_requests_of_ne w hp x'
    cases n with
    | zero => omega
    | succ n =>
      cases hm.passes with
      | drops _ hl hout => exact ⟨_, hreach, hl, hothers⟩
      | takes hfree hl hin =>
        rw [turn_manager, hlock] at hfree
        cases hfree
      | keeps hl hh =>
        obtain ⟨w', hreach', hnone, hrest⟩ := exists_unlocked u n (hreach.regular hw)
          (hl.trans hlock) (by rw [put_requests_self]; omega)
        exact ⟨w', hreach.trans hreach', hnone, fun p hp => (hrest p hp).trans (hothers p hp)⟩

variable (rot) in
/-- A running request gets to where its turn takes it on: the lock is free, and
its wait is over. -/
theorem exists_ready (hw : w.Regular) (u : Upstream) (p : ℕ) :
    ∃ w', Reaches rot u w w' ∧ w'.requests p = w.requests p ∧
      ((w'.requests p).pc = .lock → w'.manager.lock = none) ∧
      ∀ deadline, (w'.requests p).pc = .wait deadline → deadline ≤ w'.now := by
  have hstay : ((w.requests p).pc = .lock → w.manager.lock = none) → (∀ deadline, (w.requests p).pc ≠ .wait deadline) →
      ∃ w', Reaches rot u w w' ∧ w'.requests p = w.requests p ∧
        ((w'.requests p).pc = .lock → w'.manager.lock = none) ∧
        ∀ deadline, (w'.requests p).pc = .wait deadline → deadline ≤ w'.now :=
    fun hlock hwait => ⟨w, .refl w, rfl, hlock, fun deadline h => absurd h (hwait deadline)⟩
  cases hpc : (w.requests p).pc with
  | lock =>
    cases hlock : w.manager.lock with
    | none => exact hstay (fun _ => hlock) (by rw [hpc]; nofun)
    | some q =>
      have hne : p ≠ q := by
        rintro rfl
        have hheld := (hw.owned p).mp hlock
        rw [hpc] at hheld
        cases hheld
      obtain ⟨w', hreach, hnone, hrest⟩ := exists_unlocked rot u _ hw hlock le_rfl
      refine ⟨w', hreach, hrest p hne, fun _ => hnone, fun _ h => ?_⟩
      rw [hrest p hne, hpc] at h
      cases h
  | wait deadline =>
    refine ⟨{ w with now := w.now + (deadline - w.now).toNat }, .step (a := .tick _) trivial rfl, rfl, ?_, ?_⟩
    · intro h
      rw [show _ = Pc.wait deadline from hpc] at h
      cases h
    · intro deadline' h
      rw [show _ = Pc.wait deadline from hpc] at h
      cases h
      show deadline ≤ w.now + (deadline - w.now).toNat
      omega
  | _ => exact hstay (by rw [hpc]; nofun) (by rw [hpc]; nofun)

variable (rot) in
theorem finishes (u : Upstream) : ∀ (n : ℕ) {w : World}, w.Regular → (w.requests p).looping →
    (w.requests p).turnsLeft (fun _ => 1) ≤ n →
      ∃ w', Reaches rot u w w' ∧ (w'.requests p).pc.isDone = true
  | n, w, hw, hloop, hn => by
    obtain ⟨w1, hreach1, hsame, hlock, hwait⟩ := exists_ready rot hw u p
    have hw1 := hreach1.regular hw
    have hloop1 : (w1.requests p).looping := by rwa [hsame]
    obtain ⟨ev, x', hreach2, hm, hx'⟩ := exists_turn rot hw1 hloop1.1 hlock u
    have hlt : x'.request.turnsLeft (fun _ => 1) < (w1.requests p).turnsLeft (fun _ => 1) := by
      refine (Turn.resume_advances (hw1.sound p) hloop1.2 hx').turnsLeft_lt hloop1 (fun _ => le_rfl) (by decide) ?_
      intro deadline hpc _ hnow
      have := hwait deadline hpc
      omega
    rw [hsame] at hlt
    have hreach := hreach1.trans hreach2
    by_cases hdone : x'.request.pc.isDone = true
    · exact ⟨_, hreach, by rwa [put_requests_self]⟩
    cases n with
    | zero => omega
    | succ n =>
      have hloop' : ((w1.put p x').requests p).looping := by
        rw [put_requests_self]
        exact .of_not_fresh hm.not_fresh hdone
      obtain ⟨w', hreach', hend⟩ := finishes u n (hreach.regular hw) hloop' (by rw [put_requests_self]; omega)
      exact ⟨w', hreach.trans hreach', hend⟩

/-- **A running request can finish**, whatever has happened before: without a
failure or a cancellation, and whatever answer its upstream calls get. -/
theorem can_finish {t : KeyTable} {now : ℤ} {as : List Action} (h : run (step rot) (init t now) as = some w)
    (hrun : (w.requests p).isRunning = true) (u : Upstream) :
    ∃ bs w', (∀ b ∈ bs, Action.Calm u b) ∧ run (step rot) w bs = some w' ∧ (w'.requests p).pc.isDone = true := by
  have hw := run_regular h
  have hend : ∃ w', Reaches rot u w w' ∧ (w'.requests p).pc.isDone = true := by
    by_cases hcount : (w.requests p).pc = .count
    · obtain ⟨ev, x', hreach, hm, -⟩ := exists_turn rot hw hrun (fun hpc => by rw [hcount] at hpc; cases hpc) u
      by_cases hdone : x'.request.pc.isDone = true
      · exact ⟨_, hreach, by rwa [put_requests_self]⟩
      · have hloop : ((w.put p x').requests p).looping := by
          rw [put_requests_self]
          exact .of_not_fresh hm.not_fresh hdone
        obtain ⟨w', hreach', hend⟩ := finishes rot u _ (hreach.regular hw) hloop le_rfl
        exact ⟨w', hreach.trans hreach', hend⟩
    · exact finishes rot u _ hw ⟨hrun, hcount⟩ le_rfl
  obtain ⟨w', ⟨bs, hbs, hrun'⟩, hdone⟩ := hend
  exact ⟨bs, w', hbs, hrun', hdone⟩

/-- Request 1 waits for the lock, which request 0 holds. -/
def locked : List Action := [.start 0 Sample.chat, .start 1 Sample.chat] ++ Sample.oks 0 2 ++ Sample.oks 1 1

theorem can_finish_locked :
    ∃ w, run (step Sample.rotation) (init Sample.pool 0) locked = some w ∧ w.manager.lock = some 0 ∧
      (w.requests 1).pc = .lock ∧
      ∃ bs w', (∀ b ∈ bs, Action.Calm (Sample.reply 500) b) ∧ run (step Sample.rotation) w bs = some w' ∧
        (w'.requests 1).pc.isDone = true := by
  let w := (run (step Sample.rotation) (init Sample.pool 0) locked).get (by decide)
  have hrun : run (step Sample.rotation) (init Sample.pool 0) locked = some w := (Option.some_get _).symm
  exact ⟨w, hrun, by decide, rfl, can_finish hrun (by decide) (Sample.reply 500)⟩

end World

/-! ### How many turns and calls a request takes -/

namespace Request

variable {rot : Rotation} {now : ℤ} {q q' : Request}

/-- The iterations of a request that has counted; a model list goes through
`pick_next_key` once. -/
def iterations (rot : Rotation) (q : Request) : ℕ :=
  match q.kind with
  | .chat _ _ => maxIter rot q.initialCount
  | .models => 1

theorem SameBudget.iterations (h : SameBudget q q') : q'.iterations rot = q.iterations rot := by
  unfold Request.iterations
  rw [h.kind, h.count]

/-- The polls that a wait may still take, if the last turn was at `last` and no
sleep is shorter than it should be. -/
def pollsLeft (last deadline : ℤ) : ℕ := max 1 ((deadline - last + saturationBackoff - 1) / saturationBackoff).toNat

theorem pollsLeft_pos (last deadline : ℤ) : 1 ≤ pollsLeft last deadline := le_max_left _ _

theorem pollsLeft_start (now : ℤ) : pollsLeft now (now + saturationWaitTotal) ≤ 1000 := by
  have hpolls : (now + saturationWaitTotal - now + saturationBackoff - 1) / saturationBackoff = 1000 := by
    rw [show now + saturationWaitTotal - now = saturationWaitTotal by omega]
    decide
  rw [pollsLeft, hpolls]
  decide

/-- A sleep that ends before the deadline was one of them. -/
theorem pollsLeft_lt {last now deadline : ℤ} (hslept : last + saturationBackoff ≤ now) (hnow : now < deadline) :
    pollsLeft now deadline < pollsLeft last deadline := by
  unfold pollsLeft saturationBackoff at *
  omega

/-- The request has taken `n` turns, the last one at `last`. -/
structure Spends (rot : Rotation) (last : ℤ) (n : ℕ) (q : Request) : Prop where
  entering : q.pc.isFresh = true → n = 0
  looping : q.pc.isFresh = false →
    n + q.turnsLeft (pollsLeft last) ≤ 1 + turnsPerIteration * q.iterations rot

theorem Spends.idle (rot : Rotation) (last : ℤ) : Request.idle.Spends rot last 0 := ⟨fun _ => rfl, nofun⟩

theorem Spends.start (rot : Rotation) (last : ℤ) (kind : Kind) : (start kind).Spends rot last 0 := by
  cases kind with
  | chat requestedModel stream => exact ⟨fun _ => rfl, nofun⟩
  | models =>
    exact ⟨fun _ => rfl, fun _ =>
      (by decide : 0 + (turnsPerIteration * 0 + turnsPerIteration) ≤ 1 + turnsPerIteration * 1)⟩

end Request

namespace Turn

variable {rot : Rotation} {now : ℤ} {p : ℕ} {x x' : Turn} {ev : Event}

/-- What the count gives a chat request. -/
theorem Move.of_count (h : Move rot now p x ev x') (hpc : x.request.pc = .count) (hx : x.request.Candid) :
    x'.request.pc.isDone = true ∨ ∃ left, x'.request.pc = .lock ∧ x'.request.left = left ∧
      x'.request.iterations rot = left + 1 := by
  obtain ⟨⟨requestedModel, stream, hkind⟩, -⟩ := hx.counting hpc
  cases h with
  | counted _ =>
    unfold Request.nextIteration
    split
    · obtain ⟨answer, hg⟩ := Request.giveUp_eq { x.request with
        initialCount := countActive x.table
        left := maxIter rot (countActive x.table) }
      rw [hg]
      exact Or.inl rfl
    · next left hleft =>
      refine Or.inr ⟨left, rfl, rfl, ?_⟩
      unfold Request.iterations
      simp only [hkind]
      exact hleft
  | quit answer _ hev ha => exact Or.inl rfl
  | acquired hpc' | slept _ hpc' | woke _ hpc' | answer _ _ hpc' =>
    rw [hpc'] at hpc
    cases hpc
  | pick h =>
    have hheld := h.holdsLock
    rw [hpc] at hheld
    cases hheld
  | record copy hpc' =>
    rw [hpc] at hpc'
    cases hpc'

theorem resume_spends {last : ℤ} {n : ℕ} (hsound : x.request.Sound) (hcandid : x.request.Candid)
    (h : x.resume rot now p ev = some x') (hx : x.request.Spends rot last n)
    (hpaced : ∀ deadline, x.request.pc = .wait deadline → x'.request.pc = .wait deadline →
      last + saturationBackoff ≤ now) : x'.request.Spends rot now (n + 1) := by
  have hm := resume_move hsound h
  refine ⟨fun hfresh => absurd hfresh (by rw [hm.not_fresh]; nofun), fun _ => ?_⟩
  by_cases hcount : x.request.pc = .count
  · rw [hx.entering (by rw [hcount]; rfl)]
    rcases hm.of_count hcount hcandid with hdone | ⟨left, hlock, hleft, hiter⟩
    · have hzero : x'.request.turnsLeft (Request.pollsLeft now) = 0 := by simp [Request.turnsLeft, hdone]
      omega
    · have hturns : x'.request.turnsLeft (Request.pollsLeft now) = turnsPerIteration * (left + 1) := by
        simp [Request.turnsLeft, hlock, Pc.isDone, Pc.turnsLeft, hleft, Nat.mul_add]
      rw [hiter, hturns]
  · have hloop : x.request.looping := ⟨hm.isRunning, hcount⟩
    have hlt : x'.request.turnsLeft (Request.pollsLeft now) < x.request.turnsLeft (Request.pollsLeft last) :=
      (resume_advances hsound hcount h).turnsLeft_lt hloop (Request.pollsLeft_pos last)
        (Request.pollsLeft_start now) fun deadline hpc hpc' hnow =>
          Request.pollsLeft_lt (hpaced deadline hpc hpc') hnow
    have hold := hx.looping hloop.not_fresh
    rw [(hm.sameBudget hcount).iterations]
    omega

end Turn

/-- A sleep of request `p` that ends before its time, where `last` is the time of
the request's last turn. -/
def hurries (p : ℕ) (w : World) (last : ℤ) : Action → Bool
  | .resume q .ok => decide (q = p) && (w.requests p).pc.isWaiting && decide (w.now < last + saturationBackoff)
  | _ => false

/-- A step of a run in which no sleep of request `p` ends before its time, with
the time of the request's last turn. -/
def pacedStep (rot : Rotation) (p : ℕ) (s : World × ℤ) (a : Action) : Option (World × ℤ) :=
  if hurries p s.1 s.2 a = true then none
  else (s.1.step rot a).map fun w => (w, if a.isTurnOf p = true then s.1.now else s.2)

namespace World

variable {rot : Rotation} {w w' : World} {a : Action} {p n : ℕ} {last last' : ℤ}

theorem pacedStep_eq_some_iff :
    pacedStep rot p (w, last) a = some (w', last') ↔
      hurries p w last a = false ∧ w.step rot a = some w' ∧
        (if a.isTurnOf p = true then w.now else last) = last' := by
  unfold pacedStep
  by_cases h : hurries p w last a = true
  · simp [h]
  · simp [Bool.eq_false_iff.mpr h, Option.map_eq_some_iff]

/-- What a paced run keeps of request `p`, which has taken `n` turns. -/
structure Paced (rot : Rotation) (p : ℕ) (s : World × ℤ) (n : ℕ) : Prop where
  regular : s.1.Regular
  spends : (s.1.requests p).Spends rot s.2 n

/-- Only a sleep that returns goes on with the wait. -/
theorem not_hurried {x' : Turn} {ev : Event} {deadline : ℤ}
    (hcalm : hurries p w last (.resume p ev) = false) (h : (w.turn p).resume rot w.now p ev = some x')
    (hpc : (w.turn p).request.pc = .wait deadline) (hpc' : x'.request.pc = .wait deadline) :
    last + saturationBackoff ≤ w.now := by
  cases ev with
  | ok =>
    have hwaiting : (w.requests p).pc.isWaiting = true := by
      rw [turn_request] at hpc
      rw [hpc]
      rfl
    simpa [hurries, hwaiting] using hcalm
  | cancel written expired =>
    simp only [Turn.resume, hpc, Turn.onWait] at h
    cases h
    cases hpc'
  | fail =>
    simp only [Turn.resume, hpc, Turn.onWait] at h
    cases h
  | answer u =>
    simp only [Turn.resume, hpc, Turn.onWait] at h
    cases h

theorem pacedStep_paced (hs : Paced rot p (w, last) n) (h : pacedStep rot p (w, last) a = some (w', last')) :
    Paced rot p (w', last') (n + if a.isTurnOf p = true then 1 else 0) := by
  obtain ⟨hcalm, hstep, rfl⟩ := pacedStep_eq_some_iff.mp h
  refine ⟨hs.regular.step hstep, ?_⟩
  cases step_request hs.regular.sound hstep p with
  | keeps hturn hreq =>
    rw [hturn]
    show (w'.requests p).Spends rot last n
    rw [hreq]
    exact hs.spends
  | starts kind hturn hpc htable hreq =>
    have hn : n = 0 := hs.spends.entering (by rw [show _ = Pc.idle from hpc]; rfl)
    rw [hturn, hn]
    show (w'.requests p).Spends rot last 0
    rw [hreq]
    exact .start rot last kind
  | turns ev x' ha hw' hm =>
    subst ha
    simp only [step, Option.map_eq_some_iff] at hstep
    obtain ⟨x'', hx'', rfl⟩ := hstep
    have hturn : (Action.resume p ev).isTurnOf p = true := by simp [Action.isTurnOf]
    rw [hturn]
    show ((w.put p x'').requests p).Spends rot w.now (n + 1)
    rw [put_requests_self]
    exact Turn.resume_spends (hs.regular.sound p) (hs.regular.candid p) hx'' hs.spends
      fun deadline hpc hpc' => not_hurried hcalm hx'' hpc hpc'

/-- **The turns that a request takes are bounded by what it counted**, in every
interleaving in which no sleep of the request ends before its time. -/
theorem turns_bounded {t : KeyTable} {now : ℤ} {as : List Action}
    (h : run (pacedStep rot p) (init t now, now) as = some (w, last)) :
    as.countP (·.isTurnOf p) ≤ 1 + turnsPerIteration * (w.requests p).iterations rot := by
  have hstart : Paced rot p (init t now, now) 0 := ⟨init_regular t now, .idle rot now⟩
  have hpaced : Paced rot p (w, last) (0 + as.countP (·.isTurnOf p)) :=
    run_countP_inv (R := Paced rot p) (fun _ _ _ _ hs hstep => pacedStep_paced hs hstep) hstart h
  rw [Nat.zero_add] at hpaced
  cases hfresh : (w.requests p).pc.isFresh with
  | true => exact (hpaced.spends.entering hfresh).trans_le (Nat.zero_le _)
  | false => exact le_trans (Nat.le_add_right _ _) (hpaced.spends.looping hfresh)

/-- Request 2 finds both keys in flight, and sleeps once. -/
def saturated : List Action :=
  [.start 0 .models, .start 1 .models, .start 2 Sample.chat] ++ Sample.oks 0 2 ++ Sample.oks 1 2 ++
    Sample.oks 2 3 ++ [.tick 10000, .resume 2 .ok]

theorem turns_bounded_saturated :
    ∃ w last, run (pacedStep Sample.rotation 2) (init Sample.pool 0, 0) saturated = some (w, last) ∧
      saturated.countP (·.isTurnOf 2) = 4 ∧
      saturated.countP (·.isTurnOf 2) ≤ 1 + turnsPerIteration * (w.requests 2).iterations Sample.rotation := by
  have hsome : (run (pacedStep Sample.rotation 2) (init Sample.pool 0, 0) saturated).isSome = true := by decide
  obtain ⟨⟨w, last⟩, hrun⟩ := Option.isSome_iff_exists.mp hsome
  exact ⟨w, last, hrun, by decide, turns_bounded hrun⟩

end World

end OllamaProxy
