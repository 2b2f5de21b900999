/-
# What one turn can do

`Turn.Move` lists what a request can do between two awaits, one constructor
for each thing it can do, and `resume_move` says that it does nothing else. The
proofs about runs split on a `Move`, never on the code of a turn.

`Request.Sound` is what a request knows about its own key: while it is between
a pick and the release it has the key's copy, not expired, and the reservation;
before and after, no reservation. Every turn keeps it (`Move.sound`).

Key definitions: `Turn.Move`, `Request.Sound`, `Turn.Writes`, `Turn.Reaches`.
Key theorems: `resume_move`, `Move.sound`, `Move.reserves`, `Move.writes`,
`step_request`.
-/
import OllamaProxy.System

namespace OllamaProxy

open Kit

/-! ### Phases -/

namespace Pc

/-- Inside `pick_next_key`, with its lock. -/
def holdsLock : Pc → Bool
  | .load | .reactivate _ | .reload => true
  | _ => false

/-- Between the return of `pick_next_key` and the release. -/
def holdsKey : Pc → Bool
  | .upstream _ | .commit _ _ | .refresh _ => true
  | _ => false

/-- Inside a recorder. -/
def isRecording : Pc → Bool
  | .commit _ _ | .refresh _ => true
  | _ => false

def isDone : Pc → Bool
  | .done _ => true
  | _ => false

theorem not_holdsKey_of_holdsLock {pc : Pc} (h : pc.holdsLock = true) :
    pc.holdsKey = false ∧ pc.isRecording = false ∧ pc.isDone = false := by
  cases pc <;> first | exact ⟨rfl, rfl, rfl⟩ | cases h

theorem holdsKey_of_isRecording {pc : Pc} (h : pc.isRecording = true) : pc.holdsKey = true := by
  cases pc <;> first | rfl | cases h

end Pc

/-- The await raises. -/
def Event.interrupts : Event → Bool
  | .fail | .cancel _ _ => true
  | _ => false

/-- A request that is neither idle nor done. -/
def Request.isRunning (q : Request) : Bool :=
  match q.pc with
  | .idle | .done _ => false
  | _ => true

structure Request.Sound (q : Request) : Prop where
  held : q.pc.holdsKey = true →
    ∃ copy, q.key = some copy ∧ copy.expired = false ∧ q.reserved = some copy.id
  free : q.pc.holdsKey = false → q.pc.isDone = false → q.reserved = none

/-! ### The helpers of a turn -/

namespace Request

theorem answer?_eq_some_iff {q : Request} {answer : Answer} : q.answer? = some answer ↔ q.pc = .done answer := by
  unfold answer?
  cases q.pc <;> simp

@[simp] theorem stop_pc (q : Request) (answer : Answer) : (q.stop answer).pc = .done answer := rfl
@[simp] theorem stop_reserved (q : Request) (answer : Answer) :
    (q.stop answer).reserved = q.reserved := rfl

/-- What the loop may do to a request that holds no key: go to the lock or end
with an answer, the rest as it was but for the flag and the count. -/
structure Rests (q q' : Request) : Prop where
  pc : q'.pc = .lock ∨ ∃ answer, q'.pc = .done answer
  reserved : q'.reserved = q.reserved
  key : q'.key = q.key
  answered : q'.answered = q.answered
  reactivated : q'.reactivated = q.reactivated
  kind : q'.kind = q.kind

theorem stop_rests (q : Request) (answer : Answer) : q.Rests (q.stop answer) :=
  ⟨Or.inr ⟨_, rfl⟩, rfl, rfl, rfl, rfl, rfl⟩

theorem giveUp_eq (q : Request) : ∃ answer, q.giveUp = q.stop answer := by
  unfold giveUp
  split <;> exact ⟨_, rfl⟩

theorem giveUp_rests (q : Request) : q.Rests q.giveUp := by
  obtain ⟨answer, h⟩ := q.giveUp_eq
  rw [h]
  exact q.stop_rests answer

theorem nextIteration_rests (q : Request) : q.Rests q.nextIteration := by
  unfold nextIteration
  split
  · exact q.giveUp_rests
  · exact ⟨Or.inl rfl, rfl, rfl, rfl, rfl, rfl⟩

theorem returned_rests (q : Request) (ret : Return) : q.Rests (q.returned ret) := by
  cases ret with
  | models ok ids => exact stop_rests _ _
  | outcome o =>
    simp only [returned]
    split
    · have h := nextIteration_rests { q with all404 := q.all404 && o.all404Hint }
      exact ⟨h.pc, h.reserved, h.key, h.answered, h.reactivated, h.kind⟩
    · split
      · exact stop_rests _ _
      · exact ⟨Or.inr ⟨_, rfl⟩, rfl, rfl, rfl, rfl, rfl⟩
      · exact stop_rests _ _

/-- It is at no await at which a request holds a key. -/
theorem Rests.not_holds {q q' : Request} (h : q.Rests q') {pc : Pc} (hpc : q'.pc = pc)
    (hkey : pc.holdsKey = true) : False := by
  rw [← hpc] at hkey
  rcases h.pc with hc | ⟨answer, hc⟩ <;> rw [hc] at hkey <;> cases hkey

/-- Without a key the request is done, or waits for one. -/
theorem noKey_eq (q : Request) (now : ℤ) : ∃ pc, q.noKey now = { q with key := none, pc := pc } ∧
    ((∃ answer, pc = .done answer) ∨ pc = .wait (now + seconds 10)) := by
  unfold noKey
  simp only
  split
  · exact ⟨_, rfl, Or.inl ⟨_, rfl⟩⟩
  · split_ifs
    · obtain ⟨answer, h⟩ := giveUp_eq { q with key := none }
      exact ⟨_, h, Or.inl ⟨answer, rfl⟩⟩
    · exact ⟨_, rfl, Or.inr rfl⟩

theorem noKey_reserved (q : Request) (now : ℤ) : (q.noKey now).reserved = q.reserved := by
  obtain ⟨pc, h, -⟩ := q.noKey_eq now
  rw [h]

theorem noKey_pc (q : Request) (now : ℤ) :
    (∃ answer, (q.noKey now).pc = .done answer) ∨ (q.noKey now).pc = .wait (now + seconds 10) := by
  obtain ⟨pc, h, hpc⟩ := q.noKey_eq now
  rw [h]
  exact hpc

theorem noKey_holdsKey (q : Request) (now : ℤ) : (q.noKey now).pc.holdsKey = false := by
  rcases q.noKey_pc now with ⟨answer, h⟩ | h <;> rw [h] <;> rfl

/-- With a copy that is not expired, the `finally` block releases the key. -/
theorem release_held {q : Request} {copy : Copy} (hkey : q.key = some copy)
    (hexp : copy.expired = false) (m : KeyManager) (next : Request → Request) :
    q.release m next = (m.release copy.id, next { q with reserved := none }) := by
  simp [release, hkey, hexp]

theorem release_expired {q : Request} {copy : Copy} (hkey : q.key = some copy)
    (hexp : copy.expired = true) (m : KeyManager) (next : Request → Request) :
    q.release m next = (m, q.stop q.failed) := by
  simp [release, hkey, hexp]

theorem copyOf_id (q : Request) (id : ℕ) (row : ApiKey) : (q.copyOf id row).id = id := by
  unfold copyOf
  split
  · split_ifs with h
    · exact h.1
    · rfl
  · rfl

theorem copyOf_expired (q : Request) (id : ℕ) (row : ApiKey) :
    (q.copyOf id row).expired = false := by
  unfold copyOf
  split
  · split_ifs with h
    · exact h.2
    · rfl
  · rfl

end Request

namespace Turn

theorem release_held {x : Turn} {copy : Copy} (hkey : x.request.key = some copy)
    (hexp : copy.expired = false) (next : Request → Request) :
    x.release next = ⟨x.table, x.manager.release copy.id, next { x.request with reserved := none }⟩ := by
  simp [release, Request.release_held hkey hexp]

theorem release_expired {x : Turn} {copy : Copy} (hkey : x.request.key = some copy)
    (hexp : copy.expired = true) (next : Request → Request) :
    x.release next = ⟨x.table, x.manager, x.request.stop x.request.failed⟩ := by
  simp [release, Request.release_expired hkey hexp]

theorem dbFailed_held {x : Turn} {copy : Copy} (hkey : x.request.key = some copy) :
    x.dbFailed = ⟨x.table, x.manager, x.request.expire.stop x.request.failed⟩ := by
  have hexp : x.request.expire.key = some { copy with expired := true } := by
    simp [Request.expire, hkey]
  unfold dbFailed raised
  rw [release_expired (x := { x with request := x.request.expire }) hexp rfl]
  rfl

/-! ### Moves -/

/-- An answer that is not the verdict of the loop. -/
def Aborted (q : Request) (answer : Answer) : Prop := answer = q.failed ∨ answer = .cancelled

/-- The request has the list of active keys. -/
def Selects (x : Turn) : Prop :=
  (x.request.pc = .load ∧ loadActive x.table ≠ []) ∨ x.request.pc = .reload

/-- The table that an interrupted step of `pick_next_key` leaves. -/
def PickTable (x : Turn) (t : KeyTable) : Prop :=
  t = x.table ∨ ∃ updateNow, x.request.pc = .reactivate updateNow ∧ t = reactivateLocked x.table updateNow

/-- The step expires the copy: a commit or a refresh fails, finds no row, or is
cancelled on the way. -/
def expires (x : Turn) (copy : Copy) : Event → Bool
  | .ok =>
    match x.request.pc with
    | .commit rec _ => (rec.commit copy.id copy.row x.table).isNone
    | .refresh _ => (x.table.get? copy.id).isNone
    | _ => false
  | .fail => x.request.pc.isRecording
  | .cancel _ expired =>
    match x.request.pc with
    | .commit _ _ => expired
    | .refresh _ => true
    | _ => false
  | .answer _ => false

/-- The request once it got an upstream answer. -/
def heard (x : Turn) (copy : Copy) (u : Upstream) : Request :=
  { x.request with answered := x.request.answered ++ [(copy.id, u)] }

/-- The request once its pick returned. -/
def picked (x : Turn) (id : ℕ) (row : ApiKey) : Request :=
  { x.request with
    key := some (x.request.copyOf id row)
    anyAttempt := true }

/-- Inside `pick_next_key`, and from its return to the upstream call. -/
inductive PickMove (rot : Rotation) (now : ℤ) (x : Turn) : Event → Turn → Prop
  | emptied (hpc : x.request.pc = .load) (hempty : loadActive x.table = []) :
    PickMove rot now x .ok { x with request := { x.request with pc := .reactivate now } }
  | reactivated (updateNow : ℤ) (hpc : x.request.pc = .reactivate updateNow) :
    PickMove rot now x .ok { x with
      table := reactivateLocked x.table updateNow
      request := { x.request with
        pc := .reload
        reactivated := x.request.reactivated ++ cooledDownIds x.table updateNow } }
  | left {ev : Event} (answer : Answer) (t : KeyTable) (hpc : x.request.pc.holdsLock = true)
    (hev : ev.interrupts = true) (ht : x.PickTable t) (ha : Aborted x.request answer) :
    PickMove rot now x ev ⟨t, { x.manager with lock := none }, x.request.stop answer⟩
  | missed (hpc : x.Selects) (hall : ∀ k ∈ loadActive x.table, k.1 ∈ x.manager.inFlight) :
    PickMove rot now x .ok ⟨x.table, { x.manager with lock := none }, x.request.noKey now⟩
  | skipped (id : ℕ) (row : ApiKey) (m : KeyManager) (hpc : x.Selects)
    (hchoose : x.manager.choose (loadActive x.table) = (some (id, row), m))
    (hvault : rot.vault (x.request.copyOf id row).row.keyEncrypted = none) :
    PickMove rot now x .ok ⟨x.table, { m with lock := none, inFlight := x.manager.inFlight },
      { x.picked id row with reserved := none }.returned x.request.undecryptable⟩
  | attempted (id : ℕ) (row : ApiKey) (m : KeyManager) (rawKey : String) (hpc : x.Selects)
    (hchoose : x.manager.choose (loadActive x.table) = (some (id, row), m))
    (hvault : rot.vault (x.request.copyOf id row).row.keyEncrypted = some rawKey) :
    PickMove rot now x .ok ⟨x.table, { m with lock := none },
      { x.picked id row with reserved := some id, pc := .upstream rawKey }⟩

/-- At the upstream call. -/
inductive AnswerMove (rot : Rotation) (now : ℤ) (x : Turn) (copy : Copy) : Event → Turn → Prop
  | answered (u : Upstream) (rec : Recorder) (ret : Return)
    (hd : x.request.dispatch rot now u = .record rec ret) :
    AnswerMove rot now x copy (.answer u) { x with
      request := { x.heard copy u with pc := .commit rec ret } }
  | unrecorded (u : Upstream) (ret : Return) (hd : x.request.dispatch rot now u = .done ret) :
    AnswerMove rot now x copy (.answer u) ⟨x.table, x.manager.release copy.id,
      { x.heard copy u with reserved := none }.returned ret⟩
  | unread (u : Upstream) (e : PyError) (hd : x.request.dispatch rot now u = .raised e) :
    AnswerMove rot now x copy (.answer u) ⟨x.table, x.manager.release copy.id,
      { x.heard copy u with reserved := none }.stop x.request.failed⟩
  | hungUp (written expired : Bool) :
    AnswerMove rot now x copy (.cancel written expired) ⟨x.table, x.manager.release copy.id,
      { x.request with reserved := none }.stop .cancelled⟩

/-- Inside a recorder. -/
inductive RecordMove (x : Turn) (copy : Copy) : Event → Turn → Prop
  | recorded (v : KeyValues) (ret : Return) (t : KeyTable)
    (hpc : x.request.pc = .commit (.update v) ret)
    (hcommit : (Recorder.update v).commit copy.id copy.row x.table = some t) :
    RecordMove x copy .ok ⟨t, x.manager, { x.request with pc := .refresh ret }⟩
  | recordedUsage (u : UsageCall) (ret : Return) (t : KeyTable)
    (hpc : x.request.pc = .commit (.usage u) ret)
    (hcommit : (Recorder.usage u).commit copy.id copy.row x.table = some t) :
    RecordMove x copy .ok ⟨t, x.manager.release copy.id,
      { x.request with
        key := some { copy with row := u.touch copy.row }
        reserved := none }.returned ret⟩
  | refreshed (ret : Return) (row : ApiKey) (hpc : x.request.pc = .refresh ret)
    (hrow : x.table.get? copy.id = some row) :
    RecordMove x copy .ok ⟨x.table, x.manager.release copy.id,
      { x.request with key := some ⟨copy.id, row, false⟩, reserved := none }.returned ret⟩
  | cancelled (written : Bool) (rec : Recorder) (ret : Return) (t : KeyTable)
    (hpc : x.request.pc = .commit rec ret)
    (ht : t = x.table ∨ rec.commit copy.id copy.row x.table = some t) :
    RecordMove x copy (.cancel written false) ⟨t, x.manager.release copy.id,
      { x.request with reserved := none }.stop .cancelled⟩
  | leaked {ev : Event} (t : KeyTable) (hev : x.expires copy ev = true)
    (ht : t = x.table ∨
      ∃ rec ret, x.request.pc = .commit rec ret ∧ rec.commit copy.id copy.row x.table = some t) :
    RecordMove x copy ev ⟨t, x.manager, x.request.expire.stop x.request.failed⟩

inductive Move (rot : Rotation) (now : ℤ) (p : ℕ) (x : Turn) : Event → Turn → Prop
  | counted (hpc : x.request.pc = .count) :
    Move rot now p x .ok { x with
      request := { x.request with
        initialCount := countActive x.table
        left := maxIter rot (countActive x.table) }.nextIteration }
  | quit {ev : Event} (answer : Answer)
    (hpc : x.request.pc = .count ∨ x.request.pc = .lock ∨ ∃ deadline, x.request.pc = .wait deadline)
    (hev : ev.interrupts = true) (ha : Aborted x.request answer) :
    Move rot now p x ev { x with request := x.request.stop answer }
  | acquired (hpc : x.request.pc = .lock) (hlock : x.manager.lock = none) :
    Move rot now p x .ok { x with
      manager := { x.manager with lock := some p }
      request := { x.request with pc := .load } }
  | pick {ev : Event} {x' : Turn} (h : PickMove rot now x ev x') : Move rot now p x ev x'
  | slept (deadline : ℤ) (hpc : x.request.pc = .wait deadline) : Move rot now p x .ok x
  | woke (deadline : ℤ) (hpc : x.request.pc = .wait deadline) :
    Move rot now p x .ok { x with request := x.request.nextIteration }
  | answer {ev : Event} {x' : Turn} (rawKey : String) (copy : Copy)
    (hpc : x.request.pc = .upstream rawKey) (hkey : x.request.key = some copy)
    (h : AnswerMove rot now x copy ev x') : Move rot now p x ev x'
  | record {ev : Event} {x' : Turn} (copy : Copy) (hpc : x.request.pc.isRecording = true)
    (hkey : x.request.key = some copy) (h : RecordMove x copy ev x') : Move rot now p x ev x'

section

variable {rot : Rotation} {now : ℤ} {p : ℕ} {x x' : Turn} {ev : Event}

/-- The scan of `pick` does not look at the lock. -/
theorem choose_unlocked (m : KeyManager) (active : List (ℕ × ApiKey)) :
    { m with lock := none }.choose active =
      ((m.choose active).1, { (m.choose active).2 with lock := none }) := by
  unfold KeyManager.choose
  simp only
  cases scan active m.nextIdx m.inFlight <;> rfl

theorem pick_move (hpc : x.Selects) : PickMove rot now x .ok (x.pick rot now) := by
  unfold pick
  rw [choose_unlocked]
  rcases choose_cases x.manager (loadActive x.table) with hc | ⟨⟨id, row⟩, hmem, hfree, next, hc⟩
  · rw [hc]
    exact .missed hpc (choose_eq_none_iff.mp (congrArg Prod.fst hc))
  · rw [hc]
    cases hv : rot.vault (x.request.copyOf id row).row.keyEncrypted with
    | some rawKey =>
      simp only [hv]
      exact .attempted id row _ rawKey hpc hc hv
    | none =>
      have hrel := Request.release_held (q := { x.request with
          key := some (x.request.copyOf id row), reserved := some id, anyAttempt := true })
        rfl (x.request.copyOf_expired id row)
      simp only [hv, hrel, KeyManager.release, x.request.copyOf_id id row, Finset.erase_insert hfree]
      exact .skipped id row _ hpc hc hv

theorem onCount_move (hpc : x.request.pc = .count) (h : x.onCount rot ev = some x') :
    Move rot now p x ev x' := by
  cases ev with
  | ok => cases h; exact .counted hpc
  | fail => cases h; exact .quit _ (Or.inl hpc) rfl (Or.inl rfl)
  | cancel _ _ => cases h; exact .quit _ (Or.inl hpc) rfl (Or.inr rfl)
  | answer u => cases h

theorem onLock_move (hpc : x.request.pc = .lock) (h : x.onLock p ev = some x') :
    Move rot now p x ev x' := by
  cases ev with
  | ok =>
    simp only [onLock] at h
    split_ifs at h with hlock
    cases h
    exact .acquired hpc hlock
  | cancel _ _ => cases h; exact .quit _ (Or.inr (Or.inl hpc)) rfl (Or.inr rfl)
  | fail => cases h
  | answer u => cases h

theorem onLoad_move (hpc : x.request.pc = .load) (h : x.onLoad rot now ev = some x') :
    PickMove rot now x ev x' := by
  have hlock : x.request.pc.holdsLock = true := by rw [hpc]; rfl
  cases ev with
  | ok =>
    simp only [onLoad] at h
    split_ifs at h with hempty
    · cases h
      exact .emptied hpc (List.isEmpty_iff.mp hempty)
    · cases h
      exact pick_move (Or.inl ⟨hpc, fun he => hempty (by rw [he]; rfl)⟩)
  | fail => cases h; exact .left _ _ hlock rfl (Or.inl rfl) (Or.inl rfl)
  | cancel _ _ => cases h; exact .left _ _ hlock rfl (Or.inl rfl) (Or.inr rfl)
  | answer u => cases h

theorem onReactivate_move {updateNow : ℤ} (hpc : x.request.pc = .reactivate updateNow)
    (h : x.onReactivate updateNow ev = some x') : PickMove rot now x ev x' := by
  have hlock : x.request.pc.holdsLock = true := by rw [hpc]; rfl
  cases ev with
  | ok => cases h; exact .reactivated updateNow hpc
  | fail => cases h; exact .left _ _ hlock rfl (Or.inl rfl) (Or.inl rfl)
  | cancel written expired =>
    cases h
    refine .left _ _ hlock rfl ?_ (Or.inr rfl)
    cases written with
    | false => exact Or.inl rfl
    | true => exact Or.inr ⟨updateNow, hpc, rfl⟩
  | answer u => cases h

theorem onReload_move (hpc : x.request.pc = .reload) (h : x.onReload rot now ev = some x') :
    PickMove rot now x ev x' := by
  have hlock : x.request.pc.holdsLock = true := by rw [hpc]; rfl
  cases ev with
  | ok => cases h; exact pick_move (Or.inr hpc)
  | fail => cases h; exact .left _ _ hlock rfl (Or.inl rfl) (Or.inl rfl)
  | cancel _ _ => cases h; exact .left _ _ hlock rfl (Or.inl rfl) (Or.inr rfl)
  | answer u => cases h

/-- `slept` is true once it has slept. -/
theorem waitForFreeSlot_ne (deadline now : ℤ) (inFlight : Finset ℕ) :
    waitForFreeSlot deadline now inFlight ≠ some false := by
  unfold waitForFreeSlot
  simp only
  split_ifs <;> simp

theorem onWait_move {deadline : ℤ} (hpc : x.request.pc = .wait deadline)
    (h : x.onWait now deadline ev = some x') : Move rot now p x ev x' := by
  cases ev with
  | ok =>
    simp only [onWait] at h
    cases hw : waitForFreeSlot deadline now x.manager.inFlight with
    | none => rw [hw] at h; cases h; exact .slept deadline hpc
    | some slept =>
      cases slept with
      | true => rw [hw] at h; cases h; exact .woke deadline hpc
      | false => exact absurd hw (waitForFreeSlot_ne _ _ _)
  | cancel _ _ => cases h; exact .quit _ (Or.inr (Or.inr ⟨deadline, hpc⟩)) rfl (Or.inr rfl)
  | fail => cases h
  | answer u => cases h

variable {copy : Copy}

theorem onUpstream_move (hkey : x.request.key = some copy) (hexp : copy.expired = false)
    (h : x.onUpstream rot now ev = some x') : AnswerMove rot now x copy ev x' := by
  cases ev with
  | answer u =>
    simp only [onUpstream, hkey, Option.map_some, Option.toList_some] at h
    have hheard : x.heard copy u =
        { x.request with answered := x.request.answered ++ [(copy.id, u)] } := rfl
    rw [← hkey, ← hheard] at h
    have hd : (x.heard copy u).dispatch rot now u = x.request.dispatch rot now u := rfl
    cases hdisp : x.request.dispatch rot now u with
    | record rec ret =>
      simp only [hd, hdisp] at h
      cases h
      exact .answered u rec ret hdisp
    | done ret =>
      simp only [hd, hdisp, release_held (x := { x with request := x.heard copy u }) hkey hexp] at h
      cases h
      exact .unrecorded u ret hdisp
    | raised e =>
      simp only [hd, hdisp, raised,
        release_held (x := { x with request := x.heard copy u }) hkey hexp] at h
      cases h
      exact .unread u e hdisp
  | cancel written expired =>
    simp only [onUpstream, release_held hkey hexp] at h
    cases h
    exact .hungUp written expired
  | ok => cases h
  | fail => cases h

theorem onCommit_move {rec : Recorder} {ret : Return} (hpc : x.request.pc = .commit rec ret)
    (hkey : x.request.key = some copy) (hexp : copy.expired = false)
    (h : x.onCommit rec ret ev = some x') : RecordMove x copy ev x' := by
  cases ev with
  | ok =>
    simp only [onCommit, hkey, Option.map_some] at h
    cases hc : rec.commit copy.id copy.row x.table with
    | none =>
      rw [hc, dbFailed_held hkey] at h
      cases h
      exact .leaked _ (by simp [expires, hpc, hc]) (Or.inl rfl)
    | some t =>
      rw [hc] at h
      cases rec with
      | update v =>
        cases h
        rw [← hkey]
        exact .recorded v ret t hpc hc
      | usage u =>
        simp only at h
        rw [release_held (x := ⟨t, x.manager,
          { x.request with key := some { copy with row := u.touch copy.row } }⟩) rfl hexp] at h
        cases h
        exact .recordedUsage u ret t hpc hc
  | fail =>
    simp only [onCommit, dbFailed_held hkey] at h
    cases h
    exact .leaked _ (by simp [expires, Pc.isRecording, hpc]) (Or.inl rfl)
  | cancel written expired =>
    simp only [onCommit, hkey, Option.map_some, Option.some.injEq] at h
    obtain ⟨t, ht, hcases⟩ : ∃ t, (if written = true then
        (rec.commit copy.id copy.row x.table).getD x.table else x.table) = t ∧
        (t = x.table ∨ rec.commit copy.id copy.row x.table = some t) := by
      refine ⟨_, rfl, ?_⟩
      cases hc : rec.commit copy.id copy.row x.table <;> cases written <;> simp
    rw [ht] at h
    cases expired with
    | false =>
      rw [if_neg Bool.false_ne_true, release_held (x := ⟨t, x.manager, x.request⟩) hkey hexp] at h
      cases h
      exact .cancelled written rec ret t hpc hcases
    | true =>
      have hekey : x.request.expire.key = some { copy with expired := true } := by
        simp [Request.expire, hkey]
      rw [if_pos rfl, release_expired (x := ⟨t, x.manager, x.request.expire⟩) hekey rfl] at h
      cases h
      refine .leaked t (by simp [expires, hpc]) ?_
      exact hcases.imp id fun hc => ⟨rec, ret, hpc, hc⟩
  | answer u => cases h

theorem onRefresh_move {ret : Return} (hpc : x.request.pc = .refresh ret)
    (hkey : x.request.key = some copy) (h : x.onRefresh ret ev = some x') :
    RecordMove x copy ev x' := by
  cases ev with
  | ok =>
    simp only [onRefresh, hkey, Option.map_some] at h
    cases hr : x.table.get? copy.id with
    | none =>
      rw [hr, dbFailed_held hkey] at h
      cases h
      exact .leaked _ (by simp [expires, hpc, hr]) (Or.inl rfl)
    | some row =>
      simp only [hr] at h
      rw [release_held (x := ⟨x.table, x.manager,
        { x.request with key := some ⟨copy.id, row, false⟩ }⟩) rfl rfl] at h
      cases h
      exact .refreshed ret row hpc hr
  | fail =>
    simp only [onRefresh, dbFailed_held hkey] at h
    cases h
    exact .leaked _ (by simp [expires, Pc.isRecording, hpc]) (Or.inl rfl)
  | cancel written expired =>
    have hekey : x.request.expire.key = some { copy with expired := true } := by
      simp [Request.expire, hkey]
    simp only [onRefresh, Option.some.injEq] at h
    rw [release_expired (x := { x with request := x.request.expire }) hekey rfl] at h
    cases h
    exact .leaked _ (by simp [expires, hpc]) (Or.inl rfl)
  | answer u => cases h

theorem resume_move (hx : x.request.Sound) (h : x.resume rot now p ev = some x') :
    Move rot now p x ev x' := by
  unfold resume at h
  cases hpc : x.request.pc with
  | idle => simp [hpc] at h
  | done answer => simp [hpc] at h
  | count => exact onCount_move hpc (by simpa [hpc] using h)
  | lock => exact onLock_move hpc (by simpa [hpc] using h)
  | load => exact .pick (onLoad_move hpc (by simpa [hpc] using h))
  | reactivate updateNow => exact .pick (onReactivate_move hpc (by simpa [hpc] using h))
  | reload => exact .pick (onReload_move hpc (by simpa [hpc] using h))
  | wait deadline => exact onWait_move hpc (by simpa [hpc] using h)
  | upstream rawKey =>
    obtain ⟨copy, hkey, hexp, -⟩ := hx.held (by rw [hpc]; rfl)
    exact .answer rawKey copy hpc hkey (onUpstream_move hkey hexp (by simpa [hpc] using h))
  | commit rec ret =>
    obtain ⟨copy, hkey, hexp, -⟩ := hx.held (by rw [hpc]; rfl)
    exact .record copy (by rw [hpc]; rfl) hkey (onCommit_move hpc hkey hexp (by simpa [hpc] using h))
  | refresh ret =>
    obtain ⟨copy, hkey, hexp, -⟩ := hx.held (by rw [hpc]; rfl)
    exact .record copy (by rw [hpc]; rfl) hkey (onRefresh_move hpc hkey (by simpa [hpc] using h))

/-! ### The moves of a phase -/

theorem Selects.holdsLock (h : x.Selects) : x.request.pc.holdsLock = true := by
  rcases h with ⟨h, -⟩ | h <;> rw [h] <;> rfl

theorem PickMove.holdsLock (h : PickMove rot now x ev x') : x.request.pc.holdsLock = true := by
  cases h with
  | emptied hpc hempty => rw [hpc]; rfl
  | reactivated updateNow hpc => rw [hpc]; rfl
  | left answer t hpc hev ht ha => exact hpc
  | missed hpc hall => exact hpc.holdsLock
  | skipped id row m hpc hchoose hvault => exact hpc.holdsLock
  | attempted id row m rawKey hpc hchoose hvault => exact hpc.holdsLock

theorem Move.of_isRecording (h : Move rot now p x ev x') (hx : x.request.pc.isRecording = true) :
    ∃ copy, x.request.key = some copy ∧ RecordMove x copy ev x' := by
  cases h with
  | record copy hpc hkey h => exact ⟨copy, hkey, h⟩
  | quit answer hpc hev ha => rcases hpc with hpc | hpc | ⟨deadline, hpc⟩ <;> rw [hpc] at hx <;> cases hx
  | pick h =>
    rw [(Pc.not_holdsKey_of_holdsLock h.holdsLock).2.1] at hx
    cases hx
  | counted hpc | acquired hpc | slept _ hpc | woke _ hpc | answer _ _ hpc =>
    rw [hpc] at hx
    cases hx

/-- Only the upstream call waits for an answer. -/
theorem Move.of_answer {u : Upstream} (h : Move rot now p x (.answer u) x') :
    ∃ copy, x.request.key = some copy ∧ AnswerMove rot now x copy (.answer u) x' := by
  cases h with
  | answer rawKey copy hpc hkey h => exact ⟨copy, hkey, h⟩
  | quit answer hpc hev ha => cases hev
  | pick h =>
    cases h with
    | left answer t hpc hev ht ha => cases hev
  | record copy hpc hkey h =>
    cases h with
    | leaked t hev ht => cases hev

/-- A request that runs is not idle, and not done. -/
theorem Move.isRunning (h : Move rot now p x ev x') : x.request.isRunning = true := by
  have hpc : ∀ {pc : Pc}, x.request.pc = pc → ({ x.request with pc := pc } : Request).isRunning = true →
      x.request.isRunning = true := by
    rintro pc rfl hrun
    exact hrun
  cases h with
  | counted hc | acquired hc | slept _ hc | woke _ hc | answer _ _ hc => exact hpc hc rfl
  | quit answer hc => rcases hc with hc | hc | ⟨deadline, hc⟩ <;> exact hpc hc rfl
  | pick h =>
    have hheld := h.holdsLock
    cases hc : x.request.pc <;> first | exact hpc hc rfl | (rw [hc] at hheld; cases hheld)
  | record copy hrec => cases hc : x.request.pc <;> first | exact hpc hc rfl | (rw [hc] at hrec; cases hrec)

end

end Turn

/-! ### What every move keeps -/

namespace Request

/-- What a request keeps in mind: what it is, the answers it got, and that an
attempt was not answered 404. -/
structure Remembers (q q' : Request) : Prop where
  kind : q'.kind = q.kind
  answered : q.answered <+: q'.answered
  all404 : q.all404 = false → q'.all404 = false

theorem Remembers.trans {q q' q'' : Request} (h : q.Remembers q') (h' : q'.Remembers q'') :
    q.Remembers q'' where
  kind := h'.kind.trans h.kind
  answered := h.answered.trans h'.answered
  all404 hq := h'.all404 (h.all404 hq)

theorem nextIteration_all404 (q : Request) : q.nextIteration.all404 = q.all404 := by
  unfold nextIteration
  split
  · obtain ⟨answer, h⟩ := q.giveUp_eq
    rw [h]
    rfl
  · rfl

theorem nextIteration_remembers (q : Request) : q.Remembers q.nextIteration := by
  have h := q.nextIteration_rests
  refine ⟨h.kind, ?_, fun hq => ?_⟩
  · rw [h.answered]
  · rw [nextIteration_all404]
    exact hq

theorem noKey_remembers (q : Request) (now : ℤ) : q.Remembers (q.noKey now) := by
  obtain ⟨pc, h, -⟩ := q.noKey_eq now
  rw [h]
  exact ⟨rfl, List.prefix_rfl, fun hq => hq⟩

theorem returned_remembers (q : Request) (ret : Return) : q.Remembers (q.returned ret) := by
  have h := q.returned_rests ret
  refine ⟨h.kind, ?_, fun hq => ?_⟩
  · rw [h.answered]
  · cases ret with
    | models ok ids => exact hq
    | outcome o =>
      simp only [returned]
      split
      · rw [nextIteration_all404, hq, Bool.false_and]
      · split <;> first | exact hq | rfl

theorem stop_sound (q : Request) (answer : Answer) : (q.stop answer).Sound :=
  ⟨fun h => by simp [Pc.holdsKey] at h, fun _ h => by simp [Pc.isDone] at h⟩

theorem Rests.sound {q q' : Request} (h : q.Rests q') (hq : q.reserved = none) : q'.Sound := by
  refine ⟨fun hk => ?_, fun _ _ => h.reserved.trans hq⟩
  rcases h.pc with hpc | ⟨answer, hpc⟩ <;> rw [hpc] at hk <;> cases hk

theorem Sound.idle : idle.Sound := ⟨fun h => (by cases h), fun _ _ => rfl⟩

theorem Sound.start (kind : Kind) : (start kind).Sound := by
  cases kind <;> exact ⟨fun h => (by cases h), fun _ _ => rfl⟩

theorem noKey_sound {q : Request} (now : ℤ) (hq : q.reserved = none) : (q.noKey now).Sound :=
  ⟨fun h => (by rw [noKey_holdsKey] at h; cases h), fun _ _ => (noKey_reserved q now).trans hq⟩

theorem Sound.reserved_eq {q : Request} {copy : Copy} (hq : q.Sound)
    (hpc : q.pc.holdsKey = true) (hkey : q.key = some copy) : q.reserved = some copy.id := by
  obtain ⟨c, hc, -, hr⟩ := hq.held hpc
  rw [hkey] at hc
  cases hc
  exact hr

/-- A request that goes on with its key, or without one, stays sound. -/
theorem Sound.at_pc {q : Request} (hq : q.Sound) {pc : Pc} (hk : pc.holdsKey = q.pc.holdsKey)
    (hd : q.pc.isDone = false) (answered : List (ℕ × Upstream)) (reactivated : List ℕ) :
    { q with pc := pc, answered := answered, reactivated := reactivated }.Sound :=
  ⟨fun h => hq.held (hk ▸ h), fun h _ => hq.free (hk ▸ h) hd⟩

end Request

namespace Turn

variable {rot : Rotation} {now : ℤ} {p : ℕ} {x x' : Turn} {ev : Event}

theorem PickMove.reserved_eq_none (h : PickMove rot now x ev x') (hx : x.request.Sound) :
    x.request.reserved = none := by
  obtain ⟨hk, -, hd⟩ := Pc.not_holdsKey_of_holdsLock h.holdsLock
  exact hx.free hk hd

theorem PickMove.sound (h : PickMove rot now x ev x') (hx : x.request.Sound) :
    x'.request.Sound := by
  have hnone := h.reserved_eq_none hx
  cases h with
  | emptied hpc hempty => exact hx.at_pc (by rw [hpc]; rfl) (by rw [hpc]; rfl) _ _
  | reactivated updateNow hpc => exact hx.at_pc (by rw [hpc]; rfl) (by rw [hpc]; rfl) _ _
  | left answer t hpc hev ht ha => exact Request.stop_sound _ _
  | missed hpc hall => exact Request.noKey_sound now hnone
  | skipped id row m hpc hchoose hvault => exact (Request.returned_rests _ _).sound rfl
  | attempted id row m rawKey hpc hchoose hvault =>
    refine ⟨fun _ => ⟨_, rfl, x.request.copyOf_expired id row, ?_⟩, fun h => (by cases h)⟩
    rw [x.request.copyOf_id id row]

theorem AnswerMove.sound {copy : Copy} {rawKey : String} (h : AnswerMove rot now x copy ev x')
    (hpc : x.request.pc = .upstream rawKey) (hx : x.request.Sound) : x'.request.Sound := by
  cases h with
  | answered u rec ret hd => exact hx.at_pc (by rw [hpc]; rfl) (by rw [hpc]; rfl) _ _
  | unrecorded u ret hd => exact (Request.returned_rests _ _).sound rfl
  | unread u e hd => exact Request.stop_sound _ _
  | hungUp written expired => exact Request.stop_sound _ _

theorem RecordMove.sound {copy : Copy} (h : RecordMove x copy ev x') (hx : x.request.Sound) :
    x'.request.Sound := by
  cases h with
  | recorded v ret t hpc hcommit => exact hx.at_pc (by rw [hpc]; rfl) (by rw [hpc]; rfl) _ _
  | recordedUsage u ret t hpc hcommit => exact (Request.returned_rests _ _).sound rfl
  | refreshed ret row hpc hrow => exact (Request.returned_rests _ _).sound rfl
  | cancelled written rec ret t hpc ht => exact Request.stop_sound _ _
  | leaked t hev ht => exact Request.stop_sound _ _

theorem Move.sound (h : Move rot now p x ev x') (hx : x.request.Sound) : x'.request.Sound := by
  cases h with
  | counted hpc =>
    have hnone := hx.free (by rw [hpc]; rfl) (by rw [hpc]; rfl)
    exact (Request.nextIteration_rests _).sound hnone
  | quit answer hpc hev ha => exact Request.stop_sound _ _
  | acquired hpc hlock => exact hx.at_pc (by rw [hpc]; rfl) (by rw [hpc]; rfl) _ _
  | pick h => exact h.sound hx
  | slept deadline hpc => exact hx
  | woke deadline hpc =>
    have hnone := hx.free (by rw [hpc]; rfl) (by rw [hpc]; rfl)
    exact (Request.nextIteration_rests _).sound hnone
  | answer rawKey copy hpc hkey h => exact h.sound hpc hx
  | record copy hpc hkey h => exact h.sound hx

theorem Move.remembers (h : Move rot now p x ev x') : x.request.Remembers x'.request := by
  cases h with
  | counted hpc =>
    refine .trans ?_ (Request.nextIteration_remembers _)
    exact ⟨rfl, List.prefix_rfl, fun hx => hx⟩
  | pick h =>
    cases h with
    | missed hpc hall => exact Request.noKey_remembers _ _
    | skipped id row m hpc hchoose hvault =>
      refine .trans ?_ (Request.returned_remembers _ _)
      exact ⟨rfl, List.prefix_rfl, fun hx => hx⟩
    | _ => exact ⟨rfl, List.prefix_rfl, fun hx => hx⟩
  | woke deadline hpc => exact Request.nextIteration_remembers _
  | answer rawKey copy hpc hkey h =>
    cases h with
    | answered u rec ret hd => exact ⟨rfl, List.prefix_append _ _, fun hx => hx⟩
    | unrecorded u ret hd =>
      refine .trans ?_ (Request.returned_remembers _ _)
      exact ⟨rfl, List.prefix_append _ _, fun hx => hx⟩
    | unread u e hd => exact ⟨rfl, List.prefix_append _ _, fun hx => hx⟩
    | hungUp written expired => exact ⟨rfl, List.prefix_rfl, fun hx => hx⟩
  | record copy hpc hkey h =>
    cases h with
    | recordedUsage u ret t hpc' hcommit =>
      refine .trans ?_ (Request.returned_remembers _ _)
      exact ⟨rfl, List.prefix_rfl, fun hx => hx⟩
    | refreshed ret row hpc' hrow =>
      refine .trans ?_ (Request.returned_remembers _ _)
      exact ⟨rfl, List.prefix_rfl, fun hx => hx⟩
    | _ => exact ⟨rfl, List.prefix_rfl, fun hx => hx⟩
  | _ => exact ⟨rfl, List.prefix_rfl, fun hx => hx⟩

/-- Where a move takes the request. -/
inductive Reaches (now : ℤ) (x x' : Turn) : Prop
  | rests (hpc : x'.request.pc = .lock ∨ ∃ answer, x'.request.pc = .done answer)
  | waits (deadline : ℤ) (hpc : x'.request.pc = .wait deadline)
  | loads (hpc : x'.request.pc = .load)
  | reactivates (hpc : x'.request.pc = .reactivate now) (ht : x'.table = x.table)
    (hempty : loadActive x.table = [])
  | reloads (hpc : x'.request.pc = .reload)
  | calls (rawKey : String) (copy : Copy) (hpc : x'.request.pc = .upstream rawKey)
    (hkey : x'.request.key = some copy) (ht : x'.table = x.table)
    (hact : HasStatus x.table copy.id .active)
  | commits (rawKey : String) (rec : Recorder) (ret : Return) (hold : x.request.pc = .upstream rawKey)
    (hpc : x'.request.pc = .commit rec ret) (hkey : x'.request.key = x.request.key)
    (ht : x'.table = x.table)
  | refreshes (ret : Return) (hpc : x'.request.pc = .refresh ret)

theorem PickMove.reaches (h : PickMove rot now x ev x') : Reaches now x x' := by
  cases h with
  | emptied hpc hempty => exact .reactivates rfl rfl hempty
  | reactivated updateNow hpc => exact .reloads rfl
  | left answer t hpc hev ht ha => exact .rests (Or.inr ⟨answer, rfl⟩)
  | missed hpc hall =>
    rcases x.request.noKey_pc now with hdone | hwait
    · exact .rests (Or.inr hdone)
    · exact .waits _ hwait
  | skipped id row m hpc hchoose hvault => exact .rests (Request.returned_rests _ _).pc
  | attempted id row m rawKey hpc hchoose hvault =>
    refine .calls rawKey _ rfl rfl rfl ?_
    rw [x.request.copyOf_id]
    exact exists_mem_loadActive.mp ⟨row, choose_mem hchoose⟩

theorem AnswerMove.reaches {copy : Copy} {rawKey : String} (h : AnswerMove rot now x copy ev x')
    (hpc : x.request.pc = .upstream rawKey) : Reaches now x x' := by
  cases h with
  | answered u rec ret hd => exact .commits rawKey rec ret hpc rfl rfl rfl
  | unrecorded u ret hd => exact .rests (Request.returned_rests _ _).pc
  | unread u e hd => exact .rests (Or.inr ⟨_, rfl⟩)
  | hungUp written expired => exact .rests (Or.inr ⟨_, rfl⟩)

theorem RecordMove.reaches {copy : Copy} (h : RecordMove x copy ev x') : Reaches now x x' := by
  cases h with
  | recorded v ret t hpc hcommit => exact .refreshes ret rfl
  | recordedUsage u ret t hpc hcommit => exact .rests (Request.returned_rests _ _).pc
  | refreshed ret row hpc hrow => exact .rests (Request.returned_rests _ _).pc
  | cancelled written rec ret t hpc ht => exact .rests (Or.inr ⟨_, rfl⟩)
  | leaked t hev ht => exact .rests (Or.inr ⟨_, rfl⟩)

theorem Move.reaches (h : Move rot now p x ev x') : Reaches now x x' := by
  cases h with
  | counted hpc => exact .rests (Request.nextIteration_rests _).pc
  | quit answer hpc hev ha => exact .rests (Or.inr ⟨answer, rfl⟩)
  | acquired hpc hlock => exact .loads rfl
  | pick h => exact h.reaches
  | slept deadline hpc => exact .waits deadline hpc
  | woke deadline hpc => exact .rests (Request.nextIteration_rests _).pc
  | answer rawKey copy hpc hkey h => exact h.reaches hpc
  | record copy hpc hkey h => exact h.reaches

/-- What a move does to the reservation: nothing, take a key that nobody has,
or give back the one the request has. -/
inductive Reserves (x x' : Turn) : Prop
  | keeps (hr : x'.request.reserved = x.request.reserved)
    (hf : x'.manager.inFlight = x.manager.inFlight)
  | takes (id : ℕ) (hfree : id ∉ x.manager.inFlight) (hr : x.request.reserved = none)
    (hr' : x'.request.reserved = some id) (hf : x'.manager.inFlight = insert id x.manager.inFlight)
  | returns (id : ℕ) (hr : x.request.reserved = some id) (hr' : x'.request.reserved = none)
    (hf : x'.manager.inFlight = x.manager.inFlight.erase id)

theorem PickMove.reserves (h : PickMove rot now x ev x') (hx : x.request.Sound) : Reserves x x' := by
  have hnone := h.reserved_eq_none hx
  cases h with
  | emptied hpc hempty => exact .keeps rfl rfl
  | reactivated updateNow hpc => exact .keeps rfl rfl
  | left answer t hpc hev ht ha => exact .keeps rfl rfl
  | missed hpc hall => exact .keeps (Request.noKey_reserved _ _) rfl
  | skipped id row m hpc hchoose hvault =>
    exact .keeps ((Request.returned_rests _ _).reserved.trans hnone.symm) rfl
  | attempted id row m rawKey hpc hchoose hvault =>
    rcases choose_cases x.manager (loadActive x.table) with hc | ⟨k, -, hfree, next, hc⟩
    · rw [hc] at hchoose
      cases hchoose
    · rw [hc] at hchoose
      cases hchoose
      exact .takes id hfree hnone rfl rfl

theorem AnswerMove.reserves {copy : Copy} (h : AnswerMove rot now x copy ev x')
    (hr : x.request.reserved = some copy.id) : Reserves x x' := by
  cases h with
  | answered u rec ret hd => exact .keeps rfl rfl
  | unrecorded u ret hd => exact .returns copy.id hr (Request.returned_rests _ _).reserved rfl
  | unread u e hd => exact .returns copy.id hr rfl rfl
  | hungUp written expired => exact .returns copy.id hr rfl rfl

theorem RecordMove.reserves {copy : Copy} (h : RecordMove x copy ev x')
    (hr : x.request.reserved = some copy.id) : Reserves x x' := by
  cases h with
  | recorded v ret t hpc hcommit => exact .keeps rfl rfl
  | recordedUsage u ret t hpc hcommit => exact .returns copy.id hr (Request.returned_rests _ _).reserved rfl
  | refreshed ret row hpc hrow => exact .returns copy.id hr (Request.returned_rests _ _).reserved rfl
  | cancelled written rec ret t hpc ht => exact .returns copy.id hr rfl rfl
  | leaked t hev ht => exact .keeps rfl rfl

theorem Move.reserves (h : Move rot now p x ev x') (hx : x.request.Sound) : Reserves x x' := by
  cases h with
  | counted hpc => exact .keeps (Request.nextIteration_rests _).reserved rfl
  | quit answer hpc hev ha => exact .keeps rfl rfl
  | acquired hpc hlock => exact .keeps rfl rfl
  | pick h => exact h.reserves hx
  | slept deadline hpc => exact .keeps rfl rfl
  | woke deadline hpc => exact .keeps (Request.nextIteration_rests _).reserved rfl
  | answer rawKey copy hpc hkey h => exact h.reserves (hx.reserved_eq (by rw [hpc]; rfl) hkey)
  | record copy hpc hkey h =>
    exact h.reserves (hx.reserved_eq (Pc.holdsKey_of_isRecording hpc) hkey)

/-- What a move does to the key table: nothing, the reactivation of
`pick_next_key`, or a recorder's commit on the request's own key. -/
inductive Writes (x : Turn) (t : KeyTable) : Prop
  | nothing (ht : t = x.table)
  | reactivation (updateNow : ℤ) (hpc : x.request.pc = .reactivate updateNow)
    (ht : t = reactivateLocked x.table updateNow)
  | commit (rec : Recorder) (ret : Return) (copy : Copy) (hpc : x.request.pc = .commit rec ret)
    (hkey : x.request.key = some copy) (ht : rec.commit copy.id copy.row x.table = some t)

theorem Move.writes (h : Move rot now p x ev x') : Writes x x'.table := by
  cases h with
  | pick h =>
    cases h with
    | reactivated updateNow hpc => exact .reactivation updateNow hpc rfl
    | left answer t hpc hev ht ha =>
      rcases ht with rfl | ⟨updateNow, hpc, rfl⟩
      · exact .nothing rfl
      · exact .reactivation updateNow hpc rfl
    | _ => exact .nothing rfl
  | answer rawKey copy hpc hkey h => cases h <;> exact .nothing rfl
  | record copy hpc hkey h =>
    cases h with
    | recorded v ret t hpc hcommit => exact .commit _ ret copy hpc hkey hcommit
    | recordedUsage u ret t hpc hcommit => exact .commit _ ret copy hpc hkey hcommit
    | refreshed ret row hpc hrow => exact .nothing rfl
    | cancelled written rec ret t hpc ht =>
      rcases ht with rfl | hc
      · exact .nothing rfl
      · exact .commit rec ret copy hpc hkey hc
    | leaked t hev ht =>
      rcases ht with rfl | ⟨rec, ret, hpc, hc⟩
      · exact .nothing rfl
      · exact .commit rec ret copy hpc hkey hc
  | _ => exact .nothing rfl

end Turn

/-! ### Steps of the world -/

namespace World

variable {rot : Rotation} {w w' : World} {a : Action}

/-- Every request knows its own key. -/
def Sound (w : World) : Prop := ∀ p, (w.requests p).Sound

theorem step_start {p : ℕ} {kind : Kind} (h : w.step rot (.start p kind) = some w') :
    (w.requests p).pc = .idle ∧
      w' = { w with requests := Function.update w.requests p (.start kind) } := by
  simp only [step] at h
  split at h
  · rename_i hpc
    cases h
    exact ⟨hpc, rfl⟩
  · cases h

theorem step_resume (hw : w.Sound) {p : ℕ} {ev : Event}
    (h : w.step rot (.resume p ev) = some w') :
    ∃ x', Turn.Move rot w.now p (w.turn p) ev x' ∧ w' = w.put p x' := by
  simp only [step, Option.map_eq_some_iff] at h
  obtain ⟨x', hx', rfl⟩ := h
  exact ⟨x', Turn.resume_move (hw p) hx', rfl⟩

/-- What a step does to one request: nothing, it starts, or it takes its turn. -/
inductive RequestStep (rot : Rotation) (w : World) (a : Action) (r : ℕ) (w' : World) : Prop
  | keeps (hturn : a.isTurnOf r = false) (hreq : w'.requests r = w.requests r)
  | starts (kind : Kind) (hturn : a.isTurnOf r = false) (hpc : (w.requests r).pc = .idle)
    (htable : w'.table = w.table) (hreq : w'.requests r = .start kind)
  | turns (ev : Event) (x' : Turn) (ha : a = .resume r ev) (hw' : w' = w.put r x')
    (hm : Turn.Move rot w.now r (w.turn r) ev x')

theorem step_request (hw : w.Sound) (h : w.step rot a = some w') (r : ℕ) :
    RequestStep rot w a r w' := by
  cases a with
  | start p kind =>
    obtain ⟨hpc, rfl⟩ := step_start h
    by_cases hr : r = p
    · subst hr
      exact .starts kind rfl hpc rfl (Function.update_self _ _ _)
    · exact .keeps rfl (Function.update_of_ne hr _ _)
  | resume p ev =>
    obtain ⟨x', hm, rfl⟩ := step_resume hw h
    by_cases hr : r = p
    · subst hr
      exact .turns ev x' rfl rfl hm
    · exact .keeps (decide_eq_false fun he => hr he.symm) (put_requests_of_ne w hr x')
  | admin op => cases h; exact .keeps rfl rfl
  | tick d => cases h; exact .keeps rfl rfl

theorem step_sound (hw : w.Sound) (h : w.step rot a = some w') : w'.Sound := by
  intro r
  cases step_request hw h r with
  | keeps hturn hreq =>
    rw [hreq]
    exact hw r
  | starts kind hturn hpc htable hreq =>
    rw [hreq]
    exact Request.Sound.start kind
  | turns ev x' ha hw' hm =>
    rw [hw', put_requests_self]
    exact hm.sound (hw r)

theorem step_now_le (h : w.step rot a = some w') : w.now ≤ w'.now := by
  cases a with
  | start p kind =>
    obtain ⟨-, rfl⟩ := step_start h
    exact le_rfl
  | resume p ev =>
    simp only [step, Option.map_eq_some_iff] at h
    obtain ⟨x', -, rfl⟩ := h
    exact le_rfl
  | admin op => cases h; exact le_rfl
  | tick d =>
    cases h
    show w.now ≤ w.now + d
    omega

theorem init_sound (t : KeyTable) (now : ℤ) : (init t now).Sound := fun _ => Request.Sound.idle

theorem run_sound {t : KeyTable} {now : ℤ} {as : List Action}
    (h : run (step rot) (init t now) as = some w) : w.Sound :=
  run_inv' (fun _ _ _ => step_sound) (init_sound t now) h

end World

end OllamaProxy
