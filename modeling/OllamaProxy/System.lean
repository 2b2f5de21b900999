/-
# Every interleaving of the requests

A `World` is the key table, the clock, the key manager and the requests. A
request is suspended at an await (`Pc`); `resume` is what it does from there to
its next await. `Action` is one scheduler choice: a request starts, a request
resumes, an admin operation commits, or the clock moves on.

A request's session keeps the copy of its key's row (`Copy`): a `SELECT` that
meets the row again leaves the copy as it was, a `refresh` reloads it, and a
flush, a commit or a refresh that fails expires it. Reading any attribute of an
expired copy raises, `key.id` in a `finally` block included.

`reserved`, `answered` and `reactivated` are history: the id between the return
of `pick_next_key` and the matching `release`, the upstream answers, and the
ids that the request's own reactivations made active.

Key definitions: `Request.resume`, `World.step`.
-/
import OllamaProxy.Rotation
import OllamaProxy.Lib.Run

namespace OllamaProxy

open Kit

/-! ### Requests -/

structure Copy where
  id : ℕ
  row : ApiKey
  expired : Bool
deriving DecidableEq

/-- `chat` is `execute_with_rotation` under `chat_completions`, `models` is
`_fetch_models_via_rotation`. -/
inductive Kind
  | chat (requestedModel : Option String) (stream : Bool)
  | models

/-- The await a request is suspended at. From `load` to `reload` it holds the
lock of `pick_next_key`; `reactivate` carries the time of its `UPDATE`, `wait`
the deadline, `refresh` and `commit` what the recorder's caller will return. -/
inductive Pc
  | idle
  | count
  | lock
  | load
  | reactivate (now : ℤ)
  | reload
  | wait (deadline : ℤ)
  | upstream (rawKey : String)
  | commit (rec : Recorder) (ret : Return)
  | refresh (ret : Return)
  | done (answer : Answer)

structure Request where
  kind : Kind
  pc : Pc
  initialCount : ℕ
  left : ℕ
  anyAttempt : Bool
  all404 : Bool
  key : Option Copy
  reserved : Option ℕ
  answered : List (ℕ × Upstream)
  reactivated : List ℕ

def Request.idle : Request where
  kind := .models
  pc := .idle
  initialCount := 0
  left := 0
  anyAttempt := false
  all404 := true
  key := none
  reserved := none
  answered := []
  reactivated := []

/-- The answer of a request that is done. -/
def Request.answer? (q : Request) : Option Answer :=
  match q.pc with
  | .done answer => some answer
  | _ => none

/-- The first await is the count of the pool, for a model list the lock. -/
def Request.start : Kind → Request
  | .chat requestedModel stream =>
    { Request.idle with kind := .chat requestedModel stream, pc := .count }
  | .models => { Request.idle with kind := .models, pc := .lock }

/-- What the outside gives a suspended request: its await returns (`ok`, or
`answer` for the upstream call), raises (`fail`), or the task is cancelled. A
cancelled commit may have taken effect and may have expired the copy. -/
inductive Event
  | ok
  | answer (u : Upstream)
  | fail
  | cancel (written expired : Bool)

/-- What a request reads and changes when it runs. -/
structure Turn where
  table : KeyTable
  manager : KeyManager
  request : Request

namespace Request

/-- `chat_completions` turns an exception into a 503; on the model-list path it
leaves the handler. -/
def failed (q : Request) : Answer :=
  match q.kind with
  | .chat _ _ => .proxy 503 "all backends failed"
  | .models => .error

def stop (q : Request) (answer : Answer) : Request := { q with pc := .done answer }

/-- After the loop. -/
def giveUp (q : Request) : Request :=
  match q.kind with
  | .chat requestedModel _ => q.stop (verdict requestedModel q.initialCount q.anyAttempt q.all404)
  | .models => q.stop (.models false [])

/-- The head of `for _attempt in range(max_iter)`. -/
def nextIteration (q : Request) : Request :=
  match q.left with
  | 0 => q.giveUp
  | left + 1 => { q with left := left, pc := .lock }

/-- `pick_next_key` returned `None`. -/
def noKey (q : Request) (now : ℤ) : Request :=
  let q := { q with key := none }
  match q.kind with
  | .models => q.stop (.models false [])
  | .chat _ _ =>
    if q.initialCount = 0 then q.giveUp else { q with pc := .wait (now + seconds 10) }

/-- After the `finally` block: what the loop, or the model-list path, does with
the outcome. -/
def returned (q : Request) : Return → Request
  | .models ok ids => q.stop (.models ok ids)
  | .outcome o =>
    if o.rotate then { q with all404 := q.all404 && o.all404Hint }.nextIteration
    else
      match o.terminal, o.response, q.kind with
      | some r, _, _ => q.stop (.upstream r)
      | none, some r, .chat _ stream =>
        { q with all404 := false }.stop (.upstream (buildSuccessResponse r stream))
      | none, _, _ => q.stop q.failed

/-- The `finally` block, `await release(key.id)`, then `next`. Where the copy
is expired, reading its id raises and the reservation stays. -/
def release (q : Request) (m : KeyManager) (next : Request → Request) : KeyManager × Request :=
  match q.key with
  | none => (m, q.stop q.failed)
  | some copy =>
    if copy.expired then (m, q.stop q.failed)
    else (m.release copy.id, next { q with reserved := none })

def expire (q : Request) : Request :=
  { q with key := q.key.map fun copy => { copy with expired := true } }

/-- The copy of a row that a `SELECT` returned: the one the session has, if it
has one that is not expired. -/
def copyOf (q : Request) (id : ℕ) (row : ApiKey) : Copy :=
  match q.key with
  | some copy => if copy.id = id ∧ copy.expired = false then copy else ⟨id, row, false⟩
  | none => ⟨id, row, false⟩

/-- A key that cannot be decrypted: the chat path rotates, the model-list path
gives up. -/
def undecryptable (q : Request) : Return :=
  match q.kind with
  | .chat _ _ => rotateTo false
  | .models => .models false []

/-- What the request makes of the upstream outcome. -/
def dispatch (rot : Rotation) (now : ℤ) (q : Request) (u : Upstream) : Dispatch :=
  match q.kind with
  | .chat _ stream => dispatchOne rot stream now u
  | .models => fetchModels rot now u

end Request

/-! ### One turn

Each function below takes a request from one await to the next. -/

/-- `_wait_for_free_slot` when a sleep ends: what it returns, `none` where it
sleeps again. -/
def waitForFreeSlot (deadline now : ℤ) (inFlight : Finset ℕ) : Option Bool :=
  let slept := true
  if inFlight = ∅ then some true else if now < deadline then none else some slept

namespace Turn

/-- The request leaves `pick_next_key` by an exception or a cancellation. -/
def leaveLock (x : Turn) (answer : Answer) : Turn :=
  { x with manager := { x.manager with lock := none }, request := x.request.stop answer }

/-- `pick_next_key` has its list: it picks, drops the lock, and the caller goes
on to the upstream call. -/
def pick (rot : Rotation) (now : ℤ) (x : Turn) : Turn :=
  match { x.manager with lock := none }.choose (loadActive x.table) with
  | (none, m) => { x with manager := m, request := x.request.noKey now }
  | (some (id, row), m) =>
    let copy := x.request.copyOf id row
    let q := { x.request with key := some copy, reserved := some id, anyAttempt := true }
    match rot.vault copy.row.keyEncrypted with
    | some rawKey => { x with manager := m, request := { q with pc := .upstream rawKey } }
    | none =>
      let r := q.release m fun q => q.returned q.undecryptable
      { x with manager := r.1, request := r.2 }

/-- The `finally` block, and then `next`. -/
def release (x : Turn) (next : Request → Request) : Turn :=
  let r := x.request.release x.manager next
  { x with manager := r.1, request := r.2 }

/-- An exception inside the `try`. -/
def raised (x : Turn) : Turn := x.release fun q => q.stop q.failed

/-- A flush, a commit or a refresh failed. -/
def dbFailed (x : Turn) : Turn := { x with request := x.request.expire }.raised

def onCount (rot : Rotation) (x : Turn) : Event → Option Turn
  | .ok =>
    let c := countActive x.table
    let q := { x.request with initialCount := c, left := maxIter rot c }
    some { x with request := q.nextIteration }
  | .fail => some { x with request := x.request.stop x.request.failed }
  | .cancel _ _ => some { x with request := x.request.stop .cancelled }
  | .answer _ => none

def onLock (p : ℕ) (x : Turn) : Event → Option Turn
  | .ok =>
    if x.manager.lock = none then
      some { x with
        manager := { x.manager with lock := some p }
        request := { x.request with pc := .load } }
    else none
  | .cancel _ _ => some { x with request := x.request.stop .cancelled }
  | .fail | .answer _ => none

def onLoad (rot : Rotation) (now : ℤ) (x : Turn) : Event → Option Turn
  | .ok =>
    if (loadActive x.table).isEmpty then
      some { x with request := { x.request with pc := .reactivate now } }
    else some (x.pick rot now)
  | .fail => some (x.leaveLock x.request.failed)
  | .cancel _ _ => some (x.leaveLock .cancelled)
  | .answer _ => none

/-- The ids that `_reactivate_locked` makes active. -/
def cooledDownIds (t : KeyTable) (now : ℤ) : List ℕ := (t.select (·.cooledDown now)).map (·.1)

def onReactivate (updateNow : ℤ) (x : Turn) : Event → Option Turn
  | .ok =>
    some { x with
      table := reactivateLocked x.table updateNow
      request := { x.request with
        pc := .reload
        reactivated := x.request.reactivated ++ cooledDownIds x.table updateNow } }
  | .fail => some (x.leaveLock x.request.failed)
  | .cancel written _ =>
    let t := if written then reactivateLocked x.table updateNow else x.table
    some ({ x with table := t }.leaveLock .cancelled)
  | .answer _ => none

def onReload (rot : Rotation) (now : ℤ) (x : Turn) : Event → Option Turn
  | .ok => some (x.pick rot now)
  | .fail => some (x.leaveLock x.request.failed)
  | .cancel _ _ => some (x.leaveLock .cancelled)
  | .answer _ => none

def onWait (now deadline : ℤ) (x : Turn) : Event → Option Turn
  | .ok =>
    match waitForFreeSlot deadline now x.manager.inFlight with
    | none => some x
    | some true => some { x with request := x.request.nextIteration }
    | some false => some { x with request := x.request.giveUp }
  | .cancel _ _ => some { x with request := x.request.stop .cancelled }
  | .fail | .answer _ => none

def onUpstream (rot : Rotation) (now : ℤ) (x : Turn) : Event → Option Turn
  | .answer u =>
    let q := { x.request with
      answered := x.request.answered ++ (x.request.key.map fun copy : Copy => (copy.id, u)).toList }
    match q.dispatch rot now u with
    | .record rec ret => some { x with request := { q with pc := .commit rec ret } }
    | .done ret => some ({ x with request := q }.release (·.returned ret))
    | .raised _ => some { x with request := q }.raised
  | .cancel _ _ => some (x.release (·.stop .cancelled))
  | .ok | .fail => none

/-- The recorder's statements and its commit. `_update_key` then refreshes the
copy; after `record_success_with_usage` the copy has what the call set on it. -/
def onCommit (rec : Recorder) (ret : Return) (x : Turn) : Event → Option Turn
  | .ok =>
    x.request.key.map fun copy =>
      match rec.commit copy.id copy.row x.table, rec with
      | none, _ => x.dbFailed
      | some t, .update _ => { x with table := t, request := { x.request with pc := .refresh ret } }
      | some t, .usage u =>
        let q := { x.request with key := some { copy with row := u.touch copy.row } }
        { x with table := t, request := q }.release (·.returned ret)
  | .fail => some x.dbFailed
  | .cancel written expired =>
    x.request.key.map fun copy =>
      let t := if written then (rec.commit copy.id copy.row x.table).getD x.table else x.table
      let q := if expired then x.request.expire else x.request
      { x with table := t, request := q }.release (·.stop .cancelled)
  | .answer _ => none

/-- `session.refresh(key)` expires the copy first. -/
def onRefresh (ret : Return) (x : Turn) : Event → Option Turn
  | .ok =>
    x.request.key.map fun copy =>
      match x.table.get? copy.id with
      | none => x.dbFailed
      | some row =>
        { x with request := { x.request with key := some ⟨copy.id, row, false⟩ } }.release
          (·.returned ret)
  | .fail => some x.dbFailed
  | .cancel _ _ => some ({ x with request := x.request.expire }.release (·.stop .cancelled))
  | .answer _ => none

/-- Request `p` runs to its next await. -/
def resume (rot : Rotation) (now : ℤ) (p : ℕ) (x : Turn) (ev : Event) : Option Turn :=
  match x.request.pc with
  | .idle | .done _ => none
  | .count => x.onCount rot ev
  | .lock => x.onLock p ev
  | .load => x.onLoad rot now ev
  | .reactivate updateNow => x.onReactivate updateNow ev
  | .reload => x.onReload rot now ev
  | .wait deadline => x.onWait now deadline ev
  | .upstream _ => x.onUpstream rot now ev
  | .commit rec ret => x.onCommit rec ret ev
  | .refresh ret => x.onRefresh ret ev

end Turn

/-! ### The world -/

/-- The admin API and the dashboard. `probe` records what a test call to the
key answered. -/
inductive AdminOp
  | createKey (keyHash keyPrefix keyEncrypted : String) (label : Option String)
  | updateKey (id : ℕ) (seen : ApiKey) (label : Option String) (status : Option ApiKeyStatus)
  | deleteKey (id : ℕ)
  | resetKeyStates
  | probe (id : ℕ) (seen : ApiKey) (statusCode : ℕ) (headers : Headers)

/-- `ProbeClassifier.classify`: what it records. -/
def classify (pyFloat : String → Option PyFloat) (now : ℤ) (code : ℕ) (headers : Headers) :
    Option KeyValues :=
  if 200 ≤ code ∧ code < 300 then some (recordSuccess now code)
  else if code = 401 ∨ code = 403 ∨ code = 404 then some (recordUnauthorized now code)
  else if code = 429 then
    match extractRetryAfter pyFloat headers with
    | .error _ => none
    | .ok retryAfter => (recordRateLimited now code retryAfter).toOption
  else if 500 ≤ code then some (recordServerError now code)
  else none

/-- An operation that is refused, or whose commit fails, leaves the table. -/
def AdminOp.apply (pyFloat : String → Option PyFloat) (now : ℤ) (t : KeyTable) : AdminOp → KeyTable
  | .createKey keyHash keyPrefix keyEncrypted label =>
    (OllamaProxy.createKey t keyHash keyPrefix keyEncrypted label now).getD t
  | .updateKey id seen label status =>
    (OllamaProxy.updateKey t id seen label status now).getD t
  | .deleteKey id => (OllamaProxy.deleteKey t id).getD t
  | .resetKeyStates => OllamaProxy.resetKeyStates t now
  | .probe id seen code headers =>
    ((classify pyFloat now code headers).bind fun v => (Recorder.update v).commit id seen t).getD t

structure World where
  table : KeyTable
  now : ℤ
  manager : KeyManager
  requests : ℕ → Request

inductive Action
  | start (p : ℕ) (kind : Kind)
  | resume (p : ℕ) (ev : Event)
  | admin (op : AdminOp)
  | tick (d : ℕ)

def Action.isAdmin : Action → Bool
  | .admin _ => true
  | _ => false

def Action.isTurnOf (p : ℕ) : Action → Bool
  | .resume q _ => q = p
  | _ => false

namespace World

def init (t : KeyTable) (now : ℤ) : World := ⟨t, now, .new, fun _ => .idle⟩

def turn (w : World) (p : ℕ) : Turn := ⟨w.table, w.manager, w.requests p⟩

def put (w : World) (p : ℕ) (x : Turn) : World :=
  { w with
    table := x.table
    manager := x.manager
    requests := Function.update w.requests p x.request }

/-- `none`: the action is not possible in this state. -/
def step (rot : Rotation) (w : World) : Action → Option World
  | .start p kind =>
    match (w.requests p).pc with
    | .idle => some { w with requests := Function.update w.requests p (.start kind) }
    | _ => none
  | .resume p ev => ((w.turn p).resume rot w.now p ev).map (w.put p)
  | .admin op => some { w with table := op.apply rot.pyFloat w.now w.table }
  | .tick d => some { w with now := w.now + d }

@[simp] theorem turn_table (w : World) (p : ℕ) : (w.turn p).table = w.table := rfl
@[simp] theorem turn_manager (w : World) (p : ℕ) : (w.turn p).manager = w.manager := rfl
@[simp] theorem turn_request (w : World) (p : ℕ) : (w.turn p).request = w.requests p := rfl

@[simp] theorem put_table (w : World) (p : ℕ) (x : Turn) : (w.put p x).table = x.table := rfl
@[simp] theorem put_manager (w : World) (p : ℕ) (x : Turn) : (w.put p x).manager = x.manager := rfl

@[simp] theorem put_requests_self (w : World) (p : ℕ) (x : Turn) :
    (w.put p x).requests p = x.request := by
  simp [put]

@[simp] theorem put_turn_self (w : World) (p : ℕ) (x : Turn) : (w.put p x).turn p = x := by
  simp [turn]

theorem put_requests_of_ne (w : World) {p r : ℕ} (h : r ≠ p) (x : Turn) :
    (w.put p x).requests r = w.requests r := by
  simp [put, h]

end World

/-! ### A pool to run on -/

namespace Sample

/-- `float` on the header values of the sample replies. -/
def float (s : String) : Option PyFloat :=
  if s = "1" then some (.finite 1) else if s = "60" then some (.finite 60) else none

def rotation : Rotation := ⟨some, 0, float⟩

def key (name : String) : ApiKey := .new name name name none 0

/-- Keys 1 and 2, both active. -/
def pool : KeyTable := (Table.empty.insert (key "a")).insert (key "b")

def response (statusCode : ℕ) : Response := ⟨statusCode, [], "{}", .ok (.dict [])⟩

def reply (statusCode : ℕ) : Upstream := .response (response statusCode)

def chat : Kind := .chat (some "llama") false

/-- Request `p`'s next `n` awaits return. -/
def oks (p n : ℕ) : List Action := List.replicate n (.resume p .ok)

end Sample

end OllamaProxy
