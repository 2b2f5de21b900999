/-
# A rotation with the pool to itself

A chat request runs while no other request is in progress, every await
returns, and each key keeps giving one outcome (`Alone`, `SoloEvent`). Each
turn then keeps the forecast and comes closer to the answer (`Alone.turn`), and
the request is never stuck (`Alone.exists_turn`). So it ends, and its answer is
an upstream 2xx exactly if the forecast is a key with that outcome; the laps of
`Lib.RoundRobin` say which key that is (`rotation_delivers_iff`).

Key definitions: `Turn.Fated`, `Turn.Alone`, `World.Solo`, `World.endingKey`.
Key theorems: `Turn.Alone.turn`, `World.exists_solo_run`,
`World.rotation_delivers_iff`.
-/
import OllamaProxy.Forecast

namespace OllamaProxy

open Kit RoundRobin

/-! ### One turn -/

/-- The answer is an upstream 2xx answer that the request got. -/
def Request.Delivered (stream : Bool) (q : Request) (answer : Answer) : Prop :=
  ∃ id r, (id, .response r) ∈ q.answered ∧ r.isSuccess = true ∧ answer = upstreamAnswer r stream

namespace Turn

section

variable (rot : Rotation) (requestedModel : Option String) (stream : Bool) (outcome : ℕ → Outcome)
  (B : Option ℕ)

/-- What the recorder's caller returns fits the forecast `B`. -/
inductive Settles (x : Turn) (copy : Copy) : Return → Prop
  | delivers (r : Response) (hr : r.isSuccess = true) (hmem : (copy.id, .response r) ∈ x.request.answered)
    (hout : outcome copy.id = .success) (hB : B = some copy.id) : Settles x copy (delivered r)
  | rotates (hint : Bool)
    (hB : B = forecast outcome x.request.left (ids x.table) x.manager.nextIdx) :
    Settles x copy (rotateTo hint)

/-- The forecast of the state is `B`. -/
inductive Fated (x : Turn) : Prop
  | count (hpc : x.request.pc = .count) (hlock : x.manager.lock = none)
    (hB : B = forecast outcome (maxIter rot (countActive x.table)) (ids x.table) x.manager.nextIdx)
  | lock (hpc : x.request.pc = .lock) (hlock : x.manager.lock = none)
    (hB : B = forecast outcome (x.request.left + 1) (ids x.table) x.manager.nextIdx)
  | load (hpc : x.request.pc = .load)
    (hB : B = forecast outcome (x.request.left + 1) (ids x.table) x.manager.nextIdx)
  | upstream (rawKey : String) (copy : Copy) (hpc : x.request.pc = .upstream rawKey)
    (hlock : x.manager.lock = none) (hkey : x.request.key = some copy)
    (hact : HasStatus x.table copy.id .active) (hopen : outcome copy.id ≠ .undecryptable)
    (hB : B = forecastAt outcome copy.id x.request.left (ids x.table) x.manager.nextIdx)
  | commit (rec : Recorder) (ret : Return) (copy : Copy) (u : Upstream)
    (hpc : x.request.pc = .commit rec ret) (hlock : x.manager.lock = none)
    (hkey : x.request.key = some copy) (hact : HasStatus x.table copy.id .active)
    (hmem : (copy.id, u) ∈ x.request.answered) (hrec : Reports copy.row u (outcome copy.id) rec ret)
    (hB : B = forecastAt outcome copy.id x.request.left (ids x.table) x.manager.nextIdx)
  | refresh (ret : Return) (copy : Copy) (hpc : x.request.pc = .refresh ret)
    (hlock : x.manager.lock = none) (hkey : x.request.key = some copy)
    (hrow : (x.table.get? copy.id).isSome = true) (hret : Settles outcome B x copy ret)
  | done (answer : Answer) (hpc : x.request.pc = .done answer)
    (hB : x.request.Delivered stream answer ↔ ∃ id, B = some id ∧ outcome id = .success)

/-- A chat request that has the pool to itself. -/
structure Alone (x : Turn) : Prop where
  sound : x.request.Sound
  kind : x.request.kind = .chat requestedModel stream
  inFlight : x.manager.inFlight = x.request.reserved.toFinset
  vault : ∀ id row, x.table.get? id = some row →
    (rot.vault row.keyEncrypted = none ↔ outcome id = .undecryptable)
  copies : ∀ copy, x.request.key = some copy → copy.expired = false →
    ∀ row, x.table.get? copy.id = some row →
      copy.row.keyEncrypted = row.keyEncrypted ∧ (row.status = .active → copy.row.status = .active)
  stopper : ∃ id, HasStatus x.table id .active ∧ (outcome id).stops = true
  fated : Fated rot stream outcome B x

/-- Every await returns, and a key gives its outcome. -/
def SoloEvent (now : ℤ) (x : Turn) (ev : Event) : Prop :=
  match x.request.pc with
  | .upstream _ => ∃ u copy, ev = .answer u ∧ x.request.key = some copy ∧
      outcomeOf rot stream now copy.row u = outcome copy.id
  | _ => ev = .ok

end

/-- The turns left before the answer, at most. -/
def turnsLeft (rot : Rotation) (x : Turn) : ℕ :=
  match x.request.pc with
  | .count => 5 * maxIter rot (countActive x.table) + 1
  | .lock => 5 * x.request.left + 5
  | .load => 5 * x.request.left + 4
  | .upstream _ => 5 * x.request.left + 3
  | .commit _ _ => 5 * x.request.left + 2
  | .refresh _ => 5 * x.request.left + 1
  | _ => 0

variable {rot : Rotation} {requestedModel : Option String} {stream : Bool} {outcome : ℕ → Outcome}
  {B : Option ℕ} {now : ℤ} {p : ℕ} {x x' : Turn} {ev : Event}

/-- At the head of the loop. -/
theorem fated_nextIteration {t : KeyTable} {m : KeyManager} {q : Request}
    (hB : B = forecast outcome q.left (ids t) m.nextIdx) (hlock : m.lock = none)
    (hkind : q.kind = .chat requestedModel stream) :
    Fated rot stream outcome B ⟨t, m, q.nextIteration⟩ ∧
      turnsLeft rot ⟨t, m, q.nextIteration⟩ ≤ 5 * q.left := by
  cases hleft : q.left with
  | zero =>
    have hend : q.nextIteration = q.stop (verdict requestedModel q.initialCount q.anyAttempt q.all404) := by
      simp [Request.nextIteration, hleft, Request.giveUp, hkind]
    rw [hleft] at hB
    rw [hend]
    refine ⟨.done _ rfl ⟨?_, ?_⟩, Nat.zero_le _⟩
    · rintro ⟨id, r, -, -, hanswer⟩
      obtain ⟨statusCode, detail, hproxy⟩ :=
        verdict_eq_proxy requestedModel q.initialCount q.anyAttempt q.all404
      rw [hproxy] at hanswer
      cases hanswer
    · rintro ⟨id, hid, -⟩
      rw [hB] at hid
      cases hid
  | succ left =>
    have hnext : q.nextIteration = { q with left := left, pc := .lock } := by
      simp [Request.nextIteration, hleft]
    rw [hleft] at hB
    rw [hnext]
    exact ⟨.lock rfl hlock hB, by simp only [turnsLeft]; omega⟩

/-- Once the outcome is recorded. -/
theorem fated_returned {t : KeyTable} {m : KeyManager} {q : Request} {copy : Copy} {ret : Return}
    (hret : Settles outcome B ⟨t, m, q⟩ copy ret) (hlock : m.lock = none)
    (hkind : q.kind = .chat requestedModel stream) :
    Fated rot stream outcome B ⟨t, m, q.returned ret⟩ ∧
      turnsLeft rot ⟨t, m, q.returned ret⟩ ≤ 5 * q.left := by
  cases hret with
  | delivers r hr hmem hout hB =>
    have hpc : (q.returned (delivered r)).pc = .done (upstreamAnswer r stream) :=
      Request.returned_delivered ⟨requestedModel, hkind⟩
    have hanswered := (q.returned_rests (delivered r)).answered
    refine ⟨.done _ hpc (iff_of_true ⟨copy.id, r, ?_, hr, rfl⟩ ⟨copy.id, hB, hout⟩), ?_⟩
    · show (copy.id, .response r) ∈ (q.returned (delivered r)).answered
      rw [hanswered]
      exact hmem
    · simp only [turnsLeft, hpc]
      exact Nat.zero_le _
  | rotates hint hB =>
    have hrot : q.returned (rotateTo hint) = { q with all404 := q.all404 && hint }.nextIteration := rfl
    rw [hrot]
    exact fated_nextIteration (q := { q with all404 := q.all404 && hint }) hB hlock hkind

/-! What the moves of a request on its own keep. -/

theorem Fated.not_reactivate (h : Fated rot stream outcome B x) (updateNow : ℤ) :
    x.request.pc ≠ .reactivate updateNow := by
  intro hc
  cases h with
  | count hpc | lock hpc | load hpc | upstream _ _ hpc | commit _ _ _ _ hpc | refresh _ _ hpc
  | done _ hpc => rw [hc] at hpc; cases hpc

/-- At a commit the outcome of the key is being recorded. -/
theorem Fated.of_commit (h : Fated rot stream outcome B x) {rec : Recorder} {ret : Return} {copy : Copy}
    (hpc : x.request.pc = .commit rec ret) (hkey : x.request.key = some copy) :
    HasStatus x.table copy.id .active ∧ ∃ u, Reports copy.row u (outcome copy.id) rec ret := by
  cases h with
  | commit rec' ret' copy' u hpc' hlock hkey' hact hmem hrec =>
    cases hpc.symm.trans hpc'
    cases hkey.symm.trans hkey'
    exact ⟨hact, u, hrec⟩
  | count hpc' | lock hpc' | load hpc' | upstream _ _ hpc' | refresh _ _ hpc' | done _ hpc' =>
    cases hpc.symm.trans hpc'

theorem Fated.of_done (h : Fated rot stream outcome B x) {answer : Answer}
    (hpc : x.request.pc = .done answer) :
    x.request.Delivered stream answer ↔ ∃ id, B = some id ∧ outcome id = .success := by
  cases h with
  | done answer' hpc' hB =>
    cases hpc.symm.trans hpc'
    exact hB
  | count hpc' | lock hpc' | load hpc' | upstream _ _ hpc' | commit _ _ _ _ hpc' | refresh _ _ hpc' =>
    cases hpc.symm.trans hpc'

/-- No row appears, no encrypted key changes, and no key becomes active. -/
theorem Alone.rows (hx : Alone rot requestedModel stream outcome B x) (h : Move rot now p x ev x')
    {i : ℕ} {row' : ApiKey} (hrow' : x'.table.get? i = some row') :
    ∃ row, x.table.get? i = some row ∧ row'.keyEncrypted = row.keyEncrypted ∧
      (row'.status = .active → row.status = .active) := by
  cases h.writes with
  | nothing ht => exact ⟨row', ht ▸ hrow', rfl, fun h => h⟩
  | reactivation updateNow hpc ht => exact absurd hpc (hx.fated.not_reactivate updateNow)
  | commit rec ret copy hpc hkey ht =>
    rw [Recorder.commit_get? ht] at hrow'
    split_ifs at hrow' with hi
    · obtain ⟨row, hrow, rfl⟩ := Option.map_eq_some_iff.mp hrow'
      refine ⟨row, hrow, rec.write_keyEncrypted copy.row row, fun _ => ?_⟩
      obtain ⟨hact, -⟩ := hx.fated.of_commit hpc hkey
      obtain ⟨row0, hrow0, hact0⟩ := hasStatus_iff.mp hact
      rw [← hi] at hrow0
      cases hrow.symm.trans hrow0
      exact hact0
    · exact ⟨row', hrow', rfl, fun h => h⟩

theorem Alone.copies_turn (hx : Alone rot requestedModel stream outcome B x)
    (h : Move rot now p x ev x') {copy : Copy} (hkey : x'.request.key = some copy)
    (hexp : copy.expired = false) {row' : ApiKey} (hrow' : x'.table.get? copy.id = some row') :
    copy.row.keyEncrypted = row'.keyEncrypted ∧ (row'.status = .active → copy.row.status = .active) := by
  rcases h.derived hkey hexp with ⟨old, hold, hoexp, hoid, hos, hoenc⟩ | hrow
  · obtain ⟨row, hrow, henc, hact⟩ := hx.rows h hrow'
    obtain ⟨hc1, hc2⟩ := hx.copies old hold hoexp row (by rw [hoid]; exact hrow)
    exact ⟨by rw [← hoenc, hc1, henc], fun h => by rw [← hos]; exact hc2 (hact h)⟩
  · cases hrow.symm.trans hrow'
    exact ⟨rfl, fun h => h⟩

theorem Alone.inFlight_turn (hx : Alone rot requestedModel stream outcome B x)
    (h : Move rot now p x ev x') : x'.manager.inFlight = x'.request.reserved.toFinset := by
  have hin := hx.inFlight
  cases h.reserves hx.sound with
  | keeps hr hf => rw [hr, hf, hin]
  | takes id hfree hr hr' hf =>
    rw [hf, hin, hr, hr']
    rfl
  | returns id hr hr' hf =>
    rw [hf, hin, hr, hr']
    simp

/-- What the commit of an outcome does to the list of active keys. -/
theorem Alone.ids_commit (hx : Alone rot requestedModel stream outcome B x) {rec : Recorder}
    {ret : Return} {copy : Copy} {u : Upstream} {t : KeyTable} (hpc : x.request.pc = .commit rec ret)
    (hkey : x.request.key = some copy) (hact : HasStatus x.table copy.id .active)
    (hrec : Reports copy.row u (outcome copy.id) rec ret)
    (hcommit : rec.commit copy.id copy.row x.table = some t) :
    ids t = if (outcome copy.id).drops then (ids x.table).erase copy.id else ids x.table := by
  obtain ⟨row, hrow, hs⟩ := hasStatus_iff.mp hact
  obtain ⟨copy', hkey', hexp, -⟩ := hx.sound.held (by rw [hpc]; rfl)
  cases hkey.symm.trans hkey'
  have hcopy := (hx.copies copy hkey hexp row hrow).2 hs
  exact hrec.ids_commit hcommit hrow hs hcopy

theorem Outcome.drops_of_stops {o : Outcome} (h : o.stops = true) : o.drops = false := by
  cases o <;> first | rfl | cases h

/-- A key that ends the loop stays active. -/
theorem Alone.stopper_turn (hx : Alone rot requestedModel stream outcome B x)
    (h : Move rot now p x ev x') : ∃ id, HasStatus x'.table id .active ∧ (outcome id).stops = true := by
  obtain ⟨id, hact, hstops⟩ := hx.stopper
  refine ⟨id, ?_, hstops⟩
  cases h.writes with
  | nothing ht => rw [ht]; exact hact
  | reactivation updateNow hpc ht => exact absurd hpc (hx.fated.not_reactivate updateNow)
  | commit rec ret copy hpc hkey ht =>
    obtain ⟨hcopy, u, hrec⟩ := hx.fated.of_commit hpc hkey
    rw [← mem_ids, hx.ids_commit hpc hkey hcopy hrec ht]
    split_ifs with hd
    · have hne : id ≠ copy.id := fun he => by
        rw [← he, Outcome.drops_of_stops hstops] at hd
        cases hd
      exact (ids_nodup _).mem_erase_iff.mpr ⟨hne, mem_ids.mpr hact⟩
    · exact mem_ids.mpr hact

/-! The turns of the loop, from one await to the next. -/

/-- A turn that keeps the forecast and comes closer to the answer. -/
def Goes (rot : Rotation) (stream : Bool) (outcome : ℕ → Outcome) (B : Option ℕ) (x x' : Turn) : Prop :=
  Fated rot stream outcome B x' ∧ turnsLeft rot x' < turnsLeft rot x

theorem Alone.goes_count (hx : Alone rot requestedModel stream outcome B x)
    (hpc : x.request.pc = .count) (hlock : x.manager.lock = none)
    (hB : B = forecast outcome (maxIter rot (countActive x.table)) (ids x.table) x.manager.nextIdx)
    (h : x.onCount rot .ok = some x') : Goes rot stream outcome B x x' := by
  cases h
  have hnext : Fated rot stream outcome B _ ∧ _ := fated_nextIteration (q := { x.request with
    initialCount := countActive x.table, left := maxIter rot (countActive x.table) }) hB hlock hx.kind
  refine ⟨hnext.1, lt_of_le_of_lt hnext.2 ?_⟩
  simp only [turnsLeft, hpc]
  omega

theorem goes_lock (hpc : x.request.pc = .lock) (hlock : x.manager.lock = none)
    (hB : B = forecast outcome (x.request.left + 1) (ids x.table) x.manager.nextIdx)
    (h : x.onLock p .ok = some x') : Goes rot stream outcome B x x' := by
  simp only [onLock, if_pos hlock, Option.some.injEq] at h
  subst h
  refine ⟨.load rfl hB, ?_⟩
  simp only [turnsLeft, hpc]
  omega

/-- With nothing in flight, the selection finds the key at the pointer. -/
theorem Alone.choose_eq (hx : Alone rot requestedModel stream outcome B x) (hpc : x.request.pc = .load) :
    ∃ id row, (ids x.table)[x.manager.nextIdx % (ids x.table).length]? = some id ∧
      x.table.get? id = some row ∧ row.status = .active ∧
      x.manager.choose (loadActive x.table) = (some (id, row), { x.manager with
        inFlight := {id}
        nextIdx := (x.manager.nextIdx + 1) % (ids x.table).length }) := by
  have hfree : x.manager.inFlight = ∅ := by
    rw [hx.inFlight, hx.sound.free (by rw [hpc]; rfl) (by rw [hpc]; rfl)]
    rfl
  have hlen : (ids x.table).length = (loadActive x.table).length := length_ids x.table
  obtain ⟨stopper, hact, -⟩ := hx.stopper
  have hpos : 0 < (loadActive x.table).length := by
    rw [← hlen]
    exact List.length_pos_of_mem (mem_ids.mpr hact)
  have hlt : x.manager.nextIdx % (loadActive x.table).length < (loadActive x.table).length :=
    Nat.mod_lt _ hpos
  obtain ⟨⟨id, row⟩, hget⟩ : ∃ k, (loadActive x.table)[x.manager.nextIdx % (loadActive x.table).length]? = some k :=
    ⟨_, List.getElem?_eq_getElem hlt⟩
  obtain ⟨hrow, hs⟩ := mem_loadActive.mp (List.mem_of_getElem? hget)
  refine ⟨id, row, ?_, hrow, hs, ?_⟩
  · rw [hlen, ids, List.getElem?_map, hget]
    rfl
  · rw [choose_alone hfree hget, hlen]

theorem Alone.copyOf_keyEncrypted (hx : Alone rot requestedModel stream outcome B x) {id : ℕ}
    {row : ApiKey} (hrow : x.table.get? id = some row) :
    (x.request.copyOf id row).row.keyEncrypted = row.keyEncrypted := by
  rcases derived_copyOf hrow with ⟨old, hold, hexp, hid, -, henc⟩ | hc
  · rw [x.request.copyOf_id] at hid
    rw [← henc]
    exact (hx.copies old hold hexp row (by rw [hid]; exact hrow)).1
  · rw [x.request.copyOf_id] at hc
    rw [Option.some.inj (hc.symm.trans hrow)]

theorem Alone.goes_load (hx : Alone rot requestedModel stream outcome B x)
    (hpc : x.request.pc = .load)
    (hB : B = forecast outcome (x.request.left + 1) (ids x.table) x.manager.nextIdx)
    (h : x.onLoad rot now .ok = some x') : Goes rot stream outcome B x x' := by
  obtain ⟨id, row, hget, hrow, hs, hchoose⟩ := hx.choose_eq hpc
  have henc := hx.copyOf_keyEncrypted hrow
  have hvault := hx.vault id row hrow
  have hmem : (id, row) ∈ loadActive x.table := mem_loadActive.mpr ⟨hrow, hs⟩
  rw [forecast_succ (ids_nodup _) hget] at hB
  have hm := onLoad_move hpc h
  cases hm with
  | emptied hpc' hempty =>
    rw [hempty] at hmem
    cases hmem
  | reactivated updateNow hpc' => cases hpc.symm.trans hpc'
  | left answer t hpc' hev ht ha => cases hev
  | missed hpc' hall =>
    have hnone := choose_eq_none_iff.mpr hall
    rw [hchoose] at hnone
    cases hnone
  | skipped id' row' m hpc' hchoose' hvault' =>
    cases hchoose.symm.trans hchoose'
    rw [henc] at hvault'
    have hout := hvault.mp hvault'
    have hB' : B = forecast outcome x.request.left (ids x.table)
        ((x.manager.nextIdx + 1) % (ids x.table).length) := by
      simpa [forecastAt, hout, Outcome.stops, Outcome.drops] using hB
    have hret : x.request.undecryptable = rotateTo false := by simp [Request.undecryptable, hx.kind]
    rw [hret]
    have hsettles : Settles outcome B
        ⟨x.table, { x.manager with
            lock := none
            nextIdx := (x.manager.nextIdx + 1) % (ids x.table).length },
          { x.picked id row with reserved := none }⟩ (x.request.copyOf id row) (rotateTo false) :=
      .rotates false hB'
    have hgo : Fated rot stream outcome B _ ∧ _ := fated_returned hsettles rfl hx.kind
    refine ⟨hgo.1, lt_of_le_of_lt hgo.2 ?_⟩
    simp only [turnsLeft, hpc, picked]
    omega
  | attempted id' row' m rawKey hpc' hchoose' hvault' =>
    cases hchoose.symm.trans hchoose'
    have hid := x.request.copyOf_id id row
    have hact : HasStatus x.table (x.request.copyOf id row).id .active := by
      rw [hid]
      exact hasStatus_iff.mpr ⟨row, hrow, hs⟩
    have hopen : outcome id ≠ .undecryptable := fun hout => by
      rw [henc, hvault.mpr hout] at hvault'
      cases hvault'
    refine ⟨.upstream rawKey (x.request.copyOf id row) rfl rfl rfl hact ?_ ?_, ?_⟩
    · rw [hid]
      exact hopen
    · rw [hid]
      exact hB
    · simp only [turnsLeft, hpc, picked]
      omega

theorem Alone.goes_upstream (hx : Alone rot requestedModel stream outcome B x) {rawKey : String}
    {copy : Copy} (hpc : x.request.pc = .upstream rawKey) (hlock : x.manager.lock = none)
    (hkey : x.request.key = some copy) (hact : HasStatus x.table copy.id .active)
    (hB : B = forecastAt outcome copy.id x.request.left (ids x.table) x.manager.nextIdx) {u : Upstream}
    (hout : outcomeOf rot stream now copy.row u = outcome copy.id)
    (h : x.onUpstream rot now (.answer u) = some x') : Goes rot stream outcome B x x' := by
  obtain ⟨copy', hkey', hexp, -⟩ := hx.sound.held (by rw [hpc]; rfl)
  cases hkey.symm.trans hkey'
  have hdisp : x.request.dispatch rot now u = dispatchOne rot stream now u := by
    simp [Request.dispatch, hx.kind]
  have hmem : (copy.id, u) ∈ (x.heard copy u).answered :=
    List.mem_append_right _ (List.mem_singleton_self _)
  have hturns : turnsLeft rot x = 5 * x.request.left + 3 := by simp only [turnsLeft, hpc]
  have hreports := dispatchOne_reports rot stream now copy.row u
  rw [hout, ← hdisp] at hreports
  have hstops : (outcome copy.id).stops = true → B = some copy.id := fun hs => by
    rw [hB, forecastAt, if_pos hs]
  -- a fault ends the request without a 2xx answer
  have hfault : outcome copy.id = .fault → ∀ {q : Request} {answer : Answer}, (∀ r, r.isSuccess = true →
      answer ≠ upstreamAnswer r stream) →
      Goes rot stream outcome B x ⟨x.table, x.manager.release copy.id, q.stop answer⟩ := by
    intro hf q answer hanswer
    refine ⟨.done answer rfl (iff_of_false ?_ ?_), ?_⟩
    · rintro ⟨id, r, -, hr, ha⟩
      exact hanswer r hr ha
    · rintro ⟨id, hid, hs⟩
      cases (hstops (by rw [hf]; rfl)).symm.trans hid
      rw [hf] at hs
      cases hs
    · rw [hturns]
      exact Nat.succ_pos _
  cases onUpstream_move hkey hexp h with
  | answered u' rec ret hd =>
    rcases hreports with ⟨rec', ret', hd', hrec⟩ | ⟨-, hd'⟩ | ⟨-, ⟨e, hd'⟩ | ⟨r, -, hd'⟩⟩ <;>
      cases hd.symm.trans hd'
    refine ⟨.commit rec ret copy u rfl hlock hkey hact hmem hrec hB, ?_⟩
    rw [hturns]
    simp only [turnsLeft, heard]
    omega
  | unrecorded u' ret hd =>
    rcases hreports with ⟨rec', ret', hd', hrec⟩ | ⟨hnot, hd'⟩ | ⟨hf, ⟨e, hd'⟩ | ⟨r, hr, hd'⟩⟩ <;>
      cases hd.symm.trans hd'
    · have hB' : B = forecast outcome x.request.left (ids x.table) x.manager.nextIdx := by
        simpa [forecastAt, hnot, Outcome.stops, Outcome.drops] using hB
      have hsettles : Settles outcome B ⟨x.table, x.manager.release copy.id,
          { x.heard copy u with reserved := none }⟩ copy (rotateTo true) := .rotates true hB'
      have hgo : Fated rot stream outcome B _ ∧ _ := fated_returned hsettles hlock hx.kind
      refine ⟨hgo.1, lt_of_le_of_lt hgo.2 ?_⟩
      rw [hturns]
      simp only [heard]
      omega
    · refine hfault hf fun r' hr' ha => ?_
      have hcode : r.statusCode = r'.statusCode := by
        have hc := Answer.upstream.inj ha
        exact congrArg ClientResponse.statusCode hc
      rw [Response.isSuccess, ← hcode, ← Response.isSuccess, hr] at hr'
      cases hr'
  | unread u' e hd =>
    rcases hreports with ⟨rec', ret', hd', hrec⟩ | ⟨-, hd'⟩ | ⟨hf, -⟩
    · cases hd.symm.trans hd'
    · cases hd.symm.trans hd'
    · exact hfault hf fun r _ => Request.failed_ne_upstreamAnswer _ r stream

/-- After its commit, the outcome is settled. -/
theorem Alone.settles (hx : Alone rot requestedModel stream outcome B x) {rec : Recorder} {ret : Return}
    {copy : Copy} {u : Upstream} {t : KeyTable} {m : KeyManager} {q : Request}
    (hpc : x.request.pc = .commit rec ret) (hkey : x.request.key = some copy)
    (hact : HasStatus x.table copy.id .active) (hmem : (copy.id, u) ∈ x.request.answered)
    (hrec : Reports copy.row u (outcome copy.id) rec ret)
    (hB : B = forecastAt outcome copy.id x.request.left (ids x.table) x.manager.nextIdx)
    (hcommit : rec.commit copy.id copy.row x.table = some t) (hidx : m.nextIdx = x.manager.nextIdx)
    (hleft : q.left = x.request.left) (hanswered : q.answered = x.request.answered) :
    Settles outcome B ⟨t, m, q⟩ copy ret := by
  have hids := hx.ids_commit hpc hkey hact hrec hcommit
  have hrotates : (outcome copy.id).stops = false → Settles outcome B ⟨t, m, q⟩ copy (rotateTo false) := by
    intro hstops
    refine .rotates false ?_
    rw [hids, hleft, hidx, hB, forecastAt, hstops]
    rfl
  generalize hout : outcome copy.id = o at hrec hrotates
  cases hrec with
  | success r rec hu hr hl =>
    refine .delivers r hr ?_ hout ?_
    · rw [hanswered, ← hu]
      exact hmem
    · rw [hB, forecastAt, hout]
      rfl
  | keeps o v hdrops hstops hl => exact hrotates hstops
  | drops o v s hdrops hstops hv hs => exact hrotates hstops
  | overflows rec ret hover => cases (Recorder.commit_eq_some_iff.mp hcommit).1.symm.trans hover

theorem Alone.goes_commit (hx : Alone rot requestedModel stream outcome B x) {rec : Recorder}
    {ret : Return} {copy : Copy} {u : Upstream} (hpc : x.request.pc = .commit rec ret)
    (hlock : x.manager.lock = none) (hkey : x.request.key = some copy)
    (hact : HasStatus x.table copy.id .active) (hmem : (copy.id, u) ∈ x.request.answered)
    (hrec : Reports copy.row u (outcome copy.id) rec ret)
    (hB : B = forecastAt outcome copy.id x.request.left (ids x.table) x.manager.nextIdx)
    (h : x.onCommit rec ret .ok = some x') : Goes rot stream outcome B x x' := by
  obtain ⟨copy', hkey', hexp, -⟩ := hx.sound.held (by rw [hpc]; rfl)
  cases hkey.symm.trans hkey'
  obtain ⟨row, hrow, hs⟩ := hasStatus_iff.mp hact
  have hturns : turnsLeft rot x = 5 * x.request.left + 2 := by simp only [turnsLeft, hpc]
  cases onCommit_move hpc hkey hexp h with
  | recorded v ret' t hpc' hcommit =>
    cases hpc.symm.trans hpc'
    have hrow' : (t.get? copy.id).isSome = true := by
      rw [Recorder.commit_get? hcommit, if_pos rfl, hrow]
      rfl
    refine ⟨.refresh ret copy rfl hlock hkey hrow' ?_, ?_⟩
    · exact hx.settles hpc hkey hact hmem hrec hB hcommit rfl rfl rfl
    · rw [hturns]
      simp only [turnsLeft]
      omega
  | recordedUsage c ret' t hpc' hcommit =>
    cases hpc.symm.trans hpc'
    have hret : Settles outcome B ⟨t, x.manager.release copy.id, { x.request with
        key := some { copy with row := c.touch copy.row }
        reserved := none }⟩ copy ret :=
      hx.settles hpc hkey hact hmem hrec hB hcommit rfl rfl rfl
    have hgo : Fated rot stream outcome B _ ∧ _ := fated_returned hret hlock hx.kind
    refine ⟨hgo.1, lt_of_le_of_lt hgo.2 ?_⟩
    rw [hturns]
    show 5 * x.request.left < _
    omega
  | refreshed ret' row' hpc' hrow' => cases hpc.symm.trans hpc'
  | leaked t hev ht =>
    -- the row is there, so that a count is no integer of SQLite
    have hover : rec.fits copy.row = false := by
      by_contra hfits
      rw [Bool.not_eq_false] at hfits
      simp [expires, hpc, Recorder.commit_eq_some hfits hrow] at hev
    have hfault : outcome copy.id = .fault := hrec.fault hover
    refine ⟨.done _ rfl (iff_of_false ?_ ?_), ?_⟩
    · rintro ⟨id, r, -, -, hanswer⟩
      exact Request.failed_ne_upstreamAnswer _ r stream hanswer
    · rintro ⟨id, hid, hs⟩
      rw [hB, forecastAt, hfault] at hid
      cases hid
      rw [hfault] at hs
      cases hs
    · rw [hturns]
      exact Nat.succ_pos _

theorem Alone.goes_refresh (hx : Alone rot requestedModel stream outcome B x) {ret : Return}
    {copy : Copy} (hpc : x.request.pc = .refresh ret) (hlock : x.manager.lock = none)
    (hkey : x.request.key = some copy) (hrow : (x.table.get? copy.id).isSome = true)
    (hret : Settles outcome B x copy ret) (h : x.onRefresh ret .ok = some x') :
    Goes rot stream outcome B x x' := by
  have hturns : turnsLeft rot x = 5 * x.request.left + 1 := by simp only [turnsLeft, hpc]
  cases onRefresh_move hpc hkey h with
  | recorded v ret' t hpc' hcommit => cases hpc.symm.trans hpc'
  | recordedUsage c ret' t hpc' hcommit => cases hpc.symm.trans hpc'
  | refreshed ret' row hpc' hrow' =>
    cases hpc.symm.trans hpc'
    have hret' : Settles outcome B ⟨x.table, x.manager.release copy.id,
        { x.request with key := some ⟨copy.id, row, false⟩, reserved := none }⟩ copy ret := by
      cases hret with
      | delivers r hr hmem hout hB => exact .delivers r hr hmem hout hB
      | rotates hint hB => exact .rotates hint hB
    have hgo : Fated rot stream outcome B _ ∧ _ := fated_returned hret' hlock hx.kind
    refine ⟨hgo.1, lt_of_le_of_lt hgo.2 ?_⟩
    rw [hturns]
    show 5 * x.request.left < _
    omega
  | leaked t hev ht =>
    obtain ⟨row, hr⟩ := Option.isSome_iff_exists.mp hrow
    simp [expires, hpc, hr] at hev

/-- One turn of a request on its own. -/
theorem Alone.turn (hx : Alone rot requestedModel stream outcome B x)
    (hev : SoloEvent rot stream outcome now x ev) (h : x.resume rot now p ev = some x') :
    Alone rot requestedModel stream outcome B x' ∧ turnsLeft rot x' < turnsLeft rot x := by
  have hm := resume_move hx.sound h
  have hgoes : Goes rot stream outcome B x x' := by
    unfold SoloEvent at hev
    unfold resume at h
    cases hx.fated with
    | count hpc hlock hB =>
      rw [hpc] at h hev
      subst hev
      exact hx.goes_count hpc hlock hB h
    | lock hpc hlock hB =>
      rw [hpc] at h hev
      subst hev
      exact goes_lock hpc hlock hB h
    | load hpc hB =>
      rw [hpc] at h hev
      subst hev
      exact hx.goes_load hpc hB h
    | upstream rawKey copy hpc hlock hkey hact hopen hB =>
      rw [hpc] at h hev
      obtain ⟨u, copy', rfl, hkey', hout⟩ := hev
      cases hkey.symm.trans hkey'
      exact hx.goes_upstream hpc hlock hkey hact hB hout h
    | commit rec ret copy u hpc hlock hkey hact hmem hrec hB =>
      rw [hpc] at h hev
      subst hev
      exact hx.goes_commit hpc hlock hkey hact hmem hrec hB h
    | refresh ret copy hpc hlock hkey hrow hret =>
      rw [hpc] at h hev
      subst hev
      exact hx.goes_refresh hpc hlock hkey hrow hret h
    | done answer hpc hB =>
      rw [hpc] at h
      cases h
  refine ⟨⟨hm.sound hx.sound, hm.remembers.kind.trans hx.kind, hx.inFlight_turn hm, fun i row' hrow' => ?_,
    fun copy hkey hexp row' hrow' => hx.copies_turn hm hkey hexp hrow', hx.stopper_turn hm, hgoes.1⟩, hgoes.2⟩
  obtain ⟨row, hrow, henc, -⟩ := hx.rows hm hrow'
  rw [henc]
  exact hx.vault i row hrow

/-- A request on its own is never stuck. -/
theorem Alone.exists_turn (hx : Alone rot requestedModel stream outcome B x)
    (hdone : x.request.pc.isDone = false)
    (hup : ∀ id copy, outcome id ≠ .undecryptable → ∃ u, outcomeOf rot stream now copy u = outcome id) (p : ℕ) :
    ∃ ev x', SoloEvent rot stream outcome now x ev ∧ x.resume rot now p ev = some x' := by
  unfold SoloEvent resume
  cases hx.fated with
  | count hpc hlock hB =>
    rw [hpc]
    exact ⟨.ok, _, rfl, rfl⟩
  | lock hpc hlock hB =>
    rw [hpc]
    exact ⟨.ok, _, rfl, if_pos hlock⟩
  | load hpc hB =>
    rw [hpc]
    obtain ⟨x', hx'⟩ : ∃ x', x.onLoad rot now .ok = some x' := by
      simp only [onLoad]
      split_ifs <;> exact ⟨_, rfl⟩
    exact ⟨.ok, x', rfl, hx'⟩
  | upstream rawKey copy hpc hlock hkey hact hopen hB =>
    rw [hpc]
    obtain ⟨u, hu⟩ := hup copy.id copy.row hopen
    refine ⟨.answer u, ?_⟩
    simp only [onUpstream]
    split <;> exact ⟨_, ⟨u, copy, rfl, hkey, hu⟩, rfl⟩
  | commit rec ret copy u hpc hlock hkey hact hmem hrec hB =>
    rw [hpc]
    obtain ⟨x', hx'⟩ : ∃ x', x.onCommit rec ret .ok = some x' := by
      simp only [onCommit, hkey, Option.map_some]
      exact ⟨_, rfl⟩
    exact ⟨.ok, x', rfl, hx'⟩
  | refresh ret copy hpc hlock hkey hrow hret =>
    rw [hpc]
    obtain ⟨x', hx'⟩ : ∃ x', x.onRefresh ret .ok = some x' := by
      simp only [onRefresh, hkey, Option.map_some]
      exact ⟨_, rfl⟩
    exact ⟨.ok, x', rfl, hx'⟩
  | done answer hpc hB =>
    rw [hpc] at hdone
    cases hdone

/-- The request waits for its upstream answer. -/
def isCalling (x : Turn) : Bool :=
  match x.request.pc with
  | .upstream _ => true
  | _ => false

instance decidableSoloEvent (now : ℤ) (x : Turn) :
    DecidablePred (SoloEvent rot stream outcome now x)
  | .ok => decidable_of_iff (x.isCalling = false) (by
      unfold SoloEvent isCalling
      cases x.request.pc <;> simp)
  | .answer u => decidable_of_iff (x.isCalling = true ∧
        ∃ copy ∈ x.request.key, outcomeOf rot stream now copy.row u = outcome copy.id) (by
      unfold SoloEvent isCalling
      cases x.request.pc <;> simp [Option.mem_def])
  | .fail => isFalse (by unfold SoloEvent; cases x.request.pc <;> simp)
  | .cancel written expired => isFalse (by unfold SoloEvent; cases x.request.pc <;> simp)

end Turn

namespace World

variable {rot : Rotation} {requestedModel : Option String} {stream : Bool} {outcome : ℕ → Outcome}
  {B : Option ℕ} {p : ℕ} {w w' : World} {a : Action} {up : ℕ → Upstream}

/-- Chat request `p` has just started, and no key is reserved. -/
structure Opens (w : World) (p : ℕ) (requestedModel : Option String) (stream : Bool) : Prop where
  request : w.requests p = .start (.chat requestedModel stream)
  lock : w.manager.lock = none
  inFlight : w.manager.inFlight = ∅

/-- Only request `p` and the clock move, every await of the request returns,
and a key gives its outcome. -/
def Solo (rot : Rotation) (p : ℕ) (stream : Bool) (outcome : ℕ → Outcome) (w : World) : Action → Prop
  | .resume q ev => q = p ∧ Turn.SoloEvent rot stream outcome w.now (w.turn p) ev
  | .tick _ => True
  | _ => False

instance decidableSolo (w : World) : DecidablePred (Solo rot p stream outcome w)
  | .resume q ev =>
    inferInstanceAs (Decidable (q = p ∧ Turn.SoloEvent rot stream outcome w.now (w.turn p) ev))
  | .tick _ => isTrue trivial
  | .start _ _ => isFalse id
  | .admin _ => isFalse id

/-- What the keys come to whose upstream calls go as `up` says. -/
def outcomes (rot : Rotation) (stream : Bool) (up : ℕ → Upstream) (w : World) (id : ℕ) : Outcome :=
  match w.table.get? id with
  | none => .undecryptable
  | some row =>
    if (rot.vault row.keyEncrypted).isSome then outcomeOf rot stream w.now row (up id) else .undecryptable

/-- The key that ends the rotation: the first with such an outcome among the
keys that the laps from the pointer on try, as far as the iterations go. -/
def endingKey (rot : Rotation) (outcome : ℕ → Outcome) (w : World) : Option ℕ :=
  let k := maxIter rot (countActive w.table)
  let l := ids w.table
  ((lapsFrom (fun id => (outcome id).drops) k (w.manager.nextIdx % l.length) l).take k).find?
    fun id => (outcome id).stops

section

variable (rot : Rotation) (stream : Bool) (now : ℤ) (copy : ApiKey)

theorem outcomeOf_ne_undecryptable (u : Upstream) : outcomeOf rot stream now copy u ≠ .undecryptable := by
  unfold outcomeOf
  split
  · decide
  · decide
  · split_ifs
    · split
      · split_ifs <;> decide
      · decide
    all_goals first | decide | (split <;> decide)

/-- A 2xx answer ends the loop, whether its usage can be recorded or not. -/
theorem outcomeOf_success {r : Response} (hr : r.isSuccess = true) :
    outcomeOf rot stream now copy (.response r) = .success ∨ outcomeOf rot stream now copy (.response r) = .fault := by
  simp only [outcomeOf, hr, if_true]
  split
  · split_ifs
    · exact Or.inl rfl
    · exact Or.inr rfl
  · exact Or.inr rfl

/-- A 2xx answer without a usage, whatever the row. -/
theorem exists_outcomeOf_success : ∃ u, outcomeOf rot stream now copy u = .success := by
  refine ⟨.response ⟨200, [], "", .ok (.dict [])⟩, ?_⟩
  cases stream <;> rfl

/-- Some answer comes to the same outcome with another copy of the row. -/
theorem exists_outcomeOf (copy' : ApiKey) (u : Upstream) :
    ∃ u', outcomeOf rot stream now copy' u' = outcomeOf rot stream now copy u := by
  cases u with
  | transport => exact ⟨.transport, rfl⟩
  | raised => exact ⟨.raised, rfl⟩
  | response r =>
    cases hr : r.isSuccess with
    | true =>
      rcases outcomeOf_success rot stream now copy hr with h | h
      · rw [h]
        exact exists_outcomeOf_success rot stream now copy'
      · exact ⟨.raised, h.symm⟩
    | false => exact ⟨.response r, by simp only [outcomeOf, hr, Bool.false_eq_true, if_false]⟩

end

theorem outcomes_eq_undecryptable {id : ℕ} {row : ApiKey} (hrow : w.table.get? id = some row) :
    rot.vault row.keyEncrypted = none ↔ w.outcomes rot stream up id = .undecryptable := by
  unfold outcomes
  rw [hrow]
  cases hv : rot.vault row.keyEncrypted with
  | none => simp [hv]
  | some rawKey => simpa [hv] using outcomeOf_ne_undecryptable rot stream w.now row (up id)

theorem outcomes_eq_outcomeOf {id : ℕ} (h : w.outcomes rot stream up id ≠ .undecryptable) :
    ∃ row, w.outcomes rot stream up id = outcomeOf rot stream w.now row (up id) := by
  unfold outcomes at h ⊢
  split at h
  · exact absurd rfl h
  · split_ifs at h ⊢
    · exact ⟨_, rfl⟩
    · exact absurd rfl h

/-- A request that starts with the pool to itself. -/
theorem Opens.alone (hw : w.Opens p requestedModel stream)
    (hstop : ∃ id, HasStatus w.table id .active ∧ (w.outcomes rot stream up id).stops = true) :
    Turn.Alone rot requestedModel stream (w.outcomes rot stream up)
      (w.endingKey rot (w.outcomes rot stream up)) (w.turn p) := by
  have hreq : (w.turn p).request = .start (.chat requestedModel stream) := hw.request
  refine ⟨?_, ?_, ?_, fun id row hrow => outcomes_eq_undecryptable hrow, fun copy hkey => ?_, hstop, ?_⟩
  · rw [hreq]
    exact Request.Sound.start _
  · rw [hreq]
    rfl
  · rw [hreq]
    exact hw.inFlight
  · rw [hreq] at hkey
    cases hkey
  · refine .count (by rw [hreq]; rfl) hw.lock ?_
    unfold endingKey forecast
    rw [visits_eq_lapsFrom]
    rfl

theorem step_alone (hw : Turn.Alone rot requestedModel stream outcome B (w.turn p))
    (ha : w.Solo rot p stream outcome a) (h : w.step rot a = some w') :
    Turn.Alone rot requestedModel stream outcome B (w'.turn p) := by
  cases a with
  | resume q ev =>
    obtain ⟨rfl, hev⟩ := ha
    simp only [step, Option.map_eq_some_iff] at h
    obtain ⟨x', hx', rfl⟩ := h
    rw [put_turn_self]
    exact (hw.turn hev hx').1
  | tick d =>
    cases h
    exact hw
  | start q kind => cases ha
  | admin op => cases ha

theorem step_turnsLeft (hw : Turn.Alone rot requestedModel stream outcome B (w.turn p))
    (ha : w.Solo rot p stream outcome a) (h : w.step rot a = some w') :
    Turn.turnsLeft rot (w'.turn p) + (if a.isTurnOf p then 1 else 0) ≤ Turn.turnsLeft rot (w.turn p) := by
  cases a with
  | resume q ev =>
    obtain ⟨rfl, hev⟩ := ha
    simp only [step, Option.map_eq_some_iff] at h
    obtain ⟨x', hx', rfl⟩ := h
    have hturn : (Action.resume q ev).isTurnOf q = true := by simp [Action.isTurnOf]
    rw [put_turn_self, if_pos hturn]
    exact (hw.turn hev hx').2
  | tick d =>
    cases h
    exact le_rfl
  | start q kind => cases ha
  | admin op => cases ha

/-- A request on its own can run to its answer. -/
theorem exists_solo_run (hw : Turn.Alone rot requestedModel stream outcome B (w.turn p))
    (hup : ∀ id copy, outcome id ≠ .undecryptable → ∃ u, outcomeOf rot stream w.now copy u = outcome id) :
    ∃ as w', Along (step rot) (Solo rot p stream outcome) w as ∧ run (step rot) w as = some w' ∧
      (w'.requests p).pc.isDone = true := by
  induction hn : Turn.turnsLeft rot (w.turn p) using Nat.strong_induction_on generalizing w with
  | _ n ih =>
    cases hdone : (w.requests p).pc.isDone with
    | true => exact ⟨[], w, trivial, rfl, hdone⟩
    | false =>
      obtain ⟨ev, x', hev, hx'⟩ := hw.exists_turn hdone hup p
      obtain ⟨hw', hlt⟩ := hw.turn hev hx'
      have hstep : w.step rot (.resume p ev) = some (w.put p x') := by
        simp only [step, hx', Option.map_some]
      rw [← put_turn_self w p x'] at hw' hlt
      obtain ⟨as, w', halong, hrun, hdone'⟩ := ih _ (hn ▸ hlt) hw' hup rfl
      refine ⟨.resume p ev :: as, w', (along_cons hstep).mpr ⟨⟨rfl, hev⟩, halong⟩, ?_, hdone'⟩
      exact run_cons_iff.mpr ⟨_, hstep, hrun⟩

/-- A chat request that opens on two keys. -/
def opening : World := (step Sample.rotation (init Sample.pool 0) (.start 0 Sample.chat)).get (by decide)

/-- Four keys, and the margin that the settings give by default. -/
def fourKeys : KeyTable := (Sample.pool.insert (Sample.key "c")).insert (Sample.key "d")

def defaultMargin : Rotation := { Sample.rotation with safetyMargin := 1 }

/-- The first two keys do not have the model, the third is dead, the fourth works. -/
def fourReplies (id : ℕ) : Upstream :=
  Sample.reply (if id = 3 then 401 else if id = 4 then 200 else 404)

def passing : World := (step defaultMargin (init fourKeys 0) (.start 0 Sample.chat)).get (by decide)

/-- Keys 1, 2, 3, then 1 and 2 again: key 4 is passed over once, and the
iterations are spent. -/
def passedOver : List Action :=
  let tries404 := Sample.oks 0 2 ++ [.resume 0 (.answer (Sample.reply 404))]
  let tries401 := Sample.oks 0 2 ++ [.resume 0 (.answer (Sample.reply 401))] ++ Sample.oks 0 2
  Sample.oks 0 1 ++ tries404 ++ tries404 ++ tries401 ++ tries404 ++ tries404

end World

end OllamaProxy
