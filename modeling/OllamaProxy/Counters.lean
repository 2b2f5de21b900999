/-
# The request counters

`total_requests` and `total_failures` of a key, and `total_requests` of a user
token, against the history of calls that should have moved them. A call of a
`record_*` method counts when its commit takes effect (`World.commitsOn`), a
reset of the states sets the failures to zero (`Entry.reset`), and nothing else
moves the two columns: the books kept over the entries of a run are the columns
of the row. So the requests are the successes, and the failures are those since
the last reset.

A call returns later than it commits, or never: a reset that falls between the
commit and the refresh takes back a failure whose call has yet to return.

`authenticate` is two statements. What its `UPDATE` returns is assigned to the
copy that its `SELECT` loaded, and the commit writes it back; the row then has
one more than before, however old the copy is.

Key definitions: `Books.post`, `World.entries`, `TokenWorld.step`.
Key theorems: `step_books`, `run_books`, `TokenWorld.step_uses`,
`counters_exact`.
-/
import OllamaProxy.Recorders
import OllamaProxy.Admission

namespace OllamaProxy

open Kit

/-! ### The books of a key -/

inductive Entry
  | call (m : Method)
  | reset
deriving DecidableEq

def Method.isSuccess : Method → Bool
  | .success | .successWithUsage => true
  | .unauthorized | .rateLimited | .serverError => false

def Entry.isSuccess : Entry → Bool
  | .call m => m.isSuccess
  | .reset => false

def Entry.isFailure : Entry → Bool
  | .call m => !m.isSuccess
  | .reset => false

structure Books where
  requests : ℕ
  failures : ℕ

def Books.post (b : Books) : Entry → Books
  | .call m =>
    if m.isSuccess then { b with requests := b.requests + 1 } else { b with failures := b.failures + 1 }
  | .reset => { b with failures := 0 }

/-- The entries after the last reset. -/
def sinceReset (es : List Entry) : List Entry := (es.reverse.takeWhile (· ≠ .reset)).reverse

theorem sinceReset_reset (es : List Entry) : sinceReset (es ++ [.reset]) = [] := by
  simp [sinceReset]

theorem sinceReset_call (es : List Entry) (m : Method) :
    sinceReset (es ++ [.call m]) = sinceReset es ++ [.call m] := by
  simp [sinceReset]

/-- The books after the entries, in closed form. -/
theorem foldl_post (b : Books) (es : List Entry) :
    (es.foldl Books.post b).requests = b.requests + es.countP Entry.isSuccess ∧
      (es.foldl Books.post b).failures =
        (if .reset ∈ es then 0 else b.failures) + (sinceReset es).countP Entry.isFailure := by
  induction es using List.reverseRecOn with
  | nil => simp [sinceReset]
  | append_singleton es e ih =>
    obtain ⟨hreq, hfail⟩ := ih
    rw [List.foldl_append, List.foldl_cons, List.foldl_nil, List.countP_append]
    cases e with
    | reset =>
      rw [sinceReset_reset]
      refine ⟨?_, by simp [Books.post]⟩
      show (es.foldl Books.post b).requests = _
      rw [hreq]
      simp [Entry.isSuccess]
    | call m =>
      have hmem : Entry.reset ∈ es ++ [.call m] ↔ .reset ∈ es := by simp
      rw [sinceReset_call, List.countP_append, if_congr hmem rfl rfl]
      by_cases hm : m.isSuccess = true
      · refine ⟨?_, ?_⟩
        · simp only [Books.post, hm, if_true, hreq, Entry.isSuccess, List.countP_singleton]
          omega
        · simp only [Books.post, hm, if_true, hfail, Entry.isFailure, List.countP_singleton]
          simp
      · have hm' := Bool.eq_false_iff.mpr hm
        refine ⟨?_, ?_⟩
        · simp only [Books.post, hm', hreq, Entry.isSuccess, List.countP_singleton]
          simp
        · simp only [Books.post, hm', hfail, Entry.isFailure, List.countP_singleton]
          simp only [Bool.false_eq_true, if_false, Bool.not_false, if_true]
          omega

/-! ### What counts -/

/-- The method a recorder is a call of, by the status it writes. -/
def Recorder.method : Recorder → Method
  | .usage _ => .successWithUsage
  | .update v =>
    match v.status with
    | some .active => .success
    | some .disabled => .unauthorized
    | some .depleted => .rateLimited
    | none => .serverError

theorem recordRateLimited_status {now retryAfter : ℤ} {code : ℕ} {v : KeyValues}
    (h : recordRateLimited now code retryAfter = .ok v) : v.status = some .depleted := by
  unfold recordRateLimited at h
  cases hc : addSeconds now (max 1 retryAfter) with
  | error e =>
    rw [hc] at h
    cases h
  | ok cooldown =>
    rw [hc] at h
    cases h
    rfl

theorem Recorder.Calls.method_eq {rec : Recorder} {m : Method} (h : rec.Calls m) : rec.method = m := by
  cases h with
  | success now code => rfl
  | successWithUsage u => rfl
  | unauthorized now code => rfl
  | rateLimited now code retryAfter v hv => simp [Recorder.method, recordRateLimited_status hv]
  | serverError now code => rfl

def ApiKey.books (k : ApiKey) : Books := ⟨k.totalRequests, k.totalFailures⟩

/-- The books of a key that does not exist yet are empty. -/
def books (t : KeyTable) (id : ℕ) : Books := (t.get? id).elim ⟨0, 0⟩ ApiKey.books

theorem books_of_get? {t : KeyTable} {id : ℕ} {k : ApiKey} (h : t.get? id = some k) : books t id = k.books := by
  rw [books, h, Option.elim_some]

/-- A call of a recorder posts one entry. -/
theorem Recorder.Calls.write_books {rec : Recorder} {m : Method} (h : rec.Calls m) (copy row : ApiKey) :
    (rec.write copy row).books = row.books.post (.call m) := by
  cases h with
  | success now code => rfl
  | successWithUsage u => rfl
  | unauthorized now code => rfl
  | rateLimited now code retryAfter v hv =>
    obtain ⟨hreq, hfail⟩ := recordRateLimited_counts hv
    simp [Recorder.write, KeyValues.write, ApiKey.books, Books.post, Method.isSuccess, hreq, hfail]
  | serverError now code => rfl

namespace World

variable {rot : Rotation} {w w' : World} {a : Action} {id : ℕ}

/-- What is posted for key `id`. -/
def entries (rot : Rotation) (id : ℕ) (w : World) (a : Action) : List Entry :=
  match a with
  | .admin .resetKeyStates => [.reset]
  | a => ((w.commitsOn rot id a).map fun rec => .call rec.method).toList

theorem entries_of_commitsOn {rec : Recorder} (h : w.commitsOn rot id a = some rec) :
    w.entries rot id a = [.call rec.method] := by
  unfold entries
  split
  · cases h
  · rw [h]
    rfl

theorem entries_eq_nil (h : w.commitsOn rot id a = none) (ha : a ≠ .admin .resetKeyStates) :
    w.entries rot id a = [] := by
  unfold entries
  split
  · exact absurd rfl ha
  · rw [h]
    rfl

/-- A step moves the books by what it posts. -/
theorem step_books (hs : w.Sound) (hw : w.Calling) (ha : a.deletes = false) (h : w.step rot a = some w') :
    books w'.table id = (w.entries rot id a).foldl Books.post (books w.table id) := by
  have hchange := step_change hs hw h id
  unfold books
  generalize w'.table.get? id = row' at hchange
  cases hchange with
  | keeps hoff ha => rw [entries_eq_nil hoff ha, List.foldl_nil]
  | restates row label status cooldownUntil updatedAt hoff ha hrow =>
    rw [entries_eq_nil hoff ha, hrow]
    rfl
  | creates keyHash keyPrefix keyEncrypted label ha hid =>
    subst ha
    rw [hid, Table.get?_nextId]
    rfl
  | deletes hdel =>
    rw [ha] at hdel
    cases hdel
  | resets ha =>
    subst ha
    cases w.table.get? id <;> rfl
  | commits rec m copy row hon hcalls hrow hcopy =>
    rw [entries_of_commitsOn hon, hrow, hcalls.method_eq]
    exact hcalls.write_books copy row

/-- A run without deletions moves the books by what it posts. -/
theorem run_books (id : ℕ) {t : KeyTable} {now : ℤ} {as : List Action} (hdel : ∀ a ∈ as, a.deletes = false)
    (hrun : run (step rot) (init t now) as = some w) :
    books w.table id = (outputs (step rot) (entries rot id) (init t now) as).foldl Books.post (books t id) := by
  have hI : ∀ (w : World) a w', w.Sound ∧ w.Calling → a.deletes = false → w.step rot a = some w' →
      w'.Sound ∧ w'.Calling :=
    fun _ _ _ hI _ h => ⟨step_sound hI.1 h, step_calling hI.1 hI.2 h⟩
  have hstep : ∀ (w : World) a w', w.Sound ∧ w.Calling → a.deletes = false → w.step rot a = some w' →
      run (fun b e => some (Books.post b e)) (books w.table id) (w.entries rot id a) =
        some (books w'.table id) :=
    fun _ _ _ hI ha h => by rw [run_some, step_books hI.1 hI.2 ha h]
  have hout := run_outputs hI hstep ⟨init_sound t now, init_calling t now⟩
    (along_of_forall fun _ a ha => hdel a ha) hrun
  rw [run_some] at hout
  exact (Option.some.inj hout).symm

end World

/-! ### The uses of a token -/

/-- `authenticate` up to its checks of the row. -/
def authenticateSelect (lib : Library) (t : TokenTable) (rawKey : String) (now : ℤ) :
    Except TokenError (Option (ℕ × UserToken)) :=
  if rawKey = "" then .error (.valueError "raw_key must be a non-empty string")
  else
    match t.select (·.keyHash = lib.hashKey rawKey) with
    | [] => .ok none
    | [(id, token)] =>
      if token.status ≠ .active then .ok none
      else
        match token.expired now with
        | .error e => .error (.raised e)
        | .ok true => .ok none
        | .ok false => .ok (some (id, token))
    | _ => .error .multipleResultsFound

/-- The `UPDATE` of `authenticate`, and the flush that writes what it returned
through the copy. -/
def authenticateBump (t : TokenTable) (id : ℕ) (copy : UserToken) (now : ℤ) : TokenTable :=
  t.modify id fun db =>
    let bumped := db.bump now
    { bumped with totalRequests := netChange copy.totalRequests bumped.totalRequests bumped.totalRequests }

theorem authenticateBump_eq (t : TokenTable) (id : ℕ) (copy : UserToken) (now : ℤ) :
    authenticateBump t id copy now = t.modify id (·.bump now) := by
  simp [authenticateBump, netChange]

/-- Its two parts without anything between them. -/
theorem authenticate_eq (lib : Library) (t : TokenTable) (rawKey : String) (now : ℤ) :
    authenticate lib t rawKey now = (authenticateSelect lib t rawKey now).map
      (Option.map fun x => (authenticateBump t x.1 x.2 now, x.1, x.2.bump now)) := by
  unfold authenticate authenticateSelect
  split_ifs with hkey
  · rfl
  · cases hsel : t.select (·.keyHash = lib.hashKey rawKey) with
    | nil => rfl
    | cons x rest =>
      obtain ⟨id, token⟩ := x
      cases rest with
      | cons y rest => rfl
      | nil =>
        have hrow : t.get? id = some token :=
          ((t.mem_select _ id token).mp (hsel ▸ List.mem_singleton_self _)).1
        have hbump : t.modify id (fun _ => token.bump now) = authenticateBump t id token now := by
          rw [authenticateBump_eq]
          refine Table.modify_congr fun a ha => ?_
          rw [Option.some.inj (hrow.symm.trans ha)]
        simp only [hbump]
        split_ifs
        · rfl
        · rcases token.expired now with e | _ | _ <;> rfl

/-- A call of `authenticate`: before its `SELECT`, before its `UPDATE`, or over. -/
inductive AuthCall
  | idle
  | bumping (id : ℕ) (token : UserToken)
  | returned (id : Option ℕ)
  | raised

/-- How the statements from the `UPDATE` to the commit end. -/
inductive BumpEnd
  | returns
  | fails
  | cancelled (written : Bool)
deriving DecidableEq

def BumpEnd.writes : BumpEnd → Bool
  | .returns | .cancelled true => true
  | .fails | .cancelled false => false

structure TokenWorld where
  table : TokenTable
  now : ℤ
  calls : ℕ → AuthCall

inductive TokenAction
  | select (p : ℕ) (rawKey : String)
  | bump (p : ℕ) (e : BumpEnd)
  | perform (op : TokenOp)
  | tick (d : ℕ)

def TokenAction.deletes : TokenAction → Bool
  | .perform (.revokeUserToken _) | .perform (.deleteUserTokenSubmit _) => true
  | _ => false

namespace TokenWorld

def init (t : TokenTable) (now : ℤ) : TokenWorld := ⟨t, now, fun _ => .idle⟩

/-- A request to the proxy is a call of `authenticate`, not one `perform`. -/
def step (lib : Library) (w : TokenWorld) : TokenAction → Option TokenWorld
  | .select p rawKey =>
    match w.calls p with
    | .idle =>
      let call : AuthCall := match authenticateSelect lib w.table rawKey w.now with
        | .ok (some (id, token)) => .bumping id token
        | .ok none => .returned none
        | .error _ => .raised
      some { w with calls := Function.update w.calls p call }
    | _ => none
  | .bump p e =>
    match w.calls p with
    | .bumping id token =>
      some { w with
        table := if e.writes then authenticateBump w.table id token w.now else w.table
        calls := Function.update w.calls p (if e = .returns then .returned (some id) else .raised) }
    | _ => none
  | .perform (.request _) => none
  | .perform op => some { w with table := (op.perform lib w.now w.table).toOption.getD w.table }
  | .tick d => some { w with now := w.now + d }

/-- The end of a call that counted a use of token `id`. -/
def uses (id : ℕ) (w : TokenWorld) : TokenAction → List BumpEnd
  | .bump p e =>
    match w.calls p with
    | .bumping i _ => if i = id ∧ e.writes = true ∧ (w.table.get? id).isSome = true then [e] else []
    | _ => []
  | _ => []

/-- The count of a token that does not exist yet is zero. -/
def count (t : TokenTable) (id : ℕ) : ℕ := (t.get? id).elim 0 (·.totalRequests)

section

variable {lib : Library} {w w' : TokenWorld} {a : TokenAction} {id : ℕ}

theorem update_totalRequests (label : Option String) (expiresAt : Option DateTime) (clear : Bool)
    (status : Option UserTokenStatus) (now : ℤ) (token : UserToken) :
    (token.update label expiresAt clear status now).totalRequests = token.totalRequests := by
  simp only [UserToken.update]
  split_ifs <;> rfl

/-- An operation that neither deletes nor authenticates leaves the counts. -/
theorem perform_count {op : TokenOp} {now : ℤ} {t t' : TokenTable} (hdel : (TokenAction.perform op).deletes = false)
    (hreq : ∀ auth, op ≠ .request auth) (h : op.perform lib now t = .ok t') : count t' id = count t id := by
  have hstep := perform_step h
  have hchange : op.change lib ≠ none ∧ ∀ i, op.change lib ≠ some (.remove i) := by
    cases op <;> simp_all [TokenOp.change, TokenAction.deletes]
  generalize op.change lib = change at hstep hchange
  unfold count
  cases hstep with
  | minted rawKey label expiresAt hutc hfresh =>
    rw [Table.get?_insert]
    split_ifs with hid
    · rw [hid, Table.get?_nextId]
      rfl
    · rfl
  | amended i label expiresAt clear status hutc hrow =>
    rw [updateToken, Table.get?_modify]
    split_ifs
    · cases t.get? id with
      | none => rfl
      | some token => exact update_totalRequests label expiresAt clear status now token
    · rfl
  | kept i => rfl
  | removed i hrow => exact absurd rfl (hchange.2 i)
  | counted i token hrow => exact absurd rfl hchange.1
  | passed => rfl

/-- The statements of a call add one to the token's count, whatever the copy
says. -/
theorem bump_count (t : TokenTable) (i : ℕ) (copy : UserToken) (now : ℤ) :
    count (authenticateBump t i copy now) id =
      count t id + if i = id ∧ (t.get? id).isSome = true then 1 else 0 := by
  rw [authenticateBump_eq]
  unfold count
  rw [Table.get?_modify]
  by_cases hid : id = i
  · subst hid
    cases t.get? id <;> simp [UserToken.bump]
  · rw [if_neg hid, if_neg fun h => hid h.1.symm]
    rfl

theorem step_uses (id : ℕ) (ha : a.deletes = false) (h : w.step lib a = some w') :
    count w'.table id = count w.table id + (w.uses id a).length := by
  cases a with
  | select p rawKey =>
    simp only [step] at h
    split at h
    · cases h
      rfl
    · cases h
  | bump p e =>
    simp only [step] at h
    split at h
    · rename_i i token hcall
      cases h
      simp only [uses, hcall]
      by_cases he : e.writes = true
      · rw [if_pos he, bump_count]
        congr 1
        by_cases hi : i = id ∧ (w.table.get? id).isSome = true
        · rw [if_pos hi, if_pos ⟨hi.1, he, hi.2⟩]
          rfl
        · rw [if_neg hi, if_neg fun h => hi ⟨h.1, h.2.2⟩]
          rfl
      · rw [if_neg he, if_neg fun h => he h.2.1]
        rfl
    · cases h
  | perform op =>
    have hreq : ∀ auth, op ≠ .request auth := by
      rintro auth rfl
      cases h
    have hw' : w' = { w with table := (op.perform lib w.now w.table).toOption.getD w.table } := by
      cases op <;> first | exact absurd rfl (hreq _) | (cases h; rfl)
    rw [hw']
    cases hp : op.perform lib w.now w.table with
    | error e => rfl
    | ok t' => exact perform_count ha hreq hp
  | tick d =>
    cases h
    rfl

theorem run_uses (id : ℕ) {t : TokenTable} {now : ℤ} {as : List TokenAction} (hdel : ∀ a ∈ as, a.deletes = false)
    (hrun : run (step lib) (init t now) as = some w) :
    count w.table id = count t id + (outputs (step lib) (uses id) (init t now) as).length := by
  induction as using List.reverseRecOn generalizing w with
  | nil =>
    cases hrun
    rfl
  | append_singleton as a ih =>
    rw [run_append] at hrun
    obtain ⟨w1, h1, h2⟩ := Option.bind_eq_some_iff.mp hrun
    obtain ⟨w2, h3, h4⟩ := run_cons_iff.mp h2
    cases h4
    have hstep := step_uses id (hdel a (by simp)) h3
    rw [hstep, ih (fun b hb => hdel b (by simp [hb])) h1, outputs_append h1, outputs_cons h3,
      List.length_append, List.length_append, add_assoc]
    rfl

end

end TokenWorld

/-! ### The counters -/

/-- The counters of the keys and of the tokens, after any run without
deletions. -/
theorem counters_exact :
    (∀ (rot : Rotation) (t : KeyTable) (now : ℤ) (as : List Action) (w : World) (id : ℕ) (row : ApiKey),
      run (World.step rot) (World.init t now) as = some w → (∀ a ∈ as, a.deletes = false) →
      w.table.get? id = some row →
      let posted := outputs (World.step rot) (World.entries rot id) (World.init t now) as
      row.totalRequests = (books t id).requests + posted.countP Entry.isSuccess ∧
        row.totalFailures = (if .reset ∈ posted then 0 else (books t id).failures) +
          (sinceReset posted).countP Entry.isFailure) ∧
    ∀ (lib : Library) (t : TokenTable) (now : ℤ) (as : List TokenAction) (w : TokenWorld) (id : ℕ)
      (token : UserToken),
      run (TokenWorld.step lib) (TokenWorld.init t now) as = some w → (∀ a ∈ as, a.deletes = false) →
      w.table.get? id = some token →
      token.totalRequests = TokenWorld.count t id +
        (outputs (TokenWorld.step lib) (TokenWorld.uses id) (TokenWorld.init t now) as).length := by
  refine ⟨fun rot t now as w id row hrun hdel hrow => ?_, fun lib t now as w id token hrun hdel hrow => ?_⟩
  · have hbooks := World.run_books id hdel hrun
    rw [books_of_get? hrow] at hbooks
    obtain ⟨hreq, hfail⟩ := foldl_post (books t id)
      (outputs (World.step rot) (World.entries rot id) (World.init t now) as)
    rw [← hbooks] at hreq hfail
    exact ⟨hreq, hfail⟩
  · have huses := TokenWorld.run_uses id hdel hrun
    rw [TokenWorld.count, hrow] at huses
    exact huses

namespace Sample

/-- A chat request is answered with a 503 by key 1, and the states are reset
before the recorder's refresh. -/
def resetBeforeReturn : List Action :=
  .start 0 chat :: oks 0 3 ++ [.resume 0 (.answer (reply 503))] ++ oks 0 1 ++ [.admin .resetKeyStates] ++ oks 0 1

/-- A token is minted and used twice at once. -/
def usedTwice : List TokenAction :=
  [.perform (.createUserToken { label := "ci" } "opk_a"), .select 0 "opk_a", .select 1 "opk_a",
    .bump 0 .returns, .bump 1 .returns]

theorem counters_exact_sample :
    (∃ w row, run (World.step rotation) (World.init pool 0) resetBeforeReturn = some w ∧
      w.table.get? 1 = some row ∧ row.totalRequests = 0 ∧ row.totalFailures = 0) ∧
    ∃ w token, run (TokenWorld.step library) (TokenWorld.init Table.empty 0) usedTwice = some w ∧
      w.table.get? 1 = some token ∧ token.totalRequests = 2 := by
  let w := (run (World.step rotation) (World.init pool 0) resetBeforeReturn).get (by decide)
  let row := (w.table.get? 1).get (by decide)
  let v := (run (TokenWorld.step library) (TokenWorld.init Table.empty 0) usedTwice).get (by decide)
  let token := (v.table.get? 1).get (by decide)
  have hkey := counters_exact.1 rotation pool 0 resetBeforeReturn w 1 row (Option.some_get _).symm
    (by decide) (Option.some_get _).symm
  have htoken := counters_exact.2 library Table.empty 0 usedTwice v 1 token (Option.some_get _).symm
    (by decide) (Option.some_get _).symm
  exact ⟨⟨w, row, (Option.some_get _).symm, (Option.some_get _).symm, hkey.1.trans (by decide),
    hkey.2.trans (by decide)⟩, v, token, (Option.some_get _).symm, (Option.some_get _).symm,
    htoken.trans (by decide)⟩

end Sample

/-! ### Calls that return -/

/-- The method that an answer is recorded by. -/
def Upstream.method : Upstream → Option Method
  | .transport => some .serverError
  | .raised => none
  | .response r =>
    if r.isSuccess then some .success
    else if r.statusCode ∈ deadKeyCodes then some .unauthorized
    else if r.statusCode = 429 then some .rateLimited
    else if 500 ≤ r.statusCode then some .serverError
    else none

/-- The call on key `id` that returns: `_update_key` from its refresh,
`record_success_with_usage` from its commit. -/
def World.returnsOn (rot : Rotation) (id : ℕ) (w : World) : Action → Option Method
  | .resume p .ok =>
    match (w.requests p).pc, (w.requests p).key with
    | .refresh _, some copy =>
      if copy.id = id ∧ (w.table.get? id).isSome = true then
        (w.requests p).answered.getLast?.bind fun answered => answered.2.method
      else none
    | .commit (.usage _) _, some copy =>
      if copy.id = id ∧ (w.table.get? id).isSome = true then some .successWithUsage else none
    | _, _ => none
  | .admin (.probe i seen code headers) =>
    (w.commitsOn rot id (.admin (.probe i seen code headers))).map (·.method)
  | _ => none

/-- `World.entries` by the calls that return. -/
def World.returned (rot : Rotation) (id : ℕ) (w : World) (a : Action) : List Entry :=
  match a with
  | .admin .resetKeyStates => [.reset]
  | a => ((w.returnsOn rot id a).map .call).toList

/-- A failure that is recorded before a reset, by a call that returns after it. -/
theorem resetBeforeReturn_lost :
    ¬ ∀ (as : List Action) (w : World) (row : ApiKey),
      run (World.step Sample.rotation) (World.init Sample.pool 0) as = some w →
      (∀ a ∈ as, a.deletes = false) → w.table.get? 1 = some row →
      row.totalFailures = (sinceReset (outputs (World.step Sample.rotation)
        (World.returned Sample.rotation 1) (World.init Sample.pool 0) as)).countP Entry.isFailure := by
  intro h
  let w := (run (World.step Sample.rotation) (World.init Sample.pool 0) Sample.resetBeforeReturn).get
    (by decide)
  let row := (w.table.get? 1).get (by decide)
  have hlost := h Sample.resetBeforeReturn w row (Option.some_get _).symm (by decide) (Option.some_get _).symm
  revert hlost
  decide

end OllamaProxy
