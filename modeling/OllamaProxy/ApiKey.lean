/-
# The key table

`ApiKey` is a row of `api_keys`: the columns that selection, the recorders and
the admin operations read or write. Every operation on the table is one step:
SQLite serialises writers, so the statements from a session's first write to
its commit take effect together.

An admin session loads the row, sets attributes and commits; `seen` is the
copy it loaded, possibly an older version of the row.
-/
import OllamaProxy.Lib.Table
import OllamaProxy.Python

namespace OllamaProxy

open Kit

inductive ApiKeyStatus
  | active
  | depleted
  | disabled
deriving DecidableEq, Repr

structure ApiKey where
  keyHash : String
  keyPrefix : String
  keyEncrypted : String
  label : Option String
  status : ApiKeyStatus
  lastUsedAt : Option ℤ
  lastStatusCode : Option ℕ
  cooldownUntil : Option ℤ
  totalRequests : ℕ
  totalFailures : ℕ
  createdAt : ℤ
  updatedAt : ℤ
  sessionPromptTokens : ℤ
  sessionCompletionTokens : ℤ
  sessionWindowStartedAt : Option ℤ
  weeklyPromptTokens : ℤ
  weeklyCompletionTokens : ℤ
  weeklyWindowStartedAt : Option ℤ
  lastTokenAt : Option ℤ
deriving DecidableEq, Repr

abbrev KeyTable := Table ApiKey

/-- The column defaults of a new row. -/
def ApiKey.new (keyHash keyPrefix keyEncrypted : String) (label : Option String) (now : ℤ) : ApiKey where
  keyHash := keyHash
  keyPrefix := keyPrefix
  keyEncrypted := keyEncrypted
  label := label
  status := .active
  lastUsedAt := none
  lastStatusCode := none
  cooldownUntil := none
  totalRequests := 0
  totalFailures := 0
  createdAt := now
  updatedAt := now
  sessionPromptTokens := 0
  sessionCompletionTokens := 0
  sessionWindowStartedAt := none
  weeklyPromptTokens := 0
  weeklyCompletionTokens := 0
  weeklyWindowStartedAt := none
  lastTokenAt := none

/-! ### Admin operations

`none` is an error answer (404 or 409) or a commit that fails; the table is
then unchanged. -/

def createKey (t : KeyTable) (keyHash keyPrefix keyEncrypted : String) (label : Option String)
    (now : ℤ) : Option KeyTable :=
  if t.rows.any fun r => r.2.keyHash = keyHash then none
  else some (t.insert (.new keyHash keyPrefix keyEncrypted label now))

/-- The commit of `PATCH /admin/keys/{id}` and of the dashboard's update. -/
def updateKey (t : KeyTable) (id : ℕ) (seen : ApiKey) (label : Option String)
    (status : Option ApiKeyStatus) (now : ℤ) : Option KeyTable :=
  (t.get? id).map fun _ => t.modify id fun db =>
    { db with
      label := label.elim db.label fun l => netChange seen.label (some l) db.label
      status := status.elim db.status fun s => netChange seen.status s db.status
      updatedAt := now }

def deleteKey (t : KeyTable) (id : ℕ) : Option KeyTable :=
  (t.get? id).map fun _ => t.erase id

def resetKeyStates (t : KeyTable) (now : ℤ) : KeyTable :=
  t.mapRows fun _ k =>
    { k with
      status := .active
      cooldownUntil := none
      lastStatusCode := none
      totalFailures := 0
      updatedAt := now }

/-! ### The status of a key -/

/-- The key exists and has this status. -/
def HasStatus (t : KeyTable) (id : ℕ) (s : ApiKeyStatus) : Prop :=
  (t.get? id).map (·.status) = some s

instance (t : KeyTable) (id : ℕ) (s : ApiKeyStatus) : Decidable (HasStatus t id s) :=
  inferInstanceAs (Decidable (_ = _))

theorem hasStatus_iff {t : KeyTable} {id : ℕ} {s : ApiKeyStatus} :
    HasStatus t id s ↔ ∃ k, t.get? id = some k ∧ k.status = s := Option.map_eq_some_iff

theorem HasStatus.unique {t : KeyTable} {id : ℕ} {s s' : ApiKeyStatus} (h : HasStatus t id s)
    (h' : HasStatus t id s') : s = s' := Option.some.inj (h.symm.trans h')

end OllamaProxy
