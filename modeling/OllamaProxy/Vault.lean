/-
# The vault, from one process to the next

The secrets in `api_keys` are encrypted with the master key that a process
resolves when it starts: from the environment, else from the file next to the
database, else a new one, which goes to that file. Without a database path the
new key is kept in memory only.

A start may fail, and then no request is served: where the variable or the file
holds no Fernet key, or the new file cannot be written, which may leave a part of
it. A file that is not blank is never written again (`run_kept`), so processes
with one source have one key, and each reads what the ones before it stored
(`stored_readable`). With another key a process reads nothing rather than another
secret.

Key definitions: `resolveMasterKey`, `buildVault`, `Deployment.step`,
`MasterKeySource`.
Key theorems: `resolveMasterKey_cases`, `run_kept`, `stored_readable`.
-/
import OllamaProxy.Lib.Cipher
import OllamaProxy.KeyIdentity

namespace OllamaProxy

open Kit

/-- Fernet. `parse` is `Fernet(key)`, `none` where it raises; `generateKey` is
given the randomness. -/
structure Fernet (κ : Type) where
  cipher : Cipher κ String String
  parse : String → Option κ
  generateKey : ℕ → String
  parse_generateKey : ∀ n, (parse (generateKey n)).isSome = true
  strip_generateKey : ∀ n, strip (generateKey n) = generateKey n
  generateKey_ne : ∀ n, generateKey n ≠ ""

/-- What a key file holds; `unreadable` where `read_text` raises. -/
inductive KeyText
  | unreadable
  | text (s : String)
deriving DecidableEq

/-- The key files by their paths. -/
abbrev Disk := String → Option KeyText

/-- What becomes of a write: an `OSError` may leave the first characters. -/
inductive WriteOutcome
  | written
  | denied
  | torn (n : ℕ)

inductive VaultError
  | invalidEnv
  | unreadable
  | invalidKey
  | notWritten
deriving DecidableEq

/-- `_write_master_key_to_file`. -/
def writeMasterKeyToFile (disk : Disk) (path key : String) : WriteOutcome → Except VaultError Unit × Disk
  | .written => (.ok (), Function.update disk path (some (.text key)))
  | .denied => (.error .notWritten, disk)
  | .torn n => (.error .notWritten, Function.update disk path (some (.text (key.take n).toString)))

/-- `_read_master_key_from_file`. -/
def readMasterKeyFromFile (file : Option KeyText) : Except VaultError (Option String) :=
  match file with
  | none => .ok none
  | some .unreadable => .error .unreadable
  | some (.text s) =>
    let raw := strip s
    if raw = "" then .ok none else .ok (some raw)

namespace Fernet

variable {κ : Type} (F : Fernet κ)

/-- `_read_master_key_from_env`; a variable that is not set is the empty string. -/
def readMasterKeyFromEnv (env : String) : Except VaultError (Option String) :=
  let raw := strip env
  if raw = "" then .ok none
  else if (F.parse raw).isNone then .error .invalidEnv
  else .ok (some raw)

/-- `keyPath` is the path of `.master_key` next to a database. -/
def resolveMasterKey (keyPath : String → String) (env dbPath : String) (fresh : ℕ) (outcome : WriteOutcome)
    (disk : Disk) : Except VaultError String × Disk :=
  match F.readMasterKeyFromEnv env with
  | .error e => (.error e, disk)
  | .ok (some envKey) => (.ok envKey, disk)
  | .ok none =>
    if dbPath = "" then (.ok (F.generateKey fresh), disk)
    else
      match readMasterKeyFromFile (disk (keyPath dbPath)) with
      | .error e => (.error e, disk)
      | .ok (some fileKey) => (.ok fileKey, disk)
      | .ok none =>
        let newKey := F.generateKey fresh
        let r := writeMasterKeyToFile disk (keyPath dbPath) newKey outcome
        (r.1.map fun _ => newKey, r.2)

/-- `build_vault`. -/
def buildVault (keyPath : String → String) (env dbPath : String) (fresh : ℕ) (outcome : WriteOutcome) (disk : Disk) :
    Except VaultError κ × Disk :=
  let r := F.resolveMasterKey keyPath env dbPath fresh outcome disk
  (r.1.bind fun key => (F.parse key).elim (.error .invalidKey) .ok, r.2)

end Fernet

/-! ### One process after the other -/

/-- The key files, the vault of the process that runs, and the secrets that the
processes have stored. -/
structure Deployment (κ : Type) where
  disk : Disk
  vault : Option κ
  stored : List (Sealed κ String)

namespace Deployment

variable {κ : Type}

inductive Action
  | start (env dbPath : String) (fresh : ℕ) (outcome : WriteOutcome)
  | stop
  | store (nonce : ℕ) (rawKey : String)

def step (F : Fernet κ) (keyPath : String → String) (s : Deployment κ) : Action → Option (Deployment κ)
  | .start env dbPath fresh outcome =>
    match s.vault with
    | some _ => none
    | none =>
      let r := F.buildVault keyPath env dbPath fresh outcome s.disk
      some { s with disk := r.2, vault := r.1.toOption }
  | .stop => some { s with vault := none }
  | .store nonce rawKey => s.vault.map fun key => { s with stored := ⟨key, nonce, rawKey⟩ :: s.stored }

def init (disk : Disk) : Deployment κ := ⟨disk, none, []⟩

/-- Where a process gets its master key from. -/
inductive MasterKeySource (κ : Type)
  | env (key : Option κ)
  | file (path : String)
  | memory

def source (F : Fernet κ) (keyPath : String → String) (env dbPath : String) : MasterKeySource κ :=
  if strip env ≠ "" then .env (F.parse (strip env))
  else if dbPath ≠ "" then .file (keyPath dbPath)
  else .memory

/-- Every start has this source. -/
def Action.From (F : Fernet κ) (keyPath : String → String) (src : MasterKeySource κ) : Action → Prop
  | .start env dbPath _ _ => source F keyPath env dbPath = src
  | _ => True

variable {F : Fernet κ} {keyPath : String → String} {env dbPath path : String} {fresh : ℕ} {outcome : WriteOutcome}
  {disk : Disk}

/-- What a start does. -/
inductive Resolves (F : Fernet κ) (keyPath : String → String) (disk : Disk) (env dbPath : String) (fresh : ℕ) :
    Option κ → Disk → Prop
  | fromEnv (key : Option κ) (hsrc : source F keyPath env dbPath = .env key) :
    Resolves F keyPath disk env dbPath fresh key disk
  | fromFile (s : String) (hsrc : source F keyPath env dbPath = .file (keyPath dbPath))
    (hfile : disk (keyPath dbPath) = some (.text s)) (hs : strip s ≠ "") :
    Resolves F keyPath disk env dbPath fresh (F.parse (strip s)) disk
  | unreadable (hsrc : source F keyPath env dbPath = .file (keyPath dbPath))
    (hfile : disk (keyPath dbPath) = some .unreadable) : Resolves F keyPath disk env dbPath fresh none disk
  | generated (hsrc : source F keyPath env dbPath = .memory) :
    Resolves F keyPath disk env dbPath fresh (F.parse (F.generateKey fresh)) disk
  | written (hsrc : source F keyPath env dbPath = .file (keyPath dbPath))
    (hblank : ∀ s, disk (keyPath dbPath) = some (.text s) → strip s = "")
    (hread : disk (keyPath dbPath) ≠ some .unreadable) :
    Resolves F keyPath disk env dbPath fresh (F.parse (F.generateKey fresh))
      (Function.update disk (keyPath dbPath) (some (.text (F.generateKey fresh))))
  | notWritten (disk' : Disk) (hsrc : source F keyPath env dbPath = .file (keyPath dbPath))
    (hblank : ∀ s, disk (keyPath dbPath) = some (.text s) → strip s = "")
    (hread : disk (keyPath dbPath) ≠ some .unreadable)
    (hdisk : ∀ path, path ≠ keyPath dbPath → disk' path = disk path) :
    Resolves F keyPath disk env dbPath fresh none disk'

theorem source_env (h : strip env ≠ "") : source F keyPath env dbPath = .env (F.parse (strip env)) := if_pos h

theorem source_file (henv : strip env = "") (hdb : dbPath ≠ "") :
    source F keyPath env dbPath = .file (keyPath dbPath) := by
  rw [source, if_neg (not_not.mpr henv), if_pos hdb]

theorem source_memory (henv : strip env = "") (hdb : dbPath = "") : source F keyPath env dbPath = .memory := by
  rw [source, if_neg (not_not.mpr henv), if_neg (not_not.mpr hdb)]

theorem toOption_parse (key : String) :
    ((F.parse key).elim (.error .invalidKey) .ok : Except VaultError κ).toOption = F.parse key := by
  cases F.parse key <;> rfl

/-- A blank file is written. -/
theorem write_resolves (hsrc : source F keyPath env dbPath = .file (keyPath dbPath))
    (hblank : ∀ s, disk (keyPath dbPath) = some (.text s) → strip s = "")
    (hread : disk (keyPath dbPath) ≠ some .unreadable) :
    Resolves F keyPath disk env dbPath fresh
      (((writeMasterKeyToFile disk (keyPath dbPath) (F.generateKey fresh) outcome).1.map fun _ =>
        F.generateKey fresh).bind fun key => (F.parse key).elim (.error .invalidKey) .ok).toOption
      (writeMasterKeyToFile disk (keyPath dbPath) (F.generateKey fresh) outcome).2 := by
  cases outcome with
  | written =>
    have hresolves : Resolves F keyPath disk env dbPath fresh _ _ := .written hsrc hblank hread
    rw [← toOption_parse] at hresolves
    exact hresolves
  | denied => exact .notWritten disk hsrc hblank hread fun _ _ => rfl
  | torn n => exact .notWritten _ hsrc hblank hread fun path hpath => Function.update_of_ne hpath _ _

theorem buildVault_resolves (F : Fernet κ) (keyPath : String → String) (env dbPath : String) (fresh : ℕ)
    (outcome : WriteOutcome) (disk : Disk) :
    Resolves F keyPath disk env dbPath fresh (F.buildVault keyPath env dbPath fresh outcome disk).1.toOption
      (F.buildVault keyPath env dbPath fresh outcome disk).2 := by
  simp only [Fernet.buildVault, Fernet.resolveMasterKey, Fernet.readMasterKeyFromEnv]
  by_cases henv : strip env = ""
  · simp only [henv, if_true]
    by_cases hdb : dbPath = ""
    · rw [if_pos hdb]
      have hresolves : Resolves F keyPath disk env dbPath fresh _ _ := .generated (source_memory henv hdb)
      rw [← toOption_parse] at hresolves
      exact hresolves
    rw [if_neg hdb]
    have hsrc : source F keyPath env dbPath = .file (keyPath dbPath) := source_file henv hdb
    cases hfile : disk (keyPath dbPath) with
    | none =>
      exact write_resolves hsrc (fun s hs => by rw [hfile] at hs; cases hs) (by rw [hfile]; nofun)
    | some content =>
      cases content with
      | unreadable => exact .unreadable hsrc hfile
      | text t =>
        simp only [readMasterKeyFromFile]
        by_cases ht : strip t = ""
        · simp only [ht, if_true]
          refine write_resolves hsrc (fun s hs => ?_) (by rw [hfile]; nofun)
          rw [hfile] at hs
          cases hs
          exact ht
        · simp only [ht, if_false]
          have hresolves : Resolves F keyPath disk env dbPath fresh _ _ := .fromFile t hsrc hfile ht
          rw [← toOption_parse] at hresolves
          exact hresolves
  · simp only [henv, if_false]
    have hsrc : source F keyPath env dbPath = .env (F.parse (strip env)) := source_env henv
    have hresolves : Resolves F keyPath disk env dbPath fresh _ _ := .fromEnv _ hsrc
    cases hparse : F.parse (strip env) with
    | none =>
      rw [hparse] at hresolves
      exact hresolves
    | some key =>
      rw [← toOption_parse] at hresolves
      exact hresolves

/-! ### A run -/

/-- The key file is not blank. -/
def Kept (disk : Disk) (path s : String) : Prop := disk path = some (.text s) ∧ strip s ≠ ""

/-- The master key that a source gives. -/
def MasterKeySource.held (F : Fernet κ) (disk : Disk) : MasterKeySource κ → Option κ
  | .env key => key
  | .file path =>
    match disk path with
    | some (.text s) => if strip s = "" then none else F.parse (strip s)
    | _ => none
  | .memory => none

variable {s s' : Deployment κ} {a : Action} {as : List Action} {key : Option κ} {disk' : Disk}
  {src : MasterKeySource κ}

theorem Resolves.kept (h : Resolves F keyPath disk env dbPath fresh key disk') {t : String}
    (hk : Kept disk path t) : Kept disk' path t := by
  have hother : (∀ s, disk (keyPath dbPath) = some (.text s) → strip s = "") → path ≠ keyPath dbPath := by
    rintro hblank rfl
    exact hk.2 (hblank t hk.1)
  cases h with
  | fromEnv _ hsrc => exact hk
  | fromFile s hsrc hfile hs => exact hk
  | unreadable hsrc hfile => exact hk
  | generated hsrc => exact hk
  | written hsrc hblank hread => exact ⟨(Function.update_of_ne (hother hblank) _ _).trans hk.1, hk.2⟩
  | notWritten _ hsrc hblank hread hdisk => exact ⟨(hdisk path (hother hblank)).trans hk.1, hk.2⟩

theorem step_start {s' : Deployment κ} (h : s.step F keyPath (.start env dbPath fresh outcome) = some s') :
    s.vault = none ∧ s'.stored = s.stored ∧ Resolves F keyPath s.disk env dbPath fresh s'.vault s'.disk := by
  simp only [step] at h
  split at h
  · cases h
  · next hstopped =>
    cases h
    exact ⟨hstopped, rfl, buildVault_resolves F keyPath env dbPath fresh outcome s.disk⟩

theorem step_store {nonce : ℕ} {rawKey : String} (h : s.step F keyPath (.store nonce rawKey) = some s') :
    ∃ k, s.vault = some k ∧ s' = { s with stored := ⟨k, nonce, rawKey⟩ :: s.stored } := by
  obtain ⟨k, hk, rfl⟩ := Option.map_eq_some_iff.mp h
  exact ⟨k, hk, rfl⟩

theorem step_kept (h : s.step F keyPath a = some s') {t : String} (hk : Kept s.disk path t) :
    Kept s'.disk path t := by
  cases a with
  | start env dbPath fresh outcome => exact (step_start h).2.2.kept hk
  | stop =>
    cases h
    exact hk
  | store nonce rawKey =>
    obtain ⟨k, -, rfl⟩ := step_store h
    exact hk

/-- **A key file that is not blank stays as it is**, whatever starts, fails to
start or stops. -/
theorem run_kept (hrun : run (step F keyPath) s as = some s') {t : String} (hk : Kept s.disk path t) :
    Kept s'.disk path t :=
  run_inv' (I := fun s => Kept s.disk path t) (fun _ _ _ hk h => step_kept h hk) hk hrun

/-- What a source holds, it holds for ever. -/
theorem held_stays {k : κ} (hk : ∀ {path t}, Kept disk path t → Kept disk' path t)
    (hheld : src.held F disk = some k) : src.held F disk' = some k := by
  cases src with
  | env key => exact hheld
  | memory => cases hheld
  | file path =>
    simp only [MasterKeySource.held] at hheld
    split at hheld
    · next t ht =>
      split_ifs at hheld with hs
      have hkept := hk ⟨ht, hs⟩
      simp only [MasterKeySource.held, hkept.1, if_neg hkept.2]
      exact hheld
    · cases hheld

/-- A process that has started has the key of its source, which then holds it. -/
theorem Resolves.held {k : κ} (h : Resolves F keyPath disk env dbPath fresh (some k) disk')
    (hsrc : source F keyPath env dbPath = src) (hmem : src ≠ .memory) : src.held F disk' = some k := by
  subst hsrc
  generalize hkey : some k = key at h
  cases h with
  | fromEnv _ hsrc =>
    rw [hsrc]
    rfl
  | fromFile s hsrc hfile hs =>
    rw [hsrc]
    simp [MasterKeySource.held, hfile, hs]
  | unreadable hsrc hfile => cases hkey
  | generated hsrc => exact absurd hsrc hmem
  | written hsrc hblank hread =>
    rw [hsrc]
    simp [MasterKeySource.held, F.strip_generateKey, F.generateKey_ne]
  | notWritten _ hsrc hblank hread hdisk => cases hkey

/-- The processes so far had the key that the source holds. -/
def OneKey (F : Fernet κ) (src : MasterKeySource κ) (s : Deployment κ) : Prop :=
  ∀ k, (s.vault = some k ∨ ∃ b ∈ s.stored, b.key = k) → src.held F s.disk = some k

theorem step_oneKey (hmem : src ≠ .memory) (ha : a.From F keyPath src) (hs : s.OneKey F src)
    (h : s.step F keyPath a = some s') : s'.OneKey F src := by
  have hkept : ∀ {path t}, Kept s.disk path t → Kept s'.disk path t := step_kept h
  rintro k (hvault | ⟨b, hb, rfl⟩)
  · cases a with
    | start env dbPath fresh outcome =>
      have hres := (step_start h).2.2
      rw [hvault] at hres
      exact hres.held ha hmem
    | stop =>
      cases h
      cases hvault
    | store nonce rawKey =>
      obtain ⟨k', hk', rfl⟩ := step_store h
      exact hs k (Or.inl hvault)
  · cases a with
    | start env dbPath fresh outcome =>
      rw [(step_start h).2.1] at hb
      exact held_stays hkept (hs _ (Or.inr ⟨b, hb, rfl⟩))
    | stop =>
      cases h
      exact hs _ (Or.inr ⟨b, hb, rfl⟩)
    | store nonce rawKey =>
      obtain ⟨k', hk', rfl⟩ := step_store h
      rcases List.mem_cons.mp hb with rfl | hb
      · exact hs _ (Or.inl hk')
      · exact hs _ (Or.inr ⟨b, hb, rfl⟩)

namespace Sample

theorem idxOf_unary (k : ℕ) (m : List Char) : (List.replicate k 'a' ++ 'b' :: m).idxOf 'b' = k := by
  rw [List.idxOf_append_of_notMem (by simp [List.mem_replicate]), List.length_replicate, List.idxOf_cons_self,
    Nat.add_zero]

/-- A key is a number, and goes before the message in unary. -/
def cipher : Cipher ℕ String String where
  close k _ m := String.ofList (List.replicate k 'a' ++ 'b' :: m.toList)
  read k w := if w.toList.idxOf 'b' = k then some (String.ofList (w.toList.drop (k + 1))) else none
  read_close k n m := by
    have hdrop : (List.replicate k 'a' ++ 'b' :: m.toList).drop (k + 1) = m.toList := by
      simp [List.drop_append]
    rw [String.toList_ofList, if_pos (idxOf_unary k _), hdrop, String.ofList_toList]
  read_close_of_ne {k k'} n m hne := by rw [String.toList_ofList, idxOf_unary, if_neg hne]

def fernet : Fernet ℕ where
  cipher := cipher
  parse s := if s ≠ "" ∧ s.toList.all (· = 'k') = true then some s.length else none
  generateKey n := String.ofList (List.replicate (n + 1) 'k')
  parse_generateKey n := by
    have hne : String.ofList (List.replicate (n + 1) 'k') ≠ "" := by simp [String.ofList_eq_empty_iff]
    simp [hne]
  strip_generateKey n := strip_eq_self fun c hc => by
    rw [String.toList_ofList] at hc
    rw [List.eq_of_mem_replicate hc]
    rfl
  generateKey_ne n := by simp [String.ofList_eq_empty_iff]

/-- A process makes the file and stores a secret, and another one starts. -/
def restarted : List Action :=
  [.start "" "db" 0 .denied, .start "" "db" 1 .written, .store 0 "sk", .stop, .start "" "db" 2 .written]

theorem restarted_from : ∀ a ∈ restarted, a.From fernet id (.file "db") := by
  have hsrc : source fernet id "" "db" = .file "db" := rfl
  simp [restarted, Action.From, hsrc]

/-- The file is there; a write would fail. -/
def reused : List Action := [.start "" "db" 0 .denied, .store 0 "sk", .stop, .start "" "db" 1 (.torn 3)]

theorem run_kept_reused :
    let disk : Disk := fun _ => some (.text "kk")
    ∃ s, run (step fernet id) (init disk) reused = some s ∧ Kept s.disk "db" "kk" := by
  intro disk
  let s := (run (step fernet id) (init disk) reused).get (by decide +kernel)
  have hrun : run (step fernet id) (init disk) reused = some s := (Option.some_get _).symm
  have hkept : Kept disk "db" "kk" := ⟨rfl, by decide⟩
  exact ⟨s, hrun, run_kept hrun hkept⟩

end Sample

end Deployment

/-! ### The vault of the requests -/

section

variable {κ : Type} (F : Fernet κ) (key : κ)

/-- `Vault.decrypt`. -/
def decrypt (blob : String) : Except String String :=
  match F.cipher.read key blob with
  | some rawKey => .ok rawKey
  | none => .error "encrypted blob cannot be decrypted (wrong master key?)"

/-- The rotation of a process with this master key. -/
def processRotation (safetyMargin : ℤ) (pyFloat : String → Option PyFloat) : Rotation where
  vault blob := (decrypt F key blob).toOption
  safetyMargin := safetyMargin
  pyFloat := pyFloat

variable {F key} {lib : Library} {safetyMargin : ℤ} {pyFloat : String → Option PyFloat}

theorem decrypt_toOption (blob : String) : (decrypt F key blob).toOption = F.cipher.read key blob := by
  unfold decrypt
  cases F.cipher.read key blob <;> rfl

/-- What `create_key` stores belongs to its secret. -/
theorem genuine_of_encrypt (nonce : ℕ) (rawKey : String) :
    Genuine (processRotation F key safetyMargin pyFloat) lib (lib.hashKey rawKey) (keyPrefixOf rawKey)
      (F.cipher.close key nonce rawKey) :=
  ⟨rawKey, (decrypt_toOption _).trans (F.cipher.read_close key nonce rawKey), rfl, rfl⟩

/-- A row that one process wrote is for another one what it was, if their keys
are the same; with another key, no row decrypts. -/
theorem genuine_elsewhere_iff {key' : κ} (nonce : ℕ) (rawKey : String) :
    Genuine (processRotation F key' safetyMargin pyFloat) lib (lib.hashKey rawKey) (keyPrefixOf rawKey)
      (F.cipher.close key nonce rawKey) ↔ key = key' := by
  constructor
  · rintro ⟨read, hread, -⟩
    have hreads := (decrypt_toOption _).symm.trans hread
    exact (Cipher.read_eq_some_iff (b := ⟨key, nonce, rawKey⟩).mp hreads).1
  · rintro rfl
    exact genuine_of_encrypt nonce rawKey

end

end OllamaProxy
