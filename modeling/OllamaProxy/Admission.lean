/-
# Who is admitted

A `Grant` is what a token stands for: a hash, a status and the instant it
expires. `Change` is what an accepted request asked for, `replay` the grants
that a history of changes leaves: each with its latest status and its latest
expiry. The table of tokens, read as grants, is always the replay of the
history (`step_faithful`), so a bearer is admitted exactly if such a grant is
valid (`admits_iff`).

Without a bearer the proxy counts the active tokens, not the rows: it is open
from the moment the last active token is revoked, or deleted while revoked ones
remain (`closed_throughout_iff`).

Key definitions: `Grant`, `Change`, `replay`, `TokenStep`, `Unlocks`.
Key theorems: `perform_step`, `TokenStep.grants`, `admits_iff`,
`closed_throughout_iff`.
-/
import OllamaProxy.UserToken
import OllamaProxy.Lib.Run

namespace OllamaProxy

open Kit

/-! ### Grants -/

structure Grant where
  keyHash : String
  status : UserTokenStatus
  expiry : Option ℤ
deriving DecidableEq

/-- At the instant `t` the grant admits its bearer. -/
def Grant.Valid (g : Grant) (t : ℤ) : Prop := g.status = .active ∧ ∀ e, g.expiry = some e → t < e

/-- The outer `none` leaves the field as it was. -/
def Grant.amend (status : Option UserTokenStatus) (expiry : Option (Option ℤ)) (g : Grant) : Grant :=
  { g with
    status := status.getD g.status
    expiry := expiry.getD g.expiry }

inductive Change
  | mint (keyHash : String) (expiry : Option ℤ)
  | amend (id : ℕ) (status : Option UserTokenStatus) (expiry : Option (Option ℤ))
  | remove (id : ℕ)

def Change.apply (g : Table Grant) : Change → Table Grant
  | mint keyHash expiry => g.insert ⟨keyHash, .active, expiry⟩
  | amend id status expiry => g.modify id (.amend status expiry)
  | remove id => g.erase id

def replay (changes : List Change) : Table Grant := changes.foldl Change.apply .empty

/-! ### What a request asks for -/

/-- The instant that the form's `expires_at` denotes. -/
def formInstant (lib : Library) (raw : String) : Option ℤ :=
  if strip raw = "" then none
  else (lib.fromisoformat (strip raw)).toOption.map (·.instant)

/-- The change that the request asks for, if it is one that changes tokens. -/
def TokenOp.change (lib : Library) : TokenOp → Option Change
  | createUserToken payload rawKey =>
    some (.mint (lib.hashKey rawKey) (payload.expiresAt.map (·.instant)))
  | createUserTokenSubmit _ expiresAt rawKey =>
    some (.mint (lib.hashKey rawKey) (formInstant lib expiresAt))
  | patchUserToken id payload =>
    some (.amend id payload.status.join (payload.expiresAt.map fun v => v.map (·.instant)))
  | updateUserTokenSubmit id _ _ expiresAt clearExpiresAt status =>
    some (.amend id (formStatus lib status).toOption.join
      (if clearFlag lib clearExpiresAt then some none else (formInstant lib expiresAt).map some))
  | revokeToken id => some (.amend id (some .revoked) none)
  | revokeUserToken id | deleteUserTokenSubmit id => some (.remove id)
  | request _ => none

/-! ### What a request does -/

/-- The expiry is in UTC. -/
def Utc (v : Option DateTime) : Prop := ∀ d ∈ v, d.offset = some 0

/-- What an accepted request does to the table, and the change it asked for. -/
inductive TokenStep (lib : Library) (now : ℤ) (t : TokenTable) : Option Change → TokenTable → Prop
  | minted (rawKey label : String) (expiresAt : Option DateTime) (hutc : Utc expiresAt)
    (hfresh : ∀ i token, t.get? i = some token → token.keyHash ≠ lib.hashKey rawKey) :
    TokenStep lib now t (some (.mint (lib.hashKey rawKey) (expiresAt.map (·.instant))))
      (t.insert (.new (lib.hashKey rawKey) (prefixOf rawKey) label expiresAt now))
  | amended (id : ℕ) (label : Option String) (expiresAt : Option DateTime) (clear : Bool)
    (status : Option UserTokenStatus) (hutc : Utc expiresAt) (hrow : (t.get? id).isSome = true) :
    TokenStep lib now t
      (some (.amend id status (if clear then some none else expiresAt.map fun d => some d.instant)))
      (updateToken t id label expiresAt clear status now)
  | kept (id : ℕ) : TokenStep lib now t (some (.amend id none none)) t
  | removed (id : ℕ) (hrow : (t.get? id).isSome = true) : TokenStep lib now t (some (.remove id)) (t.erase id)
  | counted (id : ℕ) (token : UserToken) (hrow : t.get? id = some token) :
    TokenStep lib now t none (t.modify id fun _ => token.bump now)
  | passed : TokenStep lib now t none t

theorem map_eq_ok {ε α β : Type} {x : Except ε α} {f : α → β} {b : β} :
    x.map f = .ok b ↔ ∃ a, x = .ok a ∧ f a = b := by
  cases x <;> simp [Except.map]

theorem mapError_eq_ok {ε ε' α : Type} {x : Except ε α} {f : ε → ε'} {a : α} :
    x.mapError f = .ok a ↔ x = .ok a := by
  cases x <;> simp [Except.mapError]

/-! The paths that write an expiry. -/

theorem normaliseExpiresAt_eq_ok {v v' : Option DateTime} (h : normaliseExpiresAt v = .ok v') :
    Utc v' ∧ v'.map (·.instant) = v.map (·.instant) := by
  cases v with
  | none =>
    cases h
    exact ⟨fun d hd => (by cases hd), rfl⟩
  | some dt =>
    obtain ⟨d, hd, rfl⟩ := map_eq_ok.mp (mapError_eq_ok.mp h)
    obtain ⟨hoff, hinst⟩ := DateTime.toUtc_eq_ok hd
    refine ⟨fun d' hd' => ?_, congrArg some hinst⟩
    cases hd'
    exact hoff

theorem formExpiry_eq_ok {lib : Library} {raw : String} {v : Option DateTime}
    (h : formExpiry lib raw = .ok v) : Utc v ∧ v.map (·.instant) = formInstant lib raw := by
  have hparse := mapError_eq_ok.mp h
  unfold parseUserTokenExpiry at hparse
  unfold formInstant
  simp only at hparse
  split_ifs at hparse ⊢ with hblank
  · cases hparse
    exact ⟨fun d hd => (by cases hd), rfl⟩
  · cases hiso : lib.fromisoformat (strip raw) with
    | error message =>
      rw [hiso] at hparse
      cases hparse
    | ok dt =>
      rw [hiso] at hparse
      exact normaliseExpiresAt_eq_ok (v := some dt) hparse

theorem UserTokenCreate.validate_eq_ok {payload p : UserTokenCreate}
    (h : payload.validate = .ok p) :
    Utc p.expiresAt ∧ p.expiresAt.map (·.instant) = payload.expiresAt.map (·.instant) := by
  unfold validate at h
  obtain ⟨expiresAt, he, h⟩ := bind_eq_ok.mp h
  obtain ⟨label, -, h⟩ := bind_eq_ok.mp h
  cases h
  exact normaliseExpiresAt_eq_ok he

theorem UserTokenUpdate.validate_eq_ok {payload p : UserTokenUpdate}
    (h : payload.validate = .ok p) : p.status = payload.status ∧ Utc p.expiresAt.join ∧
      (p.expiresAt.map fun v => v.map (·.instant)) =
        payload.expiresAt.map fun v => v.map (·.instant) := by
  unfold validate at h
  obtain ⟨expiresAt, he, h⟩ := bind_eq_ok.mp h
  obtain ⟨label, -, h⟩ := bind_eq_ok.mp h
  cases h
  refine ⟨rfl, ?_⟩
  cases hp : payload.expiresAt with
  | none =>
    rw [hp] at he
    cases he
    exact ⟨fun d hd => (by cases hd), rfl⟩
  | some v =>
    rw [hp] at he
    obtain ⟨v', hv, rfl⟩ := map_eq_ok.mp he
    obtain ⟨hutc, hinst⟩ := normaliseExpiresAt_eq_ok hv
    exact ⟨hutc, congrArg some hinst⟩

/-! One lemma for each service function, then one for every request. -/

section

variable {lib : Library} {now : ℤ} {t t' : TokenTable} {id : ℕ}

theorem createToken_step {label rawKey : String} {expiresAt : Option DateTime} (hutc : Utc expiresAt)
    (h : createToken lib t label expiresAt rawKey now = .ok t') :
    TokenStep lib now t (some (.mint (lib.hashKey rawKey) (expiresAt.map (·.instant)))) t' := by
  unfold createToken at h
  simp only at h
  split at h
  · cases h
  · cases h
  · split_ifs at h with hdup
    cases h
    refine .minted rawKey label expiresAt hutc fun i token hrow heq => hdup ?_
    rw [List.any_eq_true]
    exact ⟨(i, token), (t.get?_eq_some_iff i token).mp hrow, decide_eq_true heq⟩

theorem hardDeleteUserToken_step (h : hardDeleteUserToken t id = .ok t') :
    TokenStep lib now t (some (.remove id)) t' := by
  unfold hardDeleteUserToken at h
  cases hrow : t.get? id with
  | none =>
    rw [hrow] at h
    cases h
  | some token =>
    rw [hrow] at h
    cases h
    exact .removed id (by rw [hrow]; rfl)

theorem authenticate_eq_some_iff {rawKey : String} {r : TokenTable × ℕ × UserToken} :
    authenticate lib t rawKey now = .ok (some r) ↔ rawKey ≠ "" ∧ ∃ id token,
      t.select (·.keyHash = lib.hashKey rawKey) = [(id, token)] ∧ token.status = .active ∧
        token.expired now = .ok false ∧ r = (t.modify id fun _ => token.bump now, id, token.bump now) := by
  unfold authenticate
  by_cases hempty : rawKey = ""
  · simp [hempty]
  · rw [if_neg hempty]
    rcases t.select (·.keyHash = lib.hashKey rawKey) with _ | ⟨⟨id, token⟩, _ | ⟨second, rest⟩⟩
    · simp
    · by_cases hact : token.status = .active
      · cases hexp : token.expired now with
        | error e => simp [hact, hexp]
        | ok expired => cases expired <;> simp [hact, hexp, hempty, eq_comm]
      · simp [hact]
    · simp

/-- With a bearer, the request is admitted exactly if the bearer authenticates. -/
theorem requireUserToken_bearer {auth : Option String} {presented : String}
    (hb : extractBearer lib auth = some presented) {r : TokenTable × Option (ℕ × UserToken)} :
    requireUserToken lib t auth now = .ok r ↔
      ∃ found, authenticate lib t presented now = .ok (some found) ∧ r = (found.1, some found.2) := by
  unfold requireUserToken
  rw [hb]
  simp only
  generalize authenticate lib t presented now = found
  rcases found with e | (_ | ⟨t', token⟩)
  · cases e <;> simp
  · simp
  · simp [eq_comm]

theorem requireUserToken_step {auth : Option String} {r : TokenTable × Option (ℕ × UserToken)}
    (h : requireUserToken lib t auth now = .ok r) : TokenStep lib now t none r.1 := by
  cases hb : extractBearer lib auth with
  | none =>
    unfold requireUserToken at h
    rw [hb] at h
    simp only at h
    split_ifs at h
    cases h
    exact .passed
  | some presented =>
    obtain ⟨found, hauth, rfl⟩ := (requireUserToken_bearer hb).mp h
    obtain ⟨-, id, token, hsel, -, -, rfl⟩ := authenticate_eq_some_iff.mp hauth
    have hmem : (id, token) ∈ t.select (·.keyHash = lib.hashKey presented) := by
      rw [hsel]
      exact List.mem_singleton_self _
    exact .counted id token ((t.mem_select _ id token).mp hmem).1

theorem isSome_of_match {t : TokenTable} {id : ℕ} {e : TokenError} {r : Except TokenError TokenTable}
    (h : (match t.get? id with
      | none => Except.error e
      | some _ => r) = .ok t') : (t.get? id).isSome = true ∧ r = .ok t' := by
  cases hrow : t.get? id with
  | none =>
    rw [hrow] at h
    cases h
  | some token =>
    rw [hrow] at h
    exact ⟨rfl, h⟩

/-- What each request does. -/
theorem perform_step {op : TokenOp} (h : op.perform lib now t = .ok t') :
    TokenStep lib now t (op.change lib) t' := by
  cases op with
  | createUserToken payload rawKey =>
    obtain ⟨p, hp, h⟩ := bind_eq_ok.mp h
    obtain ⟨hutc, hinst⟩ := UserTokenCreate.validate_eq_ok hp
    have hstep := createToken_step hutc (mapError_eq_ok.mp h)
    rw [hinst] at hstep
    exact hstep
  | patchUserToken id payload =>
    obtain ⟨p, hp, h⟩ := bind_eq_ok.mp h
    obtain ⟨-, -, h⟩ := bind_eq_ok.mp h
    obtain ⟨hstatus, hutc, hinst⟩ := UserTokenUpdate.validate_eq_ok hp
    obtain ⟨hrow, h⟩ := isSome_of_match h
    have hchange : (TokenOp.patchUserToken id payload).change lib =
        some (.amend id p.status.join (p.expiresAt.map fun v => v.map (·.instant))) := by
      rw [hinst, hstatus]
      rfl
    rw [hchange]
    split_ifs at h with hset
    · cases h
      obtain ⟨-, he, hs⟩ : p.label = none ∧ p.expiresAt = none ∧ p.status = none := by
        simpa [UserTokenUpdate.fieldsSet, and_assoc] using hset
      rw [he, hs]
      exact .kept id
    · cases h
      have hstep : TokenStep lib now t _ _ := .amended id p.label.join p.expiresAt.join
        (decide (p.expiresAt = some none)) p.status.join hutc hrow
      rcases he : p.expiresAt with _ | _ | d <;> rw [he] at hstep <;> exact hstep
  | revokeUserToken id =>
    obtain ⟨-, -, h⟩ := bind_eq_ok.mp h
    exact hardDeleteUserToken_step (isSome_of_match h).2
  | createUserTokenSubmit label expiresAt rawKey =>
    simp only [TokenOp.perform] at h
    split_ifs at h
    obtain ⟨v, hv, h⟩ := bind_eq_ok.mp h
    obtain ⟨hutc, hinst⟩ := formExpiry_eq_ok hv
    have hstep := createToken_step hutc (mapError_eq_ok.mp h)
    rw [hinst] at hstep
    exact hstep
  | updateUserTokenSubmit id method label expiresAt clearExpiresAt status =>
    simp only [TokenOp.perform] at h
    by_cases hmethod : method.getD "patch" ≠ "patch"
    · rw [if_pos hmethod] at h
      cases h
    · rw [if_neg hmethod] at h
      obtain ⟨s, hs, h⟩ := bind_eq_ok.mp h
      obtain ⟨v, hv, h⟩ := bind_eq_ok.mp h
      obtain ⟨hutc, hinst⟩ := formExpiry_eq_ok hv
      obtain ⟨hrow, h⟩ := isSome_of_match h
      have hchange : (TokenOp.updateUserTokenSubmit id method label expiresAt clearExpiresAt status).change
          lib = some (.amend id s
            (if clearFlag lib clearExpiresAt then some none else (v.map (·.instant)).map some)) := by
        rw [hinst]
        simp [TokenOp.change, hs, Except.toOption]
      rw [hchange]
      cases h
      cases clearFlag lib clearExpiresAt with
      | true => exact .amended id _ none true s (fun d hd => (by cases hd)) hrow
      | false =>
        rw [Option.map_map]
        exact .amended id _ v false s hutc hrow
  | deleteUserTokenSubmit id => exact hardDeleteUserToken_step (mapError_eq_ok.mp h)
  | revokeToken id =>
    obtain ⟨hrow, h⟩ := isSome_of_match h
    cases h
    exact .amended id none none false (some .revoked) (fun d hd => (by cases hd)) hrow
  | request auth =>
    obtain ⟨r, hr, rfl⟩ := map_eq_ok.mp h
    exact requireUserToken_step hr

end

/-! ### The table, read as grants -/

def UserToken.grant (token : UserToken) : Grant where
  keyHash := token.keyHash
  status := token.status
  expiry := token.expiresAt.map (·.instant)

def grants (t : TokenTable) : Table Grant := t.map (·.grant)

theorem instant_stored {v : Option DateTime} (hutc : Utc v) :
    (v.map (·.stored)).map (·.instant) = v.map (·.instant) := by
  cases v with
  | none => rfl
  | some d => exact congrArg some (DateTime.instant_stored (hutc d rfl))

theorem UserToken.grant_new {keyHash keyPrefix label : String} {expiresAt : Option DateTime} {now : ℤ}
    (hutc : Utc expiresAt) : (UserToken.new keyHash keyPrefix label expiresAt now).grant =
      ⟨keyHash, .active, expiresAt.map (·.instant)⟩ := by
  simp only [grant, UserToken.new, instant_stored hutc]

theorem UserToken.grant_update {label : Option String} {expiresAt : Option DateTime} {clear : Bool}
    {status : Option UserTokenStatus} {now : ℤ} (hutc : Utc expiresAt) (token : UserToken) :
    (token.update label expiresAt clear status now).grant =
      token.grant.amend status (if clear then some none else expiresAt.map fun d => some d.instant) := by
  have hgrant : (token.update label expiresAt clear status now).grant =
      ⟨token.keyHash, status.getD token.status,
        (if clear then none else expiresAt.elim token.expiresAt fun e => some e.stored).map
          (·.instant)⟩ := by
    unfold UserToken.update
    simp only
    split_ifs <;> rfl
  rw [hgrant]
  cases clear with
  | true => rfl
  | false =>
    cases expiresAt with
    | none => rfl
    | some d =>
      have hd : d.stored.instant = d.instant := DateTime.instant_stored (hutc d rfl)
      simp [Grant.amend, grant, hd]

/-- A step makes the change it stands for. -/
theorem TokenStep.grants {lib : Library} {now : ℤ} {t t' : TokenTable} {change : Option Change}
    (h : TokenStep lib now t change t') :
    grants t' = change.toList.foldl Change.apply (OllamaProxy.grants t) := by
  cases h with
  | minted rawKey label expiresAt hutc hfresh =>
    have hinsert := t.map_insert UserToken.grant
      (.new (lib.hashKey rawKey) (prefixOf rawKey) label expiresAt now)
    rw [UserToken.grant_new hutc] at hinsert
    exact hinsert
  | amended id label expiresAt clear status hutc hrow =>
    exact t.map_modify UserToken.grant id fun token => UserToken.grant_update hutc token
  | kept id =>
    show OllamaProxy.grants t = (OllamaProxy.grants t).modify id (.amend none none)
    exact (Table.modify_eq_self fun _ _ => rfl).symm
  | removed id hrow => exact t.map_erase UserToken.grant id
  | counted id token hrow =>
    have hbump : OllamaProxy.grants (t.modify id fun _ => token.bump now) =
        (OllamaProxy.grants t).modify id fun _ => token.grant :=
      t.map_modify UserToken.grant id fun _ => rfl
    refine hbump.trans (Table.modify_eq_self fun g hg => ?_)
    rw [OllamaProxy.grants, Table.get?_map, hrow] at hg
    exact Option.some.inj hg
  | passed => rfl

/-! ### What every request keeps -/

/-- One row for a hash, and the expiries as SQLite gives them back. -/
structure TokenSound (t : TokenTable) : Prop where
  unique : ∀ i j a b, t.get? i = some a → t.get? j = some b → a.keyHash = b.keyHash → i = j
  naive : ∀ i a, t.get? i = some a → ∀ d ∈ a.expiresAt, d.offset = none

theorem naive_stored {v : Option DateTime} {d : DateTime} (h : d ∈ v.map (·.stored)) :
    d.offset = none := by
  obtain ⟨d', -, rfl⟩ := Option.map_eq_some_iff.mp h
  rfl

section

variable {lib : Library} {now : ℤ} {t t' : TokenTable}

/-- Changing a row keeps the table sound if it keeps the row's hash. -/
theorem TokenSound.modify (ht : TokenSound t) {id : ℕ} {f : UserToken → UserToken}
    (hhash : ∀ a, t.get? id = some a → (f a).keyHash = a.keyHash)
    (hnaive : ∀ a, t.get? id = some a → ∀ d ∈ (f a).expiresAt, d.offset = none) :
    TokenSound (t.modify id f) := by
  have hrow : ∀ {i a'}, (t.modify id f).get? i = some a' → ∃ a, t.get? i = some a ∧
      a'.keyHash = a.keyHash ∧ ∀ d ∈ a'.expiresAt, d.offset = none := by
    intro i a' ha'
    rw [Table.get?_modify] at ha'
    split_ifs at ha' with hid
    · obtain ⟨a, ha, rfl⟩ := Option.map_eq_some_iff.mp ha'
      subst hid
      exact ⟨a, ha, hhash a ha, hnaive a ha⟩
    · exact ⟨a', ha', rfl, ht.naive i a' ha'⟩
  refine ⟨fun i j a b ha hb hab => ?_, fun i a ha => ?_⟩
  · obtain ⟨a0, ha0, hha, -⟩ := hrow ha
    obtain ⟨b0, hb0, hhb, -⟩ := hrow hb
    exact ht.unique i j a0 b0 ha0 hb0 (hha.symm.trans (hab.trans hhb))
  · obtain ⟨a0, -, -, hn⟩ := hrow ha
    exact hn

theorem TokenSound.insert (ht : TokenSound t) {a : UserToken}
    (hfresh : ∀ i b, t.get? i = some b → b.keyHash ≠ a.keyHash)
    (hnaive : ∀ d ∈ a.expiresAt, d.offset = none) : TokenSound (t.insert a) := by
  refine ⟨fun i j b c hb hc hbc => ?_, fun i b hb => ?_⟩ <;> rw [Table.get?_insert] at hb
  · rw [Table.get?_insert] at hc
    split_ifs at hb hc with hi hj hj
    · rw [hi, hj]
    · cases hb
      exact absurd hbc.symm (hfresh j c hc)
    · cases hc
      exact absurd hbc (hfresh i b hb)
    · exact ht.unique i j b c hb hc hbc
  · split_ifs at hb with hi
    · cases hb
      exact hnaive
    · exact ht.naive i b hb

theorem TokenSound.erase (ht : TokenSound t) (id : ℕ) : TokenSound (t.erase id) := by
  have hrow : ∀ {i a}, (t.erase id).get? i = some a → t.get? i = some a := by
    intro i a ha
    rw [Table.get?_erase] at ha
    split_ifs at ha
    exact ha
  exact ⟨fun i j a b ha hb => ht.unique i j a b (hrow ha) (hrow hb), fun i a ha => ht.naive i a (hrow ha)⟩

theorem TokenStep.sound {change : Option Change} (h : TokenStep lib now t change t')
    (ht : TokenSound t) : TokenSound t' := by
  cases h with
  | minted rawKey label expiresAt hutc hfresh => exact ht.insert hfresh fun d hd => naive_stored hd
  | amended id label expiresAt clear status hutc hrow =>
    refine ht.modify (fun a ha => ?_) fun a ha d hd => ?_
    · exact congrArg Grant.keyHash (UserToken.grant_update hutc a)
    · have hexp : (a.update label expiresAt clear status now).expiresAt =
          if clear then none else expiresAt.elim a.expiresAt fun e => some e.stored := by
        unfold UserToken.update
        simp only
        split_ifs <;> rfl
      rw [hexp] at hd
      split_ifs at hd
      · cases hd
      · cases expiresAt with
        | none => exact ht.naive id a ha d hd
        | some e => cases hd; rfl
  | kept id => exact ht
  | removed id hrow => exact ht.erase id
  | counted id token hrow =>
    refine ht.modify (fun a ha => ?_) fun a ha d hd => ?_ <;> cases hrow.symm.trans ha
    · rfl
    · exact ht.naive id token hrow d hd
  | passed => exact ht

/-! ### Authentication -/

theorem UserToken.expired_eq {token : UserToken} (h : ∀ d ∈ token.expiresAt, d.offset = none) (now : ℤ) :
    token.expired now = .ok (token.expiresAt.any fun d => d.instant ≤ now) := by
  unfold UserToken.expired
  cases hexp : token.expiresAt with
  | none => rfl
  | some d =>
    have hoff := h d hexp
    simp [asUtc, DateTime.toUtc, hoff, DateTime.leNow, DateTime.replaceUtc, DateTime.instant, Except.bind]

theorem authenticate_iff (ht : TokenSound t) {rawKey : String} (hne : rawKey ≠ "") :
    (∃ found, authenticate lib t rawKey now = .ok (some found)) ↔
      ∃ id token, t.get? id = some token ∧ token.keyHash = lib.hashKey rawKey ∧ token.grant.Valid now := by
  have hvalid : ∀ {id token}, t.get? id = some token →
      (token.status = .active ∧ token.expired now = .ok false ↔ token.grant.Valid now) := by
    intro id token hrow
    rw [UserToken.expired_eq (ht.naive id token hrow)]
    unfold Grant.Valid UserToken.grant
    cases token.expiresAt <;> simp
  constructor
  · rintro ⟨found, hauth⟩
    obtain ⟨-, id, token, hsel, hact, hexp, -⟩ := authenticate_eq_some_iff.mp hauth
    have hmem : (id, token) ∈ t.select (·.keyHash = lib.hashKey rawKey) := by
      rw [hsel]
      exact List.mem_singleton_self _
    obtain ⟨hrow, hhash⟩ := (t.mem_select _ id token).mp hmem
    exact ⟨id, token, hrow, of_decide_eq_true hhash, (hvalid hrow).mp ⟨hact, hexp⟩⟩
  · rintro ⟨id, token, hrow, hhash, hv⟩
    obtain ⟨hact, hexp⟩ := (hvalid hrow).mpr hv
    have hsel : t.select (·.keyHash = lib.hashKey rawKey) = [(id, token)] :=
      Table.select_eq_singleton hrow (decide_eq_true hhash) fun j b hb hbh =>
        ht.unique j id b token hb hrow ((of_decide_eq_true hbh).trans hhash.symm)
    exact ⟨_, authenticate_eq_some_iff.mpr ⟨hne, id, token, hsel, hact, hexp, rfl⟩⟩

theorem extractBearer_ne {auth : Option String} {presented : String}
    (h : extractBearer lib auth = some presented) : presented ≠ "" := by
  unfold extractBearer at h
  split at h
  · cases h
  · simp only at h
    split_ifs at h with hempty hnone
    cases h
    exact fun he => hnone (Or.inr he)

end

/-! ### Runs -/

/-- The table, and the changes that the accepted requests asked for. -/
structure TokenStore where
  table : TokenTable
  history : List Change

namespace TokenStore

def init : TokenStore := ⟨.empty, []⟩

/-- A request at a time; a refused one changes nothing. -/
def step (lib : Library) (s : TokenStore) (a : ℤ × TokenOp) : Option TokenStore :=
  match a.2.perform lib a.1 s.table with
  | .ok t => some ⟨t, s.history ++ (a.2.change lib).toList⟩
  | .error _ => some s

variable {lib : Library} {s s' : TokenStore} {a : ℤ × TokenOp}

theorem step_cases (h : s.step lib a = some s') :
    ((∃ e, a.2.perform lib a.1 s.table = .error e) ∧ s' = s) ∨
      ∃ t, a.2.perform lib a.1 s.table = .ok t ∧ TokenStep lib a.1 s.table (a.2.change lib) t ∧
        s' = ⟨t, s.history ++ (a.2.change lib).toList⟩ := by
  unfold step at h
  cases hp : a.2.perform lib a.1 s.table with
  | error e =>
    rw [hp] at h
    cases h
    exact Or.inl ⟨⟨e, rfl⟩, rfl⟩
  | ok t =>
    rw [hp] at h
    cases h
    exact Or.inr ⟨t, rfl, perform_step hp, rfl⟩

/-- The table is sound, and it is the replay of the history. -/
structure Faithful (s : TokenStore) : Prop where
  sound : TokenSound s.table
  grants : grants s.table = replay s.history

theorem step_faithful (hs : s.Faithful) (h : s.step lib a = some s') : s'.Faithful := by
  rcases step_cases h with ⟨-, rfl⟩ | ⟨t, -, hstep, rfl⟩
  · exact hs
  · refine ⟨hstep.sound hs.sound, hstep.grants.trans ?_⟩
    rw [hs.grants, replay, replay, List.foldl_append]

theorem init_faithful : init.Faithful where
  sound := ⟨fun _ _ _ _ h => (by cases h), fun _ _ h => (by cases h)⟩
  grants := rfl

/-- After any requests, a bearer is admitted at time `now` exactly if there is
a grant with its hash whose latest status is active and whose latest expiry, if
it has one, is after `now`. -/
theorem admits_iff {as : List (ℤ × TokenOp)} (h : run (step lib) init as = some s)
    {auth : Option String} {presented : String} (hb : extractBearer lib auth = some presented) (now : ℤ) :
    (∃ r, requireUserToken lib s.table auth now = .ok r) ↔
      ∃ id g, (replay s.history).get? id = some g ∧ g.keyHash = lib.hashKey presented ∧ g.Valid now := by
  have hs : s.Faithful := run_inv' (fun _ _ _ hI h => step_faithful hI h) init_faithful h
  have hauthed : (∃ r, requireUserToken lib s.table auth now = .ok r) ↔
      ∃ found, authenticate lib s.table presented now = .ok (some found) := by
    constructor
    · rintro ⟨r, hr⟩
      obtain ⟨found, hauth, -⟩ := (requireUserToken_bearer hb).mp hr
      exact ⟨found, hauth⟩
    · rintro ⟨found, hauth⟩
      exact ⟨_, (requireUserToken_bearer hb).mpr ⟨found, hauth, rfl⟩⟩
  rw [hauthed, authenticate_iff hs.sound (extractBearer_ne hb), ← hs.grants]
  constructor
  · rintro ⟨id, token, hrow, hhash, hv⟩
    exact ⟨id, token.grant, by rw [OllamaProxy.grants, Table.get?_map, hrow]; rfl, hhash, hv⟩
  · rintro ⟨id, g, hg, hhash, hv⟩
    rw [OllamaProxy.grants, Table.get?_map] at hg
    obtain ⟨token, hrow, rfl⟩ := Option.map_eq_some_iff.mp hg
    exact ⟨id, token, hrow, hhash, hv⟩

end TokenStore

namespace Sample

/-- The library on the strings of the sample requests. -/
def library : Library where
  hashKey s := if s = "opk_a" then "97c04d2f23b3d9edd1de705279167f94d665d7b15d78a7a878f316fd554092a2" else s
  lower s := if s = "Bearer" then "bearer" else s
  repr s := "'" ++ s ++ "'"
  fromisoformat s := .error ("Invalid isoformat string: '" ++ s ++ "'")
  schemeParam s := if s = "Bearer opk_a" then ("Bearer", "opk_a") else (s, "")

/-- 1970-01-01T04:00+02:00. -/
def twoOClock : DateTime := ⟨seconds 14400, some (seconds 7200), by decide⟩

/-- A token is minted, then gets an expiry. -/
def leased : List (ℤ × TokenOp) :=
  [(0, .createUserToken { label := "ci" } "opk_a"),
    (1, .patchUserToken 1 { expiresAt := some (some twoOClock) })]

end Sample

namespace TokenStore

theorem admits_iff_leased :
    let s := (run (step Sample.library) init Sample.leased).get (by decide)
    (∃ r, requireUserToken Sample.library s.table (some "Bearer opk_a") (seconds 3600) = .ok r) ↔
      ∃ id g, (replay s.history).get? id = some g ∧
        g.keyHash = Sample.library.hashKey "opk_a" ∧ g.Valid (seconds 3600) :=
  admits_iff (Option.some_get _).symm rfl _

end TokenStore

/-! ### Without a bearer -/

/-- The token exists and is active. -/
def IsActive (t : TokenTable) (id : ℕ) : Prop := ∃ token, t.get? id = some token ∧ token.status = .active

theorem hasAnyActiveToken_iff {t : TokenTable} : hasAnyActiveToken t = true ↔ ∃ id, IsActive t id := by
  unfold hasAnyActiveToken IsActive
  simp only [List.any_eq_true, decide_eq_true_eq, Table.get?_eq_some_iff]
  constructor
  · rintro ⟨⟨id, token⟩, hmem, hact⟩
    exact ⟨id, token, hmem, hact⟩
  · rintro ⟨id, token, hmem, hact⟩
    exact ⟨(id, token), hmem, hact⟩

/-- If there is a row, every request without a bearer is refused with 401. -/
def Closed (lib : Library) (t : TokenTable) : Prop :=
  (∃ id, (t.get? id).isSome = true) → ∀ auth now, extractBearer lib auth = none →
    requireUserToken lib t auth now = .error (.http 401 "missing Authorization: Bearer <opk_…>")

theorem closed_iff {lib : Library} {t : TokenTable} :
    Closed lib t ↔ ((∃ id, (t.get? id).isSome = true) → ∃ id, IsActive t id) := by
  have hnone : extractBearer lib none = none := rfl
  constructor
  · intro h hrow
    have hreq := h hrow none 0 hnone
    by_contra hno
    have hfalse : hasAnyActiveToken t = false := by
      rw [← Bool.not_eq_true, hasAnyActiveToken_iff]
      exact hno
    simp [requireUserToken, hnone, hfalse] at hreq
  · intro h hrow auth now hauth
    have htrue := hasAnyActiveToken_iff.mpr (h hrow)
    simp [requireUserToken, hauth, htrue]

/-- No other token is active. -/
def OnlyActive (t : TokenTable) (id : ℕ) : Prop := IsActive t id ∧ ∀ j, IsActive t j → j = id

/-- The change revokes the only active token, or removes it while other rows
remain. -/
def Change.Unlocks (t : TokenTable) : Change → Prop
  | mint _ _ => False
  | amend id status _ => status = some .revoked ∧ OnlyActive t id
  | remove id => OnlyActive t id ∧ ∃ j ≠ id, (t.get? j).isSome = true

section

variable {lib : Library} {now : ℤ} {t t' : TokenTable} {id : ℕ}

theorem isActive_modify_of_ne {f : UserToken → UserToken} {j : ℕ} (h : j ≠ id) :
    IsActive (t.modify id f) j ↔ IsActive t j := by
  simp [IsActive, Table.get?_modify_of_ne t h]

theorem isActive_erase {j : ℕ} : IsActive (t.erase id) j ↔ j ≠ id ∧ IsActive t j := by
  by_cases h : j = id <;> simp [IsActive, Table.get?_erase, h]

/-- Where the proxy is closed: some active token is another one, or `id` is the
only one. -/
theorem exists_other_iff (hact : ∃ j, IsActive t j) :
    (∃ j ≠ id, IsActive t j) ↔ ¬ OnlyActive t id := by
  constructor
  · rintro ⟨j, hne, hj⟩ honly
    exact hne (honly.2 j hj)
  · intro hnot
    obtain ⟨i, hi⟩ := hact
    by_cases h : i = id
    · subst h
      by_contra hno
      exact hnot ⟨hi, fun j hj => by_contra fun hne => hno ⟨j, hne, hj⟩⟩
    · exact ⟨i, h, hi⟩

theorem UserToken.update_status (label : Option String) (expiresAt : Option DateTime) (clear : Bool)
    (status : Option UserTokenStatus) (now : ℤ) (token : UserToken) :
    (token.update label expiresAt clear status now).status = status.getD token.status := by
  unfold UserToken.update
  simp only
  split_ifs <;> rfl

/-- An update leaves an active token unless it revokes the only one. -/
theorem exists_active_updateToken_iff {label : Option String} {expiresAt : Option DateTime} {clear : Bool}
    {status : Option UserTokenStatus} (hrow : (t.get? id).isSome = true) (hact : ∃ j, IsActive t j) :
    (∃ j, IsActive (updateToken t id label expiresAt clear status now) j) ↔
      ¬ (status = some .revoked ∧ OnlyActive t id) := by
  have hself : IsActive (updateToken t id label expiresAt clear status now) id ↔
      ∃ token, t.get? id = some token ∧ status.getD token.status = .active := by
    unfold IsActive updateToken
    simp [Table.get?_modify_self, UserToken.update_status]
  rcases status with _ | _ | _
  · -- the status stays
    refine iff_of_true ?_ (by simp)
    obtain ⟨j, hj⟩ := hact
    by_cases h : j = id
    · subst h
      exact ⟨j, hself.mpr hj⟩
    · exact ⟨j, (isActive_modify_of_ne h).mpr hj⟩
  · -- it becomes active
    obtain ⟨token, htoken⟩ := Option.isSome_iff_exists.mp hrow
    exact iff_of_true ⟨id, hself.mpr ⟨token, htoken, rfl⟩⟩ (by simp)
  · -- it becomes revoked: another one has to be active
    have hnot : ¬ IsActive (updateToken t id label expiresAt clear (some .revoked) now) id := by
      rw [hself]
      rintro ⟨token, -, h⟩
      cases h
    simp only [true_and]
    rw [← exists_other_iff hact]
    constructor
    · rintro ⟨j, hj⟩
      have hne : j ≠ id := fun h => hnot (h ▸ hj)
      exact ⟨j, hne, (isActive_modify_of_ne hne).mp hj⟩
    · rintro ⟨j, hne, hj⟩
      exact ⟨j, (isActive_modify_of_ne hne).mpr hj⟩

/-- A deletion leaves an active token, if it leaves any, unless it deletes the
only one. -/
theorem closed_erase_iff (hact : ∃ j, IsActive t j) :
    ((∃ i, ((t.erase id).get? i).isSome = true) → ∃ i, IsActive (t.erase id) i) ↔
      ¬ (OnlyActive t id ∧ ∃ j ≠ id, (t.get? j).isSome = true) := by
  have hrows : (∃ i, ((t.erase id).get? i).isSome = true) ↔ ∃ j ≠ id, (t.get? j).isSome = true := by
    refine exists_congr fun i => ?_
    by_cases h : i = id <;> simp [Table.get?_erase, h]
  have hactive : (∃ i, IsActive (t.erase id) i) ↔ ∃ j ≠ id, IsActive t j :=
    exists_congr fun i => isActive_erase
  rw [hrows, hactive, exists_other_iff hact, and_comm, not_and]

/-- A step keeps the proxy closed exactly if it does not unlock it. -/
theorem TokenStep.closed_iff {change : Option Change} (h : TokenStep lib now t change t')
    (hc : (∃ id, (t.get? id).isSome = true) → ∃ id, IsActive t id) :
    ((∃ id, (t'.get? id).isSome = true) → ∃ id, IsActive t' id) ↔ ∀ c ∈ change, ¬ c.Unlocks t := by
  have hsome : ∀ c : Change, (∀ c' ∈ some c, ¬ c'.Unlocks t) ↔ ¬ c.Unlocks t := fun c => by simp
  cases h with
  | minted rawKey label expiresAt hutc hfresh =>
    rw [hsome]
    exact iff_of_true (fun _ => ⟨t.nextId, _, by rw [Table.get?_insert, if_pos rfl], rfl⟩) fun h => h
  | amended id label expiresAt clear status hutc hrow =>
    have hrow' : ∃ i, ((updateToken t id label expiresAt clear status now).get? i).isSome = true :=
      ⟨id, by rw [updateToken, Table.get?_modify_self, Option.isSome_map, hrow]⟩
    rw [hsome, Change.Unlocks, ← exists_active_updateToken_iff hrow (hc ⟨id, hrow⟩)]
    exact ⟨fun h => h hrow', fun h _ => h⟩
  | kept id =>
    rw [hsome]
    refine iff_of_true hc ?_
    rintro ⟨hs, -⟩
    cases hs
  | removed id hrow =>
    rw [hsome, Change.Unlocks]
    exact closed_erase_iff (hc ⟨id, hrow⟩)
  | counted id token hrow =>
    refine iff_of_true (fun _ => ?_) fun c hchange => (by cases hchange)
    obtain ⟨j, a, hj, hact⟩ := hc ⟨id, by rw [hrow]; rfl⟩
    by_cases h : j = id
    · subst h
      cases hrow.symm.trans hj
      exact ⟨j, token.bump now, by rw [Table.get?_modify_self, hrow]; rfl, hact⟩
    · exact ⟨j, (isActive_modify_of_ne h).mpr ⟨a, hj, hact⟩⟩
  | passed => exact iff_of_true hc fun c hchange => (by cases hchange)

end

namespace TokenStore

variable {lib : Library} {s s' : TokenStore} {a : ℤ × TokenOp}

/-- The request, if it is accepted, does not unlock the proxy. -/
def KeepsClosed (lib : Library) (s : TokenStore) (a : ℤ × TokenOp) : Prop :=
  (∃ t, a.2.perform lib a.1 s.table = .ok t) → ∀ c ∈ a.2.change lib, ¬ c.Unlocks s.table

theorem step_closed_iff (hc : Closed lib s.table) (h : s.step lib a = some s') :
    Closed lib s'.table ↔ KeepsClosed lib s a := by
  rw [closed_iff] at hc ⊢
  rcases step_cases h with ⟨⟨e, he⟩, rfl⟩ | ⟨t, ht, hstep, rfl⟩
  · refine iff_of_true hc ?_
    rintro ⟨t, ht⟩
    rw [he] at ht
    cases ht
  · rw [hstep.closed_iff hc]
    exact ⟨fun h _ => h, fun h => h ⟨t, ht⟩⟩

theorem run_isSome (lib : Library) : ∀ (as : List (ℤ × TokenOp)) (s : TokenStore),
    (run (step lib) s as).isSome = true
  | [], s => rfl
  | a :: as, s => by
    have hstep : ∃ s1, s.step lib a = some s1 := by
      unfold step
      split <;> exact ⟨_, rfl⟩
    obtain ⟨s1, h1⟩ := hstep
    rw [run, h1, Option.bind_some]
    exact run_isSome lib as s1

/-- From the empty table: in every state of a run that has a row, a request
without a bearer is refused, exactly if no accepted request revokes the only
active token or deletes it while other rows remain. -/
theorem closed_throughout_iff (lib : Library) (as : List (ℤ × TokenOp)) :
    Throughout (step lib) (fun s => Closed lib s.table) init as ↔
      Along (step lib) (KeepsClosed lib) init as := by
  obtain ⟨s', hrun⟩ := Option.isSome_iff_exists.mp (run_isSome lib as init)
  have hinit : Closed lib init.table := by
    rw [closed_iff]
    rintro ⟨id, h⟩
    cases h
  exact throughout_iff_along (A := fun _ => True) (I := fun _ => True) (fun _ _ _ _ _ => trivial)
    (fun _ _ _ _ hc _ h => step_closed_iff hc h) trivial hinit (fun _ _ => trivial) hrun

/-- The only token is minted and revoked; the request that was refused in
between is admitted. -/
theorem revokedLast_open :
    ∃ s s', run (step Sample.library) init [(0, .createUserToken { label := "ci" } "opk_a")] = some s ∧
      requireUserToken Sample.library s.table none 1 =
        .error (.http 401 "missing Authorization: Bearer <opk_…>") ∧
      s.step Sample.library (1, .patchUserToken 1 { status := some (some .revoked) }) = some s' ∧
      (s'.table.get? 1).isSome = true ∧
      ∃ r, requireUserToken Sample.library s'.table none 2 = .ok r := by
  let s := (run (step Sample.library) init [(0, .createUserToken { label := "ci" } "opk_a")]).get
    (by decide)
  let s' := (s.step Sample.library (1, .patchUserToken 1 { status := some (some .revoked) })).get
    (by decide)
  exact ⟨s, s', (Option.some_get _).symm, rfl, (Option.some_get _).symm, by decide, _, rfl⟩

end TokenStore

end OllamaProxy
