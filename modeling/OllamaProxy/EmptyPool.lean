/-
# The verdict that no key is configured

`execute_with_rotation` gives this answer where it counted no active key and
the first selection returned none. The count and the selection are two reads:
between them another request may have reactivated a key and reserved it, and
then the selection returns none because the key is in flight. `Clear` excludes
exactly that, and a margin that leaves no iteration at all.

Key definitions: `Request.CountedNone`, `Truthful`, `Clear`.
Key theorems: `Move.noActiveKeys`, `truthful_iff_clear`.
-/
import OllamaProxy.Turns

namespace OllamaProxy

open Kit

def noActiveKeys : Answer := .proxy 503 "no active keys configured"

theorem verdict_eq_noActiveKeys {requestedModel : Option String} {n : ℕ} {anyAttempt all404 : Bool} :
    verdict requestedModel n anyAttempt all404 = noActiveKeys ↔ n = 0 ∧ anyAttempt = false := by
  unfold verdict noActiveKeys
  cases anyAttempt with
  | false => by_cases hn : n = 0 <;> simp [hn]
  | true =>
    refine iff_of_false ?_ (by simp)
    cases requestedModel with
    | none => simp
    | some model =>
      simp only [Bool.not_true, Bool.false_eq_true, if_false]
      split_ifs <;> simp

theorem failed_ne_noActiveKeys (q : Request) : q.failed ≠ noActiveKeys := by
  unfold Request.failed noActiveKeys
  split <;> simp

namespace Request

/-- A chat request that counted no active key and has had none. -/
def CountedNone (q : Request) : Prop :=
  (∃ requestedModel stream, q.kind = .chat requestedModel stream) ∧ q.initialCount = 0 ∧
    q.anyAttempt = false

/-- The request is answered that no key is configured. -/
def TurnedAway (q : Request) : Prop := q.answer? = some noActiveKeys

theorem turnedAway_stop {q : Request} {answer : Answer} :
    (q.stop answer).TurnedAway ↔ answer = noActiveKeys := Option.some_inj

theorem turnedAway_giveUp {q : Request} : q.giveUp.TurnedAway ↔ q.CountedNone := by
  unfold giveUp CountedNone
  cases hk : q.kind with
  | models => simp [turnedAway_stop, noActiveKeys]
  | chat requestedModel stream =>
    show (q.stop _).TurnedAway ↔ _
    rw [turnedAway_stop, verdict_eq_noActiveKeys]
    exact ⟨fun h => ⟨⟨_, _, rfl⟩, h⟩, fun h => h.2⟩

theorem turnedAway_nextIteration {q : Request} :
    q.nextIteration.TurnedAway ↔ q.left = 0 ∧ q.CountedNone := by
  unfold nextIteration
  cases hl : q.left with
  | zero => exact turnedAway_giveUp.trans (by simp)
  | succ left => simp [TurnedAway, answer?]

theorem turnedAway_noKey {q : Request} {now : ℤ} : (q.noKey now).TurnedAway ↔ q.CountedNone := by
  unfold noKey
  cases hk : q.kind with
  | models => simp [turnedAway_stop, noActiveKeys, CountedNone, hk]
  | chat requestedModel stream =>
    by_cases h0 : q.initialCount = 0
    · simp only [h0, if_true]
      rw [turnedAway_giveUp]
      simp [CountedNone, hk, h0]
    · simp [TurnedAway, answer?, CountedNone, h0]

theorem not_turnedAway_returned {q : Request} (h : q.anyAttempt = true) (ret : Return) :
    ¬ (q.returned ret).TurnedAway := by
  cases ret with
  | models ok ids => exact fun hq => by cases turnedAway_stop.mp hq
  | outcome o =>
    simp only [returned]
    split
    · rw [turnedAway_nextIteration]
      rintro ⟨-, -, -, hno⟩
      exact absurd (hno.symm.trans h) Bool.false_ne_true
    · split
      · exact fun hq => by cases turnedAway_stop.mp hq
      · exact fun hq => by cases turnedAway_stop.mp hq
      · exact fun hq => failed_ne_noActiveKeys q (turnedAway_stop.mp hq)

/-- What a request knows of its own loop: only a chat request counts, and before
its first attempt; it waits only if it counted a key; and one that holds a key
has made an attempt. -/
structure Candid (q : Request) : Prop where
  counting : q.pc = .count → (∃ requestedModel stream, q.kind = .chat requestedModel stream) ∧
    q.anyAttempt = false
  waiting : ∀ deadline, q.pc = .wait deadline → q.initialCount ≠ 0
  holding : q.pc.holdsKey = true → q.anyAttempt = true

theorem Candid.of_pc {q : Request} (hcount : q.pc ≠ .count) (hwait : ∀ deadline, q.pc ≠ .wait deadline)
    (hheld : q.pc.holdsKey = false) : q.Candid where
  counting h := absurd h hcount
  waiting deadline h := absurd h (hwait deadline)
  holding h := absurd (hheld.symm.trans h) Bool.false_ne_true

theorem Rests.candid {q q' : Request} (h : q.Rests q') : q'.Candid := by
  rcases h.pc with hpc | ⟨answer, hpc⟩ <;>
    exact .of_pc (by rw [hpc]; nofun) (by rw [hpc]; nofun) (by rw [hpc]; rfl)

theorem noKey_candid (q : Request) (now : ℤ) : (q.noKey now).Candid := by
  unfold noKey
  cases hk : q.kind with
  | models => exact (stop_rests _ _).candid
  | chat requestedModel stream =>
    by_cases h0 : q.initialCount = 0
    · simp only [h0, if_true]
      exact (giveUp_rests _).candid
    · simp only [h0, if_false]
      exact ⟨nofun, fun _ _ => h0, nofun⟩

theorem Candid.idle : idle.Candid := .of_pc nofun nofun rfl

theorem Candid.start (kind : Kind) : (start kind).Candid := by
  cases kind with
  | chat requestedModel stream =>
    exact ⟨fun _ => ⟨⟨_, _, rfl⟩, rfl⟩, nofun, nofun⟩
  | models => exact .of_pc nofun nofun rfl

end Request

/-! ### One turn -/

namespace Turn

variable {rot : Rotation} {now : ℤ} {p : ℕ} {x x' : Turn} {ev : Event}

theorem Move.candid (h : Move rot now p x ev x') (hx : x.request.Candid) : x'.request.Candid := by
  cases h with
  | counted hpc => exact (Request.nextIteration_rests _).candid
  | quit answer hpc hev ha => exact (Request.stop_rests _ _).candid
  | acquired hpc hlock => exact .of_pc nofun nofun rfl
  | pick h =>
    cases h with
    | emptied hpc hempty => exact .of_pc nofun nofun rfl
    | reactivated updateNow hpc => exact .of_pc nofun nofun rfl
    | left answer t hpc hev ht ha => exact (Request.stop_rests _ _).candid
    | missed hpc hall => exact Request.noKey_candid _ _
    | skipped id row m hpc hchoose hvault => exact (Request.returned_rests _ _).candid
    | attempted id row m rawKey hpc hchoose hvault =>
      exact ⟨nofun, nofun, fun _ => rfl⟩
  | slept deadline hpc => exact hx
  | woke deadline hpc => exact (Request.nextIteration_rests _).candid
  | answer rawKey copy hpc hkey h =>
    have hheld := hx.holding (by rw [hpc]; rfl)
    cases h with
    | answered u rec ret hd => exact ⟨nofun, nofun, fun _ => hheld⟩
    | unrecorded u ret hd => exact (Request.returned_rests _ _).candid
    | unread u e hd => exact (Request.stop_rests _ _).candid
    | hungUp written expired => exact (Request.stop_rests _ _).candid
  | record copy hpc hkey h =>
    have hheld := hx.holding (Pc.holdsKey_of_isRecording hpc)
    cases h with
    | recorded v ret t hpc hcommit =>
      exact ⟨nofun, nofun, fun _ => hheld⟩
    | recordedUsage u ret t hpc hcommit => exact (Request.returned_rests _ _).candid
    | refreshed ret row hpc hrow => exact (Request.returned_rests _ _).candid
    | cancelled written rec ret t hpc ht => exact (Request.stop_rests _ _).candid
    | leaked t hev ht => exact (Request.stop_rests _ _).candid

/-- The count of the pool leaves the loop no iteration. -/
def CountsOut (rot : Rotation) (x : Turn) : Prop :=
  x.request.pc = .count ∧ countActive x.table = 0 ∧ rot.safetyMargin < 0

/-- The selection finds no key that is free, in a request that counted none. -/
def MissesAll (x : Turn) : Prop :=
  x.Selects ∧ x.request.CountedNone ∧ ∀ id, HasStatus x.table id .active → id ∈ x.manager.inFlight

theorem maxIter_zero_eq_zero {rot : Rotation} : maxIter rot 0 = 0 ↔ rot.safetyMargin < 0 := by
  unfold maxIter
  omega

theorem maxIter_eq_zero {n : ℕ} (h : n = 0) : maxIter rot n = 0 ↔ rot.safetyMargin < 0 := by
  rw [h, maxIter_zero_eq_zero]

theorem not_turnedAway_of_aborted {q : Request} {answer : Answer} (h : Aborted q answer) :
    answer ≠ noActiveKeys := by
  rcases h with h | h <;> rw [h]
  · exact failed_ne_noActiveKeys q
  · simp [noActiveKeys]

/-- The two ways to this answer. -/
theorem Move.noActiveKeys (h : Move rot now p x ev x') (hx : x.request.Candid)
    (hans : x'.request.TurnedAway) :
    ev = .ok ∧ (x.CountsOut rot ∨ (x.MissesAll ∧ x'.table = x.table)) := by
  cases h with
  | counted hpc =>
    obtain ⟨hleft, hnone⟩ := Request.turnedAway_nextIteration.mp hans
    have hcount : countActive x.table = 0 := hnone.2.1
    exact ⟨rfl, Or.inl ⟨hpc, hcount, (maxIter_eq_zero hcount).mp hleft⟩⟩
  | quit answer hpc hev ha =>
    exact absurd (Request.turnedAway_stop.mp hans) (not_turnedAway_of_aborted ha)
  | acquired hpc hlock => cases hans
  | pick h =>
    cases h with
    | emptied hpc hempty => cases hans
    | reactivated updateNow hpc => cases hans
    | left answer t hpc hev ht ha =>
      exact absurd (Request.turnedAway_stop.mp hans) (not_turnedAway_of_aborted ha)
    | missed hpc hall =>
      refine ⟨rfl, Or.inr ⟨⟨hpc, Request.turnedAway_noKey.mp hans, fun id hid => ?_⟩, rfl⟩⟩
      obtain ⟨row, hrow⟩ := exists_mem_loadActive.mpr hid
      exact hall _ hrow
    | skipped id row m hpc hchoose hvault => exact absurd hans (Request.not_turnedAway_returned rfl _)
    | attempted id row m rawKey hpc hchoose hvault => cases hans
  | slept deadline hpc => cases hpc.symm.trans (Request.answer?_eq_some_iff.mp hans)
  | woke deadline hpc =>
    obtain ⟨-, -, hzero, -⟩ := Request.turnedAway_nextIteration.mp hans
    exact absurd hzero (hx.waiting deadline hpc)
  | answer rawKey copy hpc hkey h =>
    have hheld := hx.holding (by rw [hpc]; rfl)
    cases h with
    | answered u rec ret hd => cases hans
    | unrecorded u ret hd => exact absurd hans (Request.not_turnedAway_returned (by exact hheld) _)
    | unread u e hd => exact absurd (Request.turnedAway_stop.mp hans) (failed_ne_noActiveKeys _)
    | hungUp written expired => cases Request.turnedAway_stop.mp hans
  | record copy hpc hkey h =>
    have hheld := hx.holding (Pc.holdsKey_of_isRecording hpc)
    cases h with
    | recorded v ret t hpc hcommit => cases hans
    | recordedUsage u ret t hpc hcommit =>
      exact absurd hans (Request.not_turnedAway_returned (by exact hheld) _)
    | refreshed ret row hpc hrow => exact absurd hans (Request.not_turnedAway_returned (by exact hheld) _)
    | cancelled written rec ret t hpc ht => cases Request.turnedAway_stop.mp hans
    | leaked t hev ht => exact absurd (Request.turnedAway_stop.mp hans) (failed_ne_noActiveKeys _)

/-- A request whose count leaves no iteration gets the answer at once. -/
theorem CountsOut.turnedAway (h : x.CountsOut rot) (hx : x.request.Candid) :
    ∃ x', x.resume rot now p .ok = some x' ∧ x'.request.TurnedAway := by
  obtain ⟨hpc, hcount, hmargin⟩ := h
  obtain ⟨hchat, hno⟩ := hx.counting hpc
  refine ⟨_, by simp only [resume, hpc]; rfl, ?_⟩
  exact Request.turnedAway_nextIteration.mpr ⟨(maxIter_eq_zero hcount).mpr hmargin, hchat, hcount, hno⟩

theorem Selects.resume (h : x.Selects) : x.resume rot now p .ok = some (x.pick rot now) := by
  rcases h with ⟨hpc, hne⟩ | hpc
  · have hempty : (loadActive x.table).isEmpty = false := by simpa using hne
    simp [Turn.resume, hpc, onLoad, hempty]
  · simp [Turn.resume, hpc, onReload]

theorem MissesAll.turnedAway (h : x.MissesAll) :
    ∃ x', x.resume rot now p .ok = some x' ∧ x'.request.TurnedAway ∧ x'.table = x.table := by
  obtain ⟨hsel, hnone, hall⟩ := h
  have hchoose : (x.manager.choose (loadActive x.table)).1 = none :=
    choose_eq_none_iff.mpr fun k hk => hall k.1 (exists_mem_loadActive.mp ⟨k.2, hk⟩)
  refine ⟨_, hsel.resume, ?_⟩
  unfold pick
  rw [choose_unlocked]
  cases hc : x.manager.choose (loadActive x.table) with
  | mk k m =>
    rw [hc] at hchoose
    cases hchoose
    exact ⟨Request.turnedAway_noKey.mpr hnone, rfl⟩

end Turn

/-! ### Runs -/

namespace World

variable {rot : Rotation} {w w' : World} {a : Action}

/-- If the step answers a request that no key is configured, then it is the end
of a selection, and no key is active. -/
def Truthful (rot : Rotation) (w : World) (a : Action) : Prop :=
  ∀ p w', w.step rot a = some w' → ¬ (w.requests p).TurnedAway → (w'.requests p).TurnedAway →
    (w.turn p).Selects ∧ ∀ id, ¬ HasStatus w'.table id .active

/-- A request that counted no active key does not select while some keys are
active and all of them are in flight; and the margin leaves an iteration to one
that counts none. -/
def Clear (rot : Rotation) (w : World) : Action → Prop
  | .resume p .ok => ¬ (w.turn p).CountsOut rot ∧
      ((w.turn p).MissesAll → ∀ id, ¬ HasStatus w.table id .active)
  | _ => True

theorem step_candid (hs : w.Sound) (hw : ∀ p, (w.requests p).Candid) (h : w.step rot a = some w') :
    ∀ p, (w'.requests p).Candid := by
  intro r
  cases step_request hs h r with
  | keeps hturn hreq =>
    rw [hreq]
    exact hw r
  | starts kind hturn hpc htable hreq =>
    rw [hreq]
    exact Request.Candid.start kind
  | turns ev x' ha hw' hm =>
    rw [hw', put_requests_self]
    exact hm.candid (hw r)

/-- The step of a turn, run from its await. -/
theorem step_resume_eq {p : ℕ} {x' : Turn} (hx : (w.turn p).resume rot w.now p .ok = some x') :
    w.step rot (.resume p .ok) = some (w.put p x') := by
  simp [step, hx]

theorem truthful_step_iff (hs : w.Sound) (hw : ∀ p, (w.requests p).Candid)
    (h : w.step rot a = some w') : w.Truthful rot a ↔ w.Clear rot a := by
  constructor
  · intro htrue
    cases a with
    | resume p ev =>
      cases ev with
      | ok =>
        have hgo : ∀ x', (w.turn p).resume rot w.now p .ok = some x' → x'.request.TurnedAway →
            ¬ (w.requests p).TurnedAway → (w.turn p).Selects ∧ ∀ id, ¬ HasStatus x'.table id .active := by
          intro x' hx' hans hnot
          exact htrue p (w.put p x') (step_resume_eq hx') hnot (by rw [put_requests_self]; exact hans)
        have hrunning : ∀ {pc : Pc}, (w.requests p).pc = pc → pc.isDone = false →
            ¬ (w.requests p).TurnedAway := by
          intro pc hpc hd hans
          have hdone := hpc.symm.trans (Request.answer?_eq_some_iff.mp hans)
          rw [hdone] at hd
          cases hd
        constructor
        · intro hout
          obtain ⟨x', hx', hans⟩ : ∃ x', (w.turn p).resume rot w.now p .ok = some x' ∧
              x'.request.TurnedAway := hout.turnedAway (hw p)
          have hsel := (hgo x' hx' hans (hrunning hout.1 rfl)).1
          have hheld := hsel.holdsLock
          rw [hout.1] at hheld
          cases hheld
        · intro hmiss
          obtain ⟨x', hx', hans, ht⟩ : ∃ x', (w.turn p).resume rot w.now p .ok = some x' ∧
              x'.request.TurnedAway ∧ x'.table = (w.turn p).table := hmiss.turnedAway
          have hdone := Pc.not_holdsKey_of_holdsLock hmiss.1.holdsLock
          have hno := (hgo x' hx' hans (hrunning rfl hdone.2.2)).2
          rw [ht] at hno
          exact hno
      | _ => trivial
    | _ => trivial
  · intro hclear p w'' h'' hnot hans
    cases h.symm.trans h''
    cases step_request hs h p with
    | keeps hturn hreq =>
      rw [hreq] at hans
      exact absurd hans hnot
    | starts kind hturn hpc htable hreq =>
      rw [hreq] at hans
      cases kind <;> cases hans
    | turns ev x' ha hw' hm =>
      rw [hw', put_requests_self] at hans
      obtain ⟨rfl, hout | ⟨hmiss, ht⟩⟩ := hm.noActiveKeys (hw p) hans
      · rw [ha] at hclear
        exact absurd hout hclear.1
      · rw [ha] at hclear
        refine ⟨hmiss.1, fun id => ?_⟩
        rw [hw', put_table, ht]
        exact hclear.2 hmiss id

/-- Every answer that no key is configured is given by a selection after which
no key is active, exactly if no request that counted none selects while keys
are active and all in flight. -/
theorem truthful_iff_clear {t : KeyTable} {now : ℤ} {as : List Action}
    (h : run (step rot) (init t now) as = some w) :
    Along (step rot) (Truthful rot) (init t now) as ↔ Along (step rot) (Clear rot) (init t now) as :=
  along_congr (I := fun s => s.Sound ∧ ∀ p, (s.requests p).Candid)
    (fun _ _ _ hI hs => ⟨step_sound hI.1 hs, step_candid hI.1 hI.2 hs⟩)
    (fun _ _ _ hI hs => truthful_step_iff hI.1 hI.2 hs)
    ⟨init_sound t now, fun _ => Request.Candid.idle⟩ h

/-- One key, depleted, whose cooldown is over at time 1. -/
def expiredKey : KeyTable :=
  Table.empty.insert { Sample.key "a" with status := .depleted, cooldownUntil := some 1 }

/-- Two chat requests count; the first reactivates the key and reserves it
before the second selects. -/
def overtaken : List Action :=
  [.start 0 Sample.chat, .start 1 Sample.chat, .resume 0 .ok, .resume 1 .ok] ++ Sample.oks 0 4 ++
    Sample.oks 1 2

theorem truthful_iff_clear_overtaken :
    Along (step Sample.rotation) (Truthful Sample.rotation) (init expiredKey 1) overtaken ↔
      Along (step Sample.rotation) (Clear Sample.rotation) (init expiredKey 1) overtaken :=
  truthful_iff_clear (w := (run (step Sample.rotation) (init expiredKey 1) overtaken).get (by decide))
    (Option.some_get _).symm

theorem overtaken_turnedAway :
    ∃ w, run (step Sample.rotation) (init expiredKey 1) overtaken = some w ∧
      (w.requests 1).answer? = some noActiveKeys ∧ HasStatus w.table 1 .active ∧
      (w.requests 0).reserved = some 1 :=
  ⟨(run (step Sample.rotation) (init expiredKey 1) overtaken).get (by decide),
    (Option.some_get _).symm, by decide, by decide, by decide⟩

end World

end OllamaProxy
