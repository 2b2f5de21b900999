/-
# Reservations

The key manager and the requests are a ledger (`World.ledger`): a request holds
the id that `pick_next_key` returned to it until the matching release, and
`_in_flight` is the set of the reserved ids. Every step of the world is a step
of the ledger, so no two requests ever hold one key.

A reservation stays for good exactly where the `finally` block reads the id of
an expired copy: the steps that do it are those a recorder's commit or refresh
fails in (`Clean` says that a step is not one of them).

Key theorems: `step_ledger`, `run_exclusive`, `inFlight_empty_iff`.
-/
import OllamaProxy.Turns
import OllamaProxy.Lib.Ledger

namespace OllamaProxy

open Kit

namespace World

variable {rot : Rotation} {w w' : World} {a : Action}

/-- Who holds which key. -/
def ledger (w : World) : Ledger ℕ ℕ := ⟨fun p => (w.requests p).reserved, w.manager.inFlight⟩

theorem ledger_put (w : World) (p : ℕ) (x : Turn) :
    (w.put p x).ledger = ⟨Function.update w.ledger.holder p x.request.reserved, x.manager.inFlight⟩ := by
  unfold ledger
  congr
  funext r
  by_cases hr : r = p
  · subst hr
    simp
  · simp [put_requests_of_ne w hr, hr]

theorem step_ledger (hw : w.Sound) (h : w.step rot a = some w') :
    Ledger.Step w.ledger w'.ledger := by
  cases a with
  | start p kind =>
    obtain ⟨hpc, rfl⟩ := step_start h
    have hnone : (w.requests p).reserved = none := (hw p).free (by rw [hpc]; rfl) (by rw [hpc]; rfl)
    have hsame : ledger { w with requests := Function.update w.requests p (.start kind) } =
        w.ledger := by
      unfold ledger
      congr
      funext r
      by_cases hr : r = p
      · subst hr
        cases kind <;> simp [hnone, Request.start, Request.idle]
      · simp [hr]
    rw [hsame]
    exact .stutter _
  | resume p ev =>
    obtain ⟨x', hm, rfl⟩ := step_resume hw h
    rw [ledger_put]
    cases hm.reserves (hw p) with
    | keeps hr hf =>
      have hsame : Function.update w.ledger.holder p x'.request.reserved = w.ledger.holder :=
        Function.update_eq_self_iff.mpr hr
      rw [hsame, hf]
      exact .stutter _
    | takes id hfree hr hr' hf =>
      rw [hr', hf]
      exact .reserve w.ledger p id hr hfree
    | returns id hr hr' hf =>
      rw [hr', hf]
      exact .release w.ledger p id hr
  | admin op => cases h; exact .stutter _
  | tick d => cases h; exact .stutter _

theorem init_exclusive (t : KeyTable) (now : ℤ) : (init t now).ledger.Exclusive :=
  Ledger.exclusive_empty

theorem run_exclusive {t : KeyTable} {now : ℤ} {as : List Action}
    (h : run (step rot) (init t now) as = some w) : w.ledger.Exclusive := by
  have hstep : ∀ (w : World) (a : Action) (w' : World), w.Sound ∧ w.ledger.Exclusive → w.step rot a = some w' →
      w'.Sound ∧ w'.ledger.Exclusive :=
    fun w a w' ⟨hs, he⟩ h => ⟨step_sound hs h, he.step (step_ledger hs h)⟩
  exact (run_inv' hstep ⟨init_sound t now, init_exclusive t now⟩ h).2

/-- No two requests hold one key between the return of `pick_next_key` and the
matching release, and what a request holds is in `_in_flight`. -/
theorem reserved_unique {t : KeyTable} {now : ℤ} {as : List Action}
    (h : run (step rot) (init t now) as = some w) :
    (∀ p q id, (w.requests p).reserved = some id → (w.requests q).reserved = some id → p = q) ∧
      (∀ p id, (w.requests p).reserved = some id → id ∈ w.manager.inFlight) ∧
      ∀ p copy, (w.requests p).pc.holdsKey = true → (w.requests p).key = some copy →
        (w.requests p).reserved = some copy.id := by
  have he := run_exclusive h
  refine ⟨he.unique, fun p id hp => ?_, fun p copy hpc hkey => ?_⟩
  · exact (he.mem_reserved id).mpr ⟨p, hp⟩
  · exact (run_sound h p).reserved_eq hpc hkey

/-- A chat request and a model list, both at their upstream call. -/
def twoHolders : List Action :=
  [.start 0 Sample.chat, .start 1 .models] ++ Sample.oks 0 3 ++ Sample.oks 1 2

theorem reserved_unique_twoHolders :
    let w := (run (step Sample.rotation) (init Sample.pool 0) twoHolders).get (by decide)
    ((w.requests 0).reserved = some 1 ∧ (w.requests 1).reserved = some 2) ∧
      ∀ p id, (w.requests p).reserved = some id → id ∈ w.manager.inFlight :=
  ⟨by decide, (reserved_unique (Option.some_get _).symm).2.1⟩

/-! ### Leaks -/

/-- The step does not expire a copy that a `finally` block will read. -/
def Clean (w : World) : Action → Prop
  | .resume p ev => ∀ copy ∈ (w.requests p).key, (w.turn p).expires copy ev = false
  | _ => True

/-- No request has ended with a reservation. -/
def NoLeak (w : World) : Prop :=
  ∀ p, (w.requests p).pc.isDone = true → (w.requests p).reserved = none

end World

namespace Turn

variable {rot : Rotation} {now : ℤ} {p : ℕ} {x x' : Turn} {ev : Event}

theorem expires_eq_false (h : x.request.pc.isRecording = false) (copy : Copy) :
    x.expires copy ev = false := by
  cases hpc : x.request.pc <;> cases ev <;> simp_all [expires, Pc.isRecording]

theorem isRecording_of_expires {copy : Copy} (h : x.expires copy ev = true) :
    x.request.pc.isRecording = true := by
  by_contra hne
  rw [expires_eq_false (by simpa using hne)] at h
  cases h

theorem RecordMove.reserved_of_done {copy : Copy} (h : RecordMove x copy ev x')
    (hclean : x.expires copy ev = false) (hdone : x'.request.pc.isDone = true) :
    x'.request.reserved = none := by
  cases h with
  | recorded v ret t hpc hcommit => cases hdone
  | recordedUsage u ret t hpc hcommit => exact (Request.returned_rests _ _).reserved
  | refreshed ret row hpc hrow => exact (Request.returned_rests _ _).reserved
  | cancelled written rec ret t hpc ht => rfl
  | leaked t hev ht =>
    rw [hclean] at hev
    cases hev

/-- A request ends without a reservation, unless its last step expires its copy. -/
theorem Move.reserved_of_done (h : Move rot now p x ev x') (hx : x.request.Sound)
    (hclean : ∀ copy ∈ x.request.key, x.expires copy ev = false)
    (hdone : x'.request.pc.isDone = true) : x'.request.reserved = none := by
  cases h with
  | record copy hpc hkey h => exact h.reserved_of_done (hclean copy hkey) hdone
  | counted hpc =>
    exact (Request.nextIteration_rests _).reserved.trans (hx.free (by rw [hpc]; rfl) (by rw [hpc]; rfl))
  | quit answer hpc hev ha =>
    rcases hpc with hpc | hpc | ⟨deadline, hpc⟩ <;>
      exact hx.free (by rw [hpc]; rfl) (by rw [hpc]; rfl)
  | acquired hpc hlock => cases hdone
  | pick h =>
    have hnone := h.reserved_eq_none hx
    cases h with
    | emptied hpc hempty => cases hdone
    | reactivated updateNow hpc => cases hdone
    | left answer t hpc hev ht ha => exact hnone
    | missed hpc hall => exact (Request.noKey_reserved _ _).trans hnone
    | skipped id row m hpc hchoose hvault => exact (Request.returned_rests _ _).reserved
    | attempted id row m rawKey hpc hchoose hvault => cases hdone
  | slept deadline hpc =>
    rw [hpc] at hdone
    cases hdone
  | woke deadline hpc =>
    exact (Request.nextIteration_rests _).reserved.trans (hx.free (by rw [hpc]; rfl) (by rw [hpc]; rfl))
  | answer rawKey copy hpc hkey h =>
    cases h with
    | answered u rec ret hd => cases hdone
    | unrecorded u ret hd => exact (Request.returned_rests _ _).reserved
    | unread u e hd => rfl
    | hungUp written expired => rfl

/-- A step that expires the copy ends the request with its reservation. -/
theorem Move.leaks (h : Move rot now p x ev x') (hx : x.request.Sound) {copy : Copy}
    (hkey : x.request.key = some copy) (hexp : x.expires copy ev = true) :
    x'.request.pc.isDone = true ∧ x'.request.reserved = some copy.id := by
  have hrec := isRecording_of_expires hexp
  obtain ⟨copy', hkey', h⟩ := h.of_isRecording hrec
  cases hkey.symm.trans hkey'
  cases h with
  | leaked t hev ht => exact ⟨rfl, hx.reserved_eq (Pc.holdsKey_of_isRecording hrec) hkey⟩
  | recorded v ret t hpc hcommit => simp [expires, hpc, hcommit] at hexp
  | recordedUsage u ret t hpc hcommit => simp [expires, hpc, hcommit] at hexp
  | refreshed ret row hpc hrow => simp [expires, hpc, hrow] at hexp
  | cancelled written rec ret t hpc ht => simp [expires, hpc] at hexp

end Turn

namespace World

variable {rot : Rotation} {w w' : World} {a : Action}

/-- A step keeps the world free of leaks exactly if it is clean. -/
theorem step_noLeak_iff (hw : w.Sound) (hq : w.NoLeak) (h : w.step rot a = some w') :
    w'.NoLeak ↔ w.Clean a := by
  cases a with
  | start p kind =>
    obtain ⟨-, rfl⟩ := step_start h
    refine iff_of_true (fun r hr => ?_) trivial
    by_cases hrp : r = p
    · subst hrp
      cases kind <;> simp [Request.start, Pc.isDone] at hr
    · simp only [Function.update_of_ne hrp] at hr ⊢
      exact hq r hr
  | resume p ev =>
    obtain ⟨x', hm, rfl⟩ := step_resume hw h
    constructor
    · intro hno copy hkey
      by_contra hexp
      obtain ⟨hdone, hres⟩ := hm.leaks (hw p) hkey (by simpa using hexp)
      have hnone := hno p (by simpa using hdone)
      rw [put_requests_self, hres] at hnone
      cases hnone
    · intro hclean r hr
      by_cases hrp : r = p
      · subst hrp
        rw [put_requests_self] at hr ⊢
        exact hm.reserved_of_done (hw r) hclean hr
      · rw [put_requests_of_ne w hrp] at hr ⊢
        exact hq r hr
  | admin op => cases h; exact iff_of_true hq trivial
  | tick d => cases h; exact iff_of_true hq trivial

/-- A request that is done takes no step. -/
theorem step_done (h : w.step rot a = some w') {p : ℕ} (hp : (w.requests p).pc.isDone = true) :
    w'.requests p = w.requests p := by
  have hne : ∀ q, (w.requests q).pc.isDone ≠ true → p ≠ q := fun q hq he => hq (he ▸ hp)
  cases a with
  | start q kind =>
    obtain ⟨hpc, rfl⟩ := step_start h
    exact Function.update_of_ne (hne q (by rw [hpc]; decide)) _ _
  | resume q ev =>
    by_cases hpq : p = q
    · subst hpq
      cases hpc : (w.requests p).pc <;> rw [hpc] at hp <;> try cases hp
      simp [step, Turn.resume, hpc] at h
    · simp only [step, Option.map_eq_some_iff] at h
      obtain ⟨x', -, rfl⟩ := h
      exact put_requests_of_ne w hpq x'
  | admin op => cases h; rfl
  | tick d => cases h; rfl

theorem step_leak (h : w.step rot a = some w') (hleak : w'.NoLeak) : w.NoLeak := by
  intro p hp
  have hsame := step_done h hp
  rw [← hsame]
  exact hleak p (by rw [hsame]; exact hp)

theorem noLeak_throughout {as : List Action} {s : World} (h : run (step rot) s as = some w)
    (hno : w.NoLeak) : Throughout (step rot) NoLeak s as := by
  induction as generalizing s with
  | nil => cases h; exact hno
  | cons a as ih =>
    obtain ⟨s1, h1, h2⟩ := run_cons_iff.mp h
    have hrest := ih h2
    exact (throughout_cons h1).mpr ⟨step_leak h1 hrest.head, hrest⟩

/-- Once nothing runs, the keys in flight are the leaked ones. -/
theorem inFlight_eq_empty_iff_noLeak (hw : w.Sound) (he : w.ledger.Exclusive)
    (hq : ∀ p, (w.requests p).isRunning = false) : w.manager.inFlight = ∅ ↔ w.NoLeak := by
  have hiff := he.reserved_eq_empty_iff
  constructor
  · intro hempty p _
    exact hiff.mp hempty p
  · intro hno
    refine hiff.mpr fun p => ?_
    have hp := hq p
    cases hpc : (w.requests p).pc with
    | idle => exact (hw p).free (by rw [hpc]; rfl) (by rw [hpc]; rfl)
    | done answer => exact hno p (by rw [hpc]; rfl)
    | _ => simp [Request.isRunning, hpc] at hp

/-- Once nothing runs, no key stays reserved exactly if every step was clean. -/
theorem inFlight_empty_iff {t : KeyTable} {now : ℤ} {as : List Action}
    (h : run (step rot) (init t now) as = some w) (hq : ∀ p, (w.requests p).isRunning = false) :
    w.manager.inFlight = ∅ ↔ Along (step rot) Clean (init t now) as := by
  have hinit : (init t now).NoLeak := fun _ _ => rfl
  have hrun := throughout_iff_along (A := fun _ => True) (P := Clean) (fun _ _ _ => step_sound)
    (fun _ _ _ hI hQ _ hs => step_noLeak_iff hI hQ hs) (init_sound t now) hinit (fun _ _ => trivial) h
  rw [inFlight_eq_empty_iff_noLeak (run_sound h) (run_exclusive h) hq, ← hrun]
  exact ⟨noLeak_throughout h, fun ht => ht.last h⟩

/-- A model list that succeeds. -/
def listed : List Action :=
  [.start 0 .models] ++ Sample.oks 0 2 ++ [.resume 0 (.answer (Sample.reply 200))] ++ Sample.oks 0 2

theorem inFlight_empty_iff_listed :
    let w := (run (step Sample.rotation) (init Sample.pool 0) listed).get (by decide)
    w.manager.inFlight = ∅ ↔ Along (step Sample.rotation) Clean (init Sample.pool 0) listed :=
  inFlight_empty_iff (Option.some_get _).symm fun p => by rcases p with _ | p <;> rfl

/-- The key is deleted while the request waits for its upstream answer. -/
def deletedInUse : List Action :=
  [.start 0 .models] ++ Sample.oks 0 2 ++
    [.admin (.deleteKey 1), .resume 0 (.answer (Sample.reply 200)), .resume 0 .ok]

theorem deletedInUse_leaks :
    ∃ w, run (step Sample.rotation) (init Sample.pool 0) deletedInUse = some w ∧
      (∀ p, (w.requests p).isRunning = false) ∧ w.manager.inFlight = {1} := by
  refine ⟨(run (step Sample.rotation) (init Sample.pool 0) deletedInUse).get (by decide),
    (Option.some_get _).symm, fun p => ?_, by decide⟩
  rcases p with _ | p <;> rfl

end World

end OllamaProxy
