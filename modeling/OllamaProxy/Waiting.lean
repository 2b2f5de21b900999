/-
# Waiting for a slot

`_wait_for_free_slot` polls until its deadline and returns early only where
nothing at all is in flight. Otherwise it returns `slept`, which the first sleep
has set: it returns `True` whether or not a key is free, and the branch of its
caller that stops waiting is never taken. So a request that meets a saturated
pool waits once for each of its iterations.

Key definitions: `Poll`, `waitPolls`, `FollowsSlots`.
Key theorems: `waitPolls_eq`, `followsSlots_iff`, `wait_follows_iff`.
-/
import OllamaProxy.Budget

namespace OllamaProxy

open Kit

/-- What `_wait_for_free_slot` finds at the end of a sleep. -/
structure Poll where
  now : ℤ
  inFlight : Finset ℕ

/-- An active key is not in flight. -/
def Poll.Frees (active : List ℕ) (x : Poll) : Prop := ∃ id ∈ active, id ∉ x.inFlight

instance (active : List ℕ) (x : Poll) : Decidable (x.Frees active) :=
  inferInstanceAs (Decidable (∃ id ∈ active, id ∉ x.inFlight))

/-- The number of polls that the wait makes of these, and what it returns. -/
def waitPolls (deadline : ℤ) : List Poll → Option (ℕ × Bool)
  | [] => none
  | x :: xs =>
    match waitForFreeSlot deadline x.now x.inFlight with
    | some r => some (1, r)
    | none => (waitPolls deadline xs).map fun r => (r.1 + 1, r.2)

/-- The polls up to the deadline: the last one is the first that is not before
it. -/
def UpTo (deadline : ℤ) (polls : List Poll) : Prop :=
  ∃ early last, polls = early ++ [last] ∧ (∀ x ∈ early, x.now < deadline) ∧ deadline ≤ last.now

/-- The first poll at which an active key is free is `x`. -/
def FreedAt (active : List ℕ) (polls before : List Poll) (x : Poll) (after : List Poll) : Prop :=
  polls = before ++ x :: after ∧ (∀ y ∈ before, ¬ y.Frees active) ∧ x.Frees active

/-- A wait that ends with `True` at the first poll at which an active key is
free, and with `False` at the last poll if there is none. -/
def slotWait (active : List ℕ) (polls : List Poll) : ℕ × Bool :=
  if ∃ x ∈ polls, x.Frees active then (polls.findIdx (·.Frees active) + 1, true) else (polls.length, false)

def FollowsSlots (active : List ℕ) (deadline : ℤ) (polls : List Poll) : Prop :=
  waitPolls deadline polls = some (slotWait active polls)

section

variable {active : List ℕ} {deadline : ℤ} {polls before after : List Poll} {x : Poll}

theorem frees_of_idle (hpool : active ≠ []) (h : x.inFlight = ∅) : x.Frees active := by
  obtain ⟨id, hid⟩ := List.exists_mem_of_ne_nil _ hpool
  exact ⟨id, hid, by simp [h]⟩

theorem waitForFreeSlot_ne_false (deadline now : ℤ) (inFlight : Finset ℕ) :
    waitForFreeSlot deadline now inFlight ≠ some false := by
  unfold waitForFreeSlot
  split_ifs <;> simp

/-- The wait sleeps through polls before the deadline that find a key in
flight. -/
theorem waitPolls_append (hbefore : ∀ y ∈ before, y.now < deadline ∧ y.inFlight ≠ ∅) (polls : List Poll) :
    waitPolls deadline (before ++ polls) =
      (waitPolls deadline polls).map fun r => (r.1 + before.length, r.2) := by
  induction before with
  | nil => simp
  | cons y before ih =>
    obtain ⟨⟨hnow, hbusy⟩, hrest⟩ := List.forall_mem_cons.mp hbefore
    have hsleeps : waitForFreeSlot deadline y.now y.inFlight = none := by
      simp [waitForFreeSlot, hbusy, hnow]
    rw [List.cons_append, waitPolls, hsleeps, ih hrest]
    cases waitPolls deadline polls with
    | none => rfl
    | some r =>
      show some (r.1 + before.length + 1, r.2) = some (r.1 + (before.length + 1), r.2)
      rw [Nat.add_assoc]

/-- The wait ends at the first poll at which nothing is in flight, or at the
last one, and returns `True`. -/
theorem waitPolls_eq (hsplit : polls = before ++ x :: after)
    (hbefore : ∀ y ∈ before, y.now < deadline ∧ y.inFlight ≠ ∅)
    (hends : x.inFlight = ∅ ∨ deadline ≤ x.now) : waitPolls deadline polls = some (before.length + 1, true) := by
  have hx : waitForFreeSlot deadline x.now x.inFlight = some true := by
    unfold waitForFreeSlot
    rcases hends with hidle | hlate
    · rw [if_pos hidle]
    · by_cases hidle : x.inFlight = ∅
      · rw [if_pos hidle]
      · rw [if_neg hidle, if_neg (not_lt.mpr hlate)]
  rw [hsplit, waitPolls_append hbefore, waitPolls, hx]
  show some (1 + before.length, true) = some (before.length + 1, true)
  rw [Nat.add_comm]

theorem waitPolls_ne_false {n : ℕ} : waitPolls deadline polls ≠ some (n, false) := by
  induction polls generalizing n with
  | nil => simp [waitPolls]
  | cons x polls ih =>
    rw [waitPolls]
    cases hx : waitForFreeSlot deadline x.now x.inFlight with
    | some r =>
      intro h
      cases h
      exact waitForFreeSlot_ne_false _ _ _ hx
    | none =>
      intro h
      obtain ⟨r, hr, heq⟩ := Option.map_eq_some_iff.mp h
      obtain ⟨m, b⟩ := r
      cases heq
      exact ih hr

/-- The first poll at which an active key is free is one of the polls. -/
theorem exists_freedAt (h : ∃ x ∈ polls, x.Frees active) :
    ∃ before x after, FreedAt active polls before x after := by
  induction polls with
  | nil =>
    obtain ⟨x, hx, -⟩ := h
    cases hx
  | cons y polls ih =>
    by_cases hy : y.Frees active
    · exact ⟨[], y, polls, rfl, fun z hz => (by cases hz), hy⟩
    · obtain ⟨before, x, after, hsplit, hbefore, hx⟩ := ih (by simpa [hy] using h)
      exact ⟨y :: before, x, after, by rw [hsplit]; rfl, List.forall_mem_cons.mpr ⟨hy, hbefore⟩, hx⟩

theorem FreedAt.findIdx (h : FreedAt active polls before x after) :
    polls.findIdx (·.Frees active) = before.length := by
  obtain ⟨rfl, hbefore, hx⟩ := h
  have hnone : before.findIdx (·.Frees active) = before.length := by
    rw [List.findIdx_eq_length]
    exact fun y hy => decide_eq_false (hbefore y hy)
  rw [List.findIdx_append, hnone, if_neg (lt_irrefl _), List.findIdx_cons, decide_eq_true hx]
  exact Nat.zero_add _

theorem FreedAt.slotWait (h : FreedAt active polls before x after) :
    slotWait active polls = (before.length + 1, true) := by
  have hsome : ∃ y ∈ polls, y.Frees active := ⟨x, by simp [h.1], h.2.2⟩
  rw [OllamaProxy.slotWait, if_pos hsome, h.findIdx]

theorem FreedAt.unique {before' after' : List Poll} {x' : Poll} (h : FreedAt active polls before x after)
    (h' : FreedAt active polls before' x' after') : x = x' ∧ after = after' := by
  have hlen : before.length = before'.length := h.findIdx.symm.trans h'.findIdx
  have htail := (List.append_inj (h.1.symm.trans h'.1) hlen).2
  exact List.cons.inj htail

theorem waitPolls_pos {n : ℕ} {r : Bool} (h : waitPolls deadline polls = some (n, r)) : 0 < n := by
  cases polls with
  | nil => cases h
  | cons x polls =>
    rw [waitPolls] at h
    cases hx : waitForFreeSlot deadline x.now x.inFlight with
    | some b =>
      rw [hx] at h
      cases h
      exact Nat.one_pos
    | none =>
      rw [hx] at h
      obtain ⟨y, -, hy⟩ := Option.map_eq_some_iff.mp h
      cases hy
      omega

/-- Only the last poll is not before the deadline. -/
theorem UpTo.lt_deadline (h : UpTo deadline (before ++ after)) (hafter : after ≠ []) :
    ∀ y ∈ before, y.now < deadline := by
  obtain ⟨early, last, hsplit, hearly, -⟩ := h
  have hinit := congrArg List.dropLast hsplit
  rw [List.dropLast_append_of_ne_nil hafter, List.dropLast_concat] at hinit
  intro y hy
  exact hearly y (hinit ▸ List.mem_append_left _ hy)

/-- Where `x` is the first poll at which an active key is free, the wait ends
there exactly if nothing is in flight or `x` is the last poll. -/
theorem FreedAt.waitPolls_iff (h : FreedAt active polls before x after) (hpool : active ≠ [])
    (hpolls : UpTo deadline polls) :
    waitPolls deadline polls = some (before.length + 1, true) ↔ x.inFlight = ∅ ∨ after = [] := by
  obtain ⟨hsplit, hbefore, hx⟩ := h
  have hbusy : ∀ y ∈ before, y.inFlight ≠ ∅ := fun y hy hidle => hbefore y hy (frees_of_idle hpool hidle)
  have hbefore' : ∀ y ∈ before, y.now < deadline ∧ y.inFlight ≠ ∅ := fun y hy =>
    ⟨(hsplit ▸ hpolls : UpTo _ _).lt_deadline (List.cons_ne_nil _ _) y hy, hbusy y hy⟩
  by_cases hends : x.inFlight = ∅ ∨ after = []
  · refine iff_of_true (waitPolls_eq hsplit hbefore' ?_) hends
    rcases hends with hidle | hlast
    · exact Or.inl hidle
    · obtain ⟨early, last, hlastSplit, -, hlate⟩ := hpolls
      rw [hsplit, hlast] at hlastSplit
      have hxlast : x = last := by
        have := congrArg List.getLast? hlastSplit
        simpa using this
      exact Or.inr (hxlast ▸ hlate)
  · obtain ⟨hidle, hafter⟩ := not_or.mp hends
    have hthrough : ∀ y ∈ before ++ [x], y.now < deadline ∧ y.inFlight ≠ ∅ := by
      intro y hy
      have hsplit' : polls = (before ++ [x]) ++ after := by rw [hsplit, List.append_assoc]; rfl
      refine ⟨(hsplit' ▸ hpolls : UpTo _ _).lt_deadline hafter y hy, ?_⟩
      rcases List.mem_append.mp hy with hy | hy
      · exact hbusy y hy
      · rw [List.mem_singleton.mp hy]
        exact hidle
    refine iff_of_false (fun hwait => ?_) hends
    have hsplit' : polls = (before ++ [x]) ++ after := by rw [hsplit, List.append_assoc]; rfl
    rw [hsplit', waitPolls_append hthrough] at hwait
    obtain ⟨⟨n, r⟩, hrest, hn⟩ := Option.map_eq_some_iff.mp hwait
    have hpos := waitPolls_pos hrest
    have hlen := congrArg Prod.fst hn
    simp only [List.length_append, List.length_singleton] at hlen
    omega

theorem followsSlots_iff (hpool : active ≠ []) (hpolls : UpTo deadline polls) :
    FollowsSlots active deadline polls ↔
      ∃ before x after, FreedAt active polls before x after ∧ (x.inFlight = ∅ ∨ after = []) := by
  by_cases hsome : ∃ x ∈ polls, x.Frees active
  · obtain ⟨before, x, after, h⟩ := exists_freedAt hsome
    rw [FollowsSlots, h.slotWait, h.waitPolls_iff hpool hpolls]
    constructor
    · exact fun hends => ⟨before, x, after, h, hends⟩
    · rintro ⟨before', x', after', h', hends⟩
      obtain ⟨rfl, rfl⟩ := h.unique h'
      exact hends
  · refine iff_of_false ?_ ?_
    · rw [FollowsSlots, slotWait, if_neg hsome]
      exact waitPolls_ne_false
    · rintro ⟨before, x, after, h, -⟩
      exact hsome ⟨x, by simp [h.1], h.2.2⟩

end

namespace World

/-- A request that is told that all keys are busy has waited in each of its
iterations. -/
theorem allBusy_waits {rot : Rotation} {t : KeyTable} {now : ℤ} {as : List Action} {w : World} {p : ℕ}
    (hrun : run (step rot) (init t now) as = some w) (hbusy : (w.requests p).answer? = some allBusy) :
    outputs (step rot) (spends rot p) (init t now) as =
      List.replicate (maxIter rot (w.requests p).initialCount) .wait := by
  have h := run_accounts hrun p
  obtain ⟨-, hlen, hno⟩ := h.busy hbusy
  exact List.eq_replicate_iff.mpr ⟨hlen, h.waits hno⟩

/-- The wait ends as it should exactly if, at the first poll at which an active
key is free, nothing is in flight or the deadline has passed. And a request that
never gets a key waits as often as it has iterations. -/
theorem wait_follows_iff (rot : Rotation) (active : List ℕ) (hpool : active ≠ []) :
    (∀ deadline polls, UpTo deadline polls → (FollowsSlots active deadline polls ↔
      ∃ before x after, FreedAt active polls before x after ∧ (x.inFlight = ∅ ∨ after = []))) ∧
    (∀ t now as w p, run (step rot) (init t now) as = some w → (w.requests p).answer? = some allBusy →
      outputs (step rot) (spends rot p) (init t now) as =
        List.replicate (maxIter rot (w.requests p).initialCount) .wait) :=
  ⟨fun _ _ hpolls => followsSlots_iff hpool hpolls, fun _ _ _ _ _ hrun hbusy => allBusy_waits hrun hbusy⟩

end World

namespace Sample

theorem wait_follows_iff_idle : FollowsSlots [1, 2] 5 [⟨1, {1, 2}⟩, ⟨2, ∅⟩, ⟨6, {1}⟩] := by
  have hpolls : UpTo 5 [⟨1, {1, 2}⟩, ⟨2, ∅⟩, ⟨6, {1}⟩] :=
    ⟨[⟨1, {1, 2}⟩, ⟨2, ∅⟩], ⟨6, {1}⟩, rfl, by simp, by decide⟩
  have hfreed : FreedAt [1, 2] [⟨1, {1, 2}⟩, ⟨2, ∅⟩, ⟨6, {1}⟩] [⟨1, {1, 2}⟩] ⟨2, ∅⟩ [⟨6, {1}⟩] :=
    ⟨rfl, by simp; decide, by decide⟩
  exact ((World.wait_follows_iff rotation [1, 2] (by decide)).1 5 _ hpolls).mpr ⟨_, _, _, hfreed, Or.inl rfl⟩

/-- Both keys are in use when a chat request looks for one. -/
def saturated : List Action :=
  .start 0 .models :: oks 0 2 ++ .start 1 .models :: oks 1 2 ++ .start 2 chat :: oks 2 3

/-- Key 1 is free ten milliseconds later, but the request sleeps on. -/
def freed : List Action :=
  saturated ++ [.resume 0 (.answer (reply 400)), .tick 10000, .resume 2 .ok]

/-- No key is free for twenty seconds. -/
def neverFreed : List Action :=
  saturated ++ [.tick 10000000, .resume 2 .ok] ++ oks 2 2 ++ [.tick 10000000, .resume 2 .ok]

theorem waits_on :
    (∃ w, run (World.step rotation) (World.init pool 0) freed = some w ∧
      (∃ deadline, (w.requests 2).pc = .wait deadline) ∧ HasStatus w.table 1 .active ∧
      1 ∉ w.manager.inFlight) ∧
    (∃ w, run (World.step rotation) (World.init pool 0) neverFreed = some w ∧
      (w.requests 2).answer? = some allBusy ∧ w.now = 20000000) ∧
    outputs (World.step rotation) (World.spends rotation 2) (World.init pool 0) neverFreed = [.wait, .wait] :=
  ⟨⟨(run (World.step rotation) (World.init pool 0) freed).get (by decide), (Option.some_get _).symm,
      ⟨10000000, rfl⟩, by decide, by decide⟩,
    ⟨(run (World.step rotation) (World.init pool 0) neverFreed).get (by decide), (Option.some_get _).symm,
      by decide, by decide⟩, by decide⟩

end Sample

end OllamaProxy
