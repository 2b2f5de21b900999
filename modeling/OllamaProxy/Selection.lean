/-
# Which keys a selection considers

A key is usable when it is active, or depleted with its cooldown over. The
selection makes the second kind active only where it finds no active key
(`if not active`), so while an active key exists the keys that have cooled
down are not considered, even if every active key is in flight.

Key theorem: `pickNextKey_eq_none_iff`.
-/
import OllamaProxy.System

namespace OllamaProxy

open Kit

/-- The keys a selection at time `now` reserves one of, if one is free. -/
def Considered (t : KeyTable) (now : ℤ) (id : ℕ) : Prop :=
  HasStatus t id .active ∨ ((∀ i, ¬ HasStatus t i .active) ∧ CooledDown t id now)

theorem choose_none_iff_hasStatus {m : KeyManager} {t : KeyTable} :
    (m.choose (loadActive t)).1 = none ↔ ∀ id, HasStatus t id .active → id ∈ m.inFlight := by
  rw [choose_eq_none_iff]
  refine ⟨fun h id hid => ?_, fun h k hk => h k.1 (exists_mem_loadActive.mp ⟨k.2, hk⟩)⟩
  obtain ⟨k, hk⟩ := exists_mem_loadActive.mpr hid
  exact h _ hk

/-- Where no key is active, the keys that reactivation makes active are those
that have cooled down. -/
theorem active_reactivateLocked {t : KeyTable} {now : ℤ} (h : ∀ id, ¬ HasStatus t id .active)
    (id : ℕ) : HasStatus (reactivateLocked t now) id .active ↔ CooledDown t id now := by
  rw [hasStatus_reactivateLocked]
  split_ifs with hc
  · exact iff_of_true rfl hc
  · exact iff_of_false (h id) hc

theorem pickNextKey_none_iff_considered {m : KeyManager} {t : KeyTable} {now : ℤ} :
    (pickNextKey m t now).1 = none ↔ ∀ id, Considered t now id → id ∈ m.inFlight := by
  unfold pickNextKey
  split_ifs with hempty
  · have hno := loadActive_isEmpty_iff.mp hempty
    simp only [choose_none_iff_hasStatus, active_reactivateLocked hno]
    refine forall_congr' fun id => ?_
    simp [Considered, hno]
  · have hsome : ¬ ∀ id, ¬ HasStatus t id .active := fun hno => hempty (loadActive_isEmpty_iff.mpr hno)
    simp only [choose_none_iff_hasStatus]
    refine forall_congr' fun id => ?_
    simp [Considered, hsome]

/-- A selection returns nothing exactly if every active key is in flight and,
where no key is active, every key that has cooled down is too. -/
theorem pickNextKey_eq_none_iff (m : KeyManager) (t : KeyTable) (now : ℤ) :
    (pickNextKey m t now).1 = none ↔
      (∀ id, HasStatus t id .active → id ∈ m.inFlight) ∧
        ((∀ id, ¬ HasStatus t id .active) → ∀ id, CooledDown t id now → id ∈ m.inFlight) := by
  rw [pickNextKey_none_iff_considered]
  constructor
  · intro h
    exact ⟨fun id hid => h id (Or.inl hid), fun hno id hid => h id (Or.inr ⟨hno, hid⟩)⟩
  · rintro ⟨hactive, hcooled⟩ id (hid | ⟨hno, hid⟩)
    · exact hactive id hid
    · exact hcooled hno id hid

/-- Key 1 is rate limited for a minute; when the minute is over, key 2 is at its
upstream call. -/
def cooledDownWhileBusy : List Action :=
  [.start 0 .models] ++ Sample.oks 0 2 ++ [.resume 0 (.answer (Sample.reply 429))] ++
    Sample.oks 0 2 ++ [.tick 60000000, .start 1 .models] ++ Sample.oks 1 2

/-- Key 1 has cooled down and is not in flight, and the selection finds nothing. -/
theorem cooledDownWhileBusy_none :
    ∃ w, run (World.step Sample.rotation) (World.init Sample.pool 0) cooledDownWhileBusy = some w ∧
      CooledDown w.table 1 w.now ∧ 1 ∉ w.manager.inFlight ∧
        (pickNextKey w.manager w.table w.now).1 = none :=
  ⟨(run (World.step Sample.rotation) (World.init Sample.pool 0) cooledDownWhileBusy).get (by decide),
    (Option.some_get _).symm, by decide, by decide, by decide⟩

end OllamaProxy
