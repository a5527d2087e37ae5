import ZedSync.Js.Lease

/-!
`release()` of a `SyncLease`: what it leaves behind, and what can follow it.
A release does not cancel an acquisition that waits in the lock service; its
`AbortSignal` does.
-/

namespace ZedSync.Js

namespace SyncLease

variable {options : LeaseOptions} {lease next : SyncLease}

/-- Every grant adopted stays counted. -/
theorem Turn.grants_le {event : Event} (h : Tracked lease)
    (hturn : Turn options lease event next) : lease.grants ≤ next.grants := by
  cases hturn with
  | acquisition hsame hnext hstarts => exact hsame.grants.ge
  | adopted now fencingToken results hacquiring hidle =>
      rw [adopt_eq h.timer]
      exact Nat.le_succ _
  | released =>
      rw [release_eq h.timer]
  | fired id hfired =>
      unfold beat
      split <;> exact Nat.le_refl _
  | resolved serial now hmem =>
      unfold renewResolved
      split
      · rw [schedule_eq (by exact h.timer)]
      · exact Nat.le_refl _
  | rejected serial now failure hmem =>
      unfold renewRejected
      split
      · have htracked : Tracked
            { lease with
              renews := lease.renews.erase serial
              history := .renewRejected serial :: lease.history
              failures := lease.failures + 1 } := ⟨h.timer, h.acquisition⟩
        have hcalls := htracked.afterCalls failure.calls
        have hafter := htracked.calls failure.calls
        dsimp only
        split
        · exact hcalls.grants.ge
        · split
          · unfold markLost
            split
            · exact hcalls.grants.ge
            · rw [stopHeartbeat_eq (by exact hafter.timer)]
              exact hcalls.grants.ge
          · rw [schedule_eq hafter.timer]
            exact hcalls.grants.ge
      · exact Nat.le_refl _
  | settled serial => exact Nat.le_refl _

/-- Nothing is held and no heartbeat is armed. -/
def Dropped (lease : SyncLease) : Prop := lease.held = false ∧ lease.armed = []

/-- Since a release in the state `before`: the lease stays dropped, unless the
acquisition that was in progress then has been granted meanwhile. -/
def SinceRelease (before lease : SyncLease) : Prop :=
  (Dropped lease ∧ lease.grants = before.grants ∧
      (lease.acquiring = true → before.acquiring = true)) ∨
    (before.acquiring = true ∧ before.grants < lease.grants)

theorem owns_dropped (h : Dropped lease) (serial : Nat) : lease.owns serial = false := by
  have hnone : lease.handle = none := by simpa [held] using h.1
  simp [owns, hnone]

theorem SinceRelease.turn {before : SyncLease} {event : Event} (h : Tracked lease)
    (hsince : SinceRelease before lease) (hevent : event.acquires = false)
    (hturn : Turn options lease event next) : SinceRelease before next := by
  rcases hsince with ⟨hdropped, hgrants, hacquiring⟩ | ⟨hacquiring, hgranted⟩
  · have hnone : lease.handle = none := by simpa [held] using hdropped.1
    cases hturn with
    | acquisition hsame hnext hstarts =>
        refine Or.inl ⟨⟨?_, hsame.armed.trans hdropped.2⟩, hsame.grants.trans hgrants, ?_⟩
        · simp [held, hsame.handle, hnone]
        · exact fun hnow => hacquiring (hstarts hevent hnow)
    | adopted now fencingToken results hwaiting hidle =>
        refine Or.inr ⟨hacquiring hwaiting, ?_⟩
        rw [adopt_eq h.timer]
        exact Nat.lt_succ_of_le hgrants.ge
    | released =>
        rw [release_eq h.timer]
        exact Or.inl ⟨⟨rfl, rfl⟩, hgrants, hacquiring⟩
    | fired id hfired =>
        have hbeat : { lease with armed := lease.armed.filter (·.id ≠ id) }.beat =
            { lease with armed := lease.armed.filter (·.id ≠ id) } := by
          simp [beat, hnone]
        rw [hbeat]
        exact Or.inl ⟨⟨hdropped.1, by simp [hdropped.2]⟩, hgrants, hacquiring⟩
    | resolved serial now hmem =>
        -- The grant of this renewal is gone, so that the beat ends quietly.
        unfold renewResolved
        rw [if_neg (by simpa [owns] using owns_dropped hdropped serial)]
        exact Or.inl ⟨hdropped, hgrants, hacquiring⟩
    | rejected serial now failure hmem =>
        unfold renewRejected
        rw [if_neg (by simpa [owns] using owns_dropped hdropped serial)]
        exact Or.inl ⟨hdropped, hgrants, hacquiring⟩
    | settled serial => exact Or.inl ⟨hdropped, hgrants, hacquiring⟩
  · exact Or.inr ⟨hacquiring, hgranted.trans_le (hturn.grants_le h)⟩

/-- After a `release()`, and as long as neither `acquire` nor `tryAcquire` is
called, nothing is held and no heartbeat is armed, unless an acquisition that
`release()` found in progress has been granted since. -/
theorem release_is_final (options : LeaseOptions) (events later : List Event)
    (hlater : ∀ event ∈ later, event.acquires = false) :
    let before := Run.final (step options) {} events
    let lease := Run.final (step options) (step options before (.call .release)) later
    Dropped lease ∨ (before.acquiring = true ∧ before.grants < lease.grants) := by
  intro before lease
  have hbefore : Tracked before := Run.preserved (fun _ event h => h.step event) events
    tracked_initial
  have hreleased : SinceRelease before (step options before (.call .release)) := by
    have heq : step options before (.call .release) = before.release := rfl
    rw [heq, release_eq hbefore.timer]
    exact Or.inl ⟨⟨rfl, rfl⟩, rfl, fun hnow => hnow⟩
  have hstep : ∀ state event, Tracked state ∧ SinceRelease before state →
      event.acquires = false →
      Tracked (step options state event) ∧
        SinceRelease before (step options state event) := by
    rintro state event ⟨htracked, hsince⟩ hevent
    exact ⟨htracked.step event, hsince.turn htracked hevent (step_turn htracked event)⟩
  have hrun : Tracked lease ∧ SinceRelease before lease :=
    Run.induction hstep ⟨hbefore.step _, hreleased⟩ (Run.along_of_forall hlater)
  rcases hrun.2 with ⟨hdropped, -, -⟩ | hgranted
  · exact Or.inl hdropped
  · exact Or.inr hgranted

theorem release_is_final_held :
    let before := Run.final (step LeaseOptions.default) {}
      [.call .tryAcquire, .tryLockResolves 0 0 (some 7)]
    let lease := Run.final (step LeaseOptions.default)
      (step LeaseOptions.default before (.call .release)) [.timerFires 0, .releaseSettles 0]
    Dropped lease ∨ (before.acquiring = true ∧ before.grants < lease.grants) :=
  release_is_final LeaseOptions.default [.call .tryAcquire, .tryLockResolves 0 0 (some 7)]
    [.timerFires 0, .releaseSettles 0] (by simp [Event.acquires])

/-- A `release()` while `acquire` waits in the lock service: the grant comes after
it. -/
theorem waiting_acquisition_outlives_release :
    ¬ ∀ (options : LeaseOptions) (events later : List Event),
      (∀ event ∈ later, event.acquires = false) →
        Dropped (Run.final (step options)
          (step options (Run.final (step options) {} events) (.call .release)) later) := by
  intro hfinal
  have hdropped := hfinal LeaseOptions.default [.call (.acquire none fun _ => 0)]
    [.lockResolves 0 0 7] (by simp [Event.acquires])
  exact absurd hdropped.1 (by decide)

end SyncLease

end ZedSync.Js
