import ZedSync.Js.Session

/-!
`stop()` of a session that failed. The lifecycle lets a failed session be
reconciled; the promise of the first `stop` is kept and never cleared.
-/

namespace ZedSync.Js

namespace SyncSession

/-- A call of `stop` reconciles the session: the request is applied, the cleanup
begins again, and if no transport throws the session is stopped once the release
of the lease resolved, whatever happens meanwhile. -/
structure Reconciles (options : SyncOptions) (session : SyncSession) : Prop where
  applied : ∃ outcomes, (session.stop options).dispatched =
    outcomes ++ (.reconcileRequested, some .applied) :: session.dispatched
  attempted : (session.stop options).cleanups = session.cleanups + 1
  stops : session.stoppers.any options.stopThrows = false → ∀ later,
    let final := Run.final (step options) (session.stop options) later
    final.Unreleased = false → (step options final .released).lifecycle.phase = .stopped

/-- Every `stop` of a failed session reconciles it. -/
def ReconcilesFailed (options : SyncOptions) (session : SyncSession) : SessionEvent → Prop
  | .stop => session.stage = .returned →
      (appCapabilities session.lifecycle).canReconcile = true → Reconciles options session
  | _ => True

/-- No `stop` of a failed session comes after one that was accepted. -/
def StopsOnce (session : SyncSession) : SessionEvent → Prop
  | .stop => session.stage = .returned →
      (appCapabilities session.lifecycle).canReconcile = true → session.stopPromise = none
  | _ => True

variable {options : SyncOptions} {session : SyncSession}

theorem failed_of_canReconcile (h : (appCapabilities session.lifecycle).canReconcile = true) :
    session.lifecycle.phase = .failed := by
  unfold appCapabilities at h
  split at h
  · cases h
  · simpa using h

/-- Once `stop` was accepted, its promise changes by being resolved only. -/
theorem step_promise {promise : StopPromise}
    (hreturned : session.stage = .returned) (hpromise : session.stopPromise = some promise)
    (options : SyncOptions) (event : SessionEvent) :
    (SyncSession.step options session event).stage = .returned ∧
      ((SyncSession.step options session event).stopPromise = some promise ∨
        (SyncSession.step options session event).stopPromise = some .resolved) := by
  cases event with
  | storeOpens constructs clock =>
      simp only [SyncSession.step, hreturned]
      exact ⟨hreturned, Or.inl hpromise⟩
  | lease turn hquiet =>
      dsimp only [SyncSession.step]
      split
      · exact ⟨hreturned, Or.inl hpromise⟩
      · split
        · unfold SyncSession.onLost stopTransports
          dsimp only
          split
          · exact ⟨hreturned, Or.inl hpromise⟩
          · exact ⟨hreturned, Or.inl hpromise⟩
        · rw [if_neg (by simp [hreturned])]
          exact ⟨hreturned, Or.inl hpromise⟩
  | hydrated =>
      simp only [SyncSession.step, hreturned]
      exact ⟨hreturned, Or.inl hpromise⟩
  | flushed =>
      simp only [SyncSession.step, hreturned]
      exact ⟨hreturned, Or.inl hpromise⟩
  | status transport online =>
      dsimp only [SyncSession.step]
      split
      · exact ⟨hreturned, Or.inl hpromise⟩
      · exact ⟨hreturned, Or.inl hpromise⟩
  | released =>
      dsimp only [SyncSession.step]
      split
      · exact ⟨hreturned, Or.inl hpromise⟩
      · unfold SyncSession.released
        rw [if_neg (by simp [hreturned])]
        split
        · exact ⟨hreturned, Or.inr rfl⟩
        · exact ⟨hreturned, Or.inl hpromise⟩
  | stop =>
      have hsame : SyncSession.step options session .stop = session := by
        simp [SyncSession.step, hreturned, stop_again hpromise]
      rw [hsame]
      exact ⟨hreturned, Or.inl hpromise⟩

/-- `stop` was accepted, and no transport threw. -/
def Stopping (session : SyncSession) : Prop :=
  session.Stands ∧ session.stage = .returned ∧
    ((∃ stopToken, session.stopPromise = some (.releasing stopToken)) ∨
      session.stopPromise = some .resolved)

theorem Stopping.step (h : session.Stopping) (event : SessionEvent) :
    (SyncSession.step options session event).Stopping := by
  obtain ⟨hstands, hreturned, hpromise⟩ := h
  refine ⟨hstands.step event, ?_⟩
  rcases hpromise with ⟨stopToken, hpromise⟩ | hpromise
  · obtain ⟨hstage, hkept | hresolved⟩ :=
      step_promise hreturned hpromise options event
    · exact ⟨hstage, Or.inl ⟨stopToken, hkept⟩⟩
    · exact ⟨hstage, Or.inr hresolved⟩
  · obtain ⟨hstage, hkept | hresolved⟩ :=
      step_promise hreturned hpromise options event
    · exact ⟨hstage, Or.inr hkept⟩
    · exact ⟨hstage, Or.inr hresolved⟩

theorem Stopping.released (h : session.Stopping) (hreleased : session.Unreleased = false) :
    (SyncSession.step options session .released).lifecycle.phase = .stopped := by
  obtain ⟨hstands, hreturned, hpromise⟩ := h
  have hnext : (SyncSession.step options session .released).stopPromise = some .resolved := by
    simp only [SyncSession.step, hreleased, SyncSession.released, hreturned]
    rcases hpromise with ⟨stopToken, hpromise⟩ | hpromise
    · simp [hpromise]
    · simp [hpromise]
  exact (hstands.step .released).stopped_of_resolved hnext

/-- The first `stop` of a failed session reconciles it. -/
theorem Stands.reconciles (h : session.Stands) (hreturned : session.stage = .returned)
    (hfailed : session.lifecycle.phase = .failed) (hpromise : session.stopPromise = none) :
    Reconciles options session := by
  obtain ⟨operation, hoperation, heq⟩ := h.stop_eq options hreturned hpromise
  have hevent : World.stopEvent session.lifecycle.phase = .reconcileRequested := by
    simp [World.stopEvent, hfailed]
  have hstands : (session.stop options).Stands := h.stop hreturned
  constructor
  · rw [heq]
    dsimp only
    split
    · exact ⟨[_], by simp only [dispatch, stopTransports, stopping, hevent]; rfl⟩
    · split
      · exact ⟨[], by simp only [releaseLease, stopTransports, stopping, hevent]; rfl⟩
      · exact ⟨[_], by simp only [dispatch, stopTransports, stopping, hevent]; rfl⟩
  · rw [heq]
    dsimp only
    split
    · rfl
    · split
      · rfl
      · rfl
  · intro hquiet later final hreleased
    have hstopping : (session.stop options).Stopping := by
      refine ⟨hstands, ?_⟩
      rw [heq]
      simp only [hquiet, Bool.false_eq_true, if_false]
      split
      · exact ⟨hreturned, Or.inl ⟨2, rfl⟩⟩
      · exact ⟨hreturned, Or.inr rfl⟩
    have hfinal : final.Stopping :=
      Run.preserved (fun _ event hstate => hstate.step event) later hstopping
    exact hfinal.released hreleased

/-- Every `stop` of a failed session reconciles it exactly where none of them comes
after a `stop` that was accepted: its promise is never cleared. -/
theorem failed_session_reconciles_iff (options : SyncOptions) (events : List SessionEvent) :
    Run.Along (step options) (ReconcilesFailed options) start events ↔
      Run.Along (step options) StopsOnce start events := by
  refine Run.along_iff_of_inv (J := Stands) (fun _ event h => h.step event) ?_ events
    stands_start
  intro session event h
  cases event with
  | stop =>
      refine forall_congr' fun hreturned => forall_congr' fun hcan => ?_
      constructor
      · intro hreconciles
        cases hpromise : session.stopPromise with
        | none => rfl
        | some promise =>
            have hattempted := hreconciles.attempted
            rw [stop_again hpromise] at hattempted
            omega
      · exact h.reconciles hreturned (failed_of_canReconcile hcan)
  | _ => exact Iff.rfl

/-- The backend throws when it is stopped: the session fails, and a second `stop`
returns the promise of the first. -/
theorem failed_stop_is_final :
    ¬ Run.Along (step { backend := true, supabase := false, lease := none,
                        stopThrows := fun _ => true })
      (ReconcilesFailed { backend := true, supabase := false, lease := none,
                          stopThrows := fun _ => true })
      start [.storeOpens true fun _ => 0, .hydrated, .stop, .stop] := by
  rintro ⟨-, -, -, hreconciles, -⟩
  have hattempted := (hreconciles (by decide) (by decide)).attempted
  exact absurd hattempted (by decide)

end SyncSession

end ZedSync.Js
