import ZedSync.Js.LeaseHeartbeat
import ZedSync.Js.LeaseRelease
import ZedSync.Js.Session

/-!
What a session leaves behind when it ends: after `stop`, after a failed
startup, and after the loss of the lease. `stopTransports` empties its list and
stops at the first transport that throws, so that the rest is skipped, with what
its caller does next.
-/

namespace ZedSync.Js

namespace SyncLease

/-- The invariants of a lease whose renewals nobody observes. -/
structure Sane (options : LeaseOptions) (lease : SyncLease) : Prop where
  tracked : Tracked lease
  recorded : Recorded options lease
  beats : Beats lease

section Quiet

variable {options : LeaseOptions} {lease : SyncLease}

theorem Sane.release (h : Sane options lease) : Sane options lease.release := by
  refine ⟨h.tracked.release, h.recorded.release h.tracked, ?_⟩
  rw [release_eq h.tracked.timer]
  exact beats_disarmed rfl

theorem sane_acquire (options : LeaseOptions) (maxWaitMs : Option ℚ) (clock : Nat → ℚ) :
    Sane options (({} : SyncLease).acquire maxWaitMs clock) :=
  ⟨tracked_initial.acquire _ _, (recorded_initial options).same (acquire_same _ _),
    Beats.same (beats_disarmed rfl) (acquire_same _ _)⟩

theorem Event.Quiet.spares {turn : Event} (hquiet : turn.Quiet) : Spares options lease turn := by
  cases turn with
  | renewRejects serial now failure =>
      intro hmem howns hreleases
      simp [hquiet.1] at hreleases
  | _ => trivial

theorem Event.Quiet.acquires {turn : Event} (hquiet : turn.Quiet) : turn.acquires = false := by
  cases turn with
  | call made => exact absurd hquiet id
  | _ => rfl

theorem Sane.step (h : Sane options lease) {turn : Event} (hquiet : turn.Quiet) :
    Sane options (step options lease turn) := by
  have hturn : Turn options lease turn (SyncLease.step options lease turn) :=
    step_turn h.tracked turn
  exact ⟨h.tracked.turn hturn, h.recorded.turn h.tracked hturn,
    (beats_step_iff h.recorded h.tracked h.beats turn).mpr hquiet.spares⟩

theorem markLost_acquiring (htracked : Tracked lease) (proven : Bool) :
    (lease.markLost proven).acquiring = lease.acquiring := by
  unfold markLost
  split
  · rfl
  · rw [stopHeartbeat_eq (by exact htracked.timer)]

/-- A failed renewal that nobody observes is for a stale grant, a loss or a retry. -/
theorem renewRejected_quiet (options : LeaseOptions) (lease : SyncLease) (now : ℚ) (serial : Nat)
    {failure : RenewFailure}
    (hcalls : failure.calls = []) (hthrows : failure.callbackThrows = false) :
    lease.renewRejected options now serial failure = lease ∨
      (∃ proven, lease.renewRejected options now serial failure =
        { lease with failures := lease.failures + 1 }.markLost proven) ∨
      lease.renewRejected options now serial failure =
        { lease with failures := lease.failures + 1 }.schedule now options.retryMs := by
  unfold renewRejected
  rw [hcalls, hthrows]
  dsimp only [List.foldl_nil]
  split
  · rw [if_neg Bool.false_ne_true]
    split
    · exact Or.inr (Or.inl ⟨_, rfl⟩)
    · exact Or.inr (Or.inr rfl)
  · exact Or.inl rfl

/-- No turn of its own starts an acquisition. -/
theorem quiet_acquiring (htracked : Tracked lease) {turn : Event} (hquiet : turn.Quiet)
    (hidle : lease.acquiring = false) : (step options lease turn).acquiring = false := by
  have hturn : Turn options lease turn (step options lease turn) := step_turn htracked turn
  generalize step options lease turn = next at hturn
  cases hturn with
  | acquisition hsame hnext hstarts =>
      by_contra hacquiring
      have hbefore := hstarts hquiet.acquires (by simpa using hacquiring)
      rw [hidle] at hbefore
      cases hbefore
  | adopted now fencingToken results hacquiring hnone => rfl
  | released => exact absurd hquiet id
  | fired id hfired =>
      unfold beat
      split
      · exact hidle
      · exact hidle
  | resolved serial now hmem =>
      unfold renewResolved
      split
      · rw [schedule_eq (by exact htracked.timer)]
        exact hidle
      · exact hidle
  | rejected serial now failure hmem =>
      rcases renewRejected_quiet options _ now serial hquiet.1 hquiet.2 with
        heq | ⟨proven, heq⟩ | heq
      · rw [heq]
        exact hidle
      · rw [heq]
        refine (markLost_acquiring ?_ proven).trans hidle
        exact ⟨htracked.timer, htracked.acquisition⟩
      · rw [heq, schedule_eq (by exact htracked.timer)]
        exact hidle
  | settled serial => exact hidle

/-- A lease that is dropped and idle stays so. -/
theorem quiet_dropped (htracked : Tracked lease) (hdropped : Dropped lease)
    (hidle : lease.acquiring = false) {turn : Event} (hquiet : turn.Quiet) :
    Dropped (step options lease turn) := by
  have hsince : SinceRelease lease lease := Or.inl ⟨hdropped, rfl, fun hnow => hnow⟩
  have hturn : Turn options lease turn (step options lease turn) := step_turn htracked turn
  rcases hsince.turn htracked hquiet.acquires hturn with ⟨hnext, -, -⟩ | ⟨hacquiring, -⟩
  · exact hnext
  · rw [hidle] at hacquiring
    cases hacquiring

theorem Sane.dropped (h : Sane options lease) (hlost : lease.held = false) : Dropped lease := by
  refine ⟨hlost, ?_⟩
  by_contra harmed
  rw [h.beats harmed] at hlost
  cases hlost

end Quiet

end SyncLease

namespace SyncSession

open SyncLease (Dropped Sane)

/-- A transport that throws leaves another one of the list to be stopped. -/
def skips (options : SyncOptions) (transports : List Transport) : Bool :=
  transports.dropLast.any options.stopThrows

/-- The transports that have started when a later one throws at its start. -/
def startFailure (options : SyncOptions) : List Transport → Option (List Transport)
  | [] => none
  | transport :: rest =>
      if options.startThrows transport then some []
      else (startFailure options rest).map (transport :: ·)

/-- The transports stopped after a failed start do not throw. -/
def StartSafe (options : SyncOptions) : Prop :=
  ∀ started ∈ startFailure options options.transports, started.any options.stopThrows = false

def leaseHeld (session : SyncSession) : Bool := session.lease.any (·.state.held)

/-- A transport that throws when it is stopped is the last one to be stopped, and
nothing is left to be done after it: it throws on the loss of the lease, or in a
`stop` without a held lease, and never in a failed startup. -/
def ThrowsLast (options : SyncOptions) (session : SyncSession) : SessionEvent → Prop
  | .storeOpens constructs _ =>
      session.stage = .openingStore → constructs = true → options.lease = none →
        StartSafe options
  | .lease turn _ => ∀ lease ∈ session.lease,
      let state := SyncLease.step lease.options lease.state turn
      (session.stage = .acquiring → state.held = true → StartSafe options) ∧
        (lease.state.held = true → state.held = false →
          skips options session.stoppers = false)
  | .stop => session.stage = .returned → session.stopPromise = none →
      skips options session.stoppers = false ∧
        (session.leaseHeld = true → session.stoppers.any options.stopThrows = false)
  | .hydrated | .flushed | .status _ _ | .released => True

/-- Every started transport was stopped, and the lease is gone with its heartbeat. -/
structure CleanedUp (session : SyncSession) : Prop where
  transports : ∀ transport ∈ session.started, transport ∈ session.stopped
  lease : ∀ lease ∈ session.lease, Dropped lease.state

/-- Where `startSync` rejected or `stop` settled, the cleanup is complete. -/
structure EndsClean (session : SyncSession) : Prop where
  startRejected : session.stage = .rejected →
    CleanedUp session ∧ session.lifecycle.phase = .failed
  stopResolved : session.stopPromise = some .resolved →
    CleanedUp session ∧ session.lifecycle.phase = .stopped
  stopRejected : session.stopPromise = some .rejected →
    CleanedUp session ∧ session.lifecycle.phase = .failed

/-- What the session knows of its transports and its lease. -/
structure Covered (session : SyncSession) : Prop where
  stands : session.Stands
  lease : ∀ lease ∈ session.lease, Sane lease.options lease.state
  idle : session.stage ≠ .acquiring → ∀ lease ∈ session.lease, lease.state.acquiring = false
  waits : session.stage = .acquiring → ∀ lease ∈ session.lease, lease.state.acquiring = true
  unstarted : session.stage = .openingStore ∨ session.stage = .acquiring →
    session.started = [] ∧ session.stoppers = []
  transports : ∀ transport ∈ session.started,
    transport ∈ session.stoppers ∨ transport ∈ session.stopped
  closed : session.stage = .releasing ∨ session.stage = .rejected ∨
      session.stopPromise.isSome = true →
    session.stoppers = [] ∧ ∀ lease ∈ session.lease, Dropped lease.state
  rejected : session.stage = .rejected → session.lifecycle.phase = .failed

section Cleanup

variable {options : SyncOptions} {session : SyncSession}

theorem mem_invoked {throws : Transport → Bool} {transports : List Transport}
    (hlast : transports.dropLast.any throws = false) :
    ∀ transport ∈ transports, transport ∈ invoked throws transports := by
  induction transports with
  | nil => exact fun transport hmem => hmem
  | cons first rest ih =>
      intro transport hmem
      unfold invoked
      cases rest with
      | nil =>
          rw [List.mem_singleton] at hmem
          simp [hmem]
      | cons second rest =>
          rw [List.dropLast_cons_cons, List.any_cons, Bool.or_eq_false_iff] at hlast
          rw [hlast.1]
          rcases List.mem_cons.mp hmem with rfl | hrest
          · exact List.mem_cons_self
          · exact List.mem_cons_of_mem _ (ih hlast.2 transport hrest)

theorem skips_of_quiet {transports : List Transport}
    (hquiet : transports.any options.stopThrows = false) :
    skips options transports = false := by
  rw [skips, List.any_eq_false]
  intro transport hmem
  exact List.any_eq_false.mp hquiet transport ((List.dropLast_sublist _).subset hmem)

/-- Every transport that was started is stopped after a `stopTransports` that skips
none. -/
theorem stopped_all (hcovered : ∀ transport ∈ session.started,
      transport ∈ session.stoppers ∨ transport ∈ session.stopped)
    (hlast : skips options session.stoppers = false) :
    ∀ transport ∈ session.started,
      transport ∈ session.stopped ++ invoked options.stopThrows session.stoppers := by
  intro transport hmem
  rcases hcovered transport hmem with hstopper | hstopped
  · exact List.mem_append_right _ (mem_invoked hlast transport hstopper)
  · exact List.mem_append_left _ hstopped

/-- Nothing is left to be done: the transports are stopped, and the lease is idle and
dropped. -/
theorem covered_of_closed (hstands : session.Stands)
    (hstage : session.stage ≠ .openingStore ∧ session.stage ≠ .acquiring)
    (hstoppers : session.stoppers = [])
    (hstopped : ∀ transport ∈ session.started, transport ∈ session.stopped)
    (hlease : ∀ lease ∈ session.lease, Sane lease.options lease.state ∧
      lease.state.acquiring = false ∧ Dropped lease.state)
    (hrejected : session.stage = .rejected → session.lifecycle.phase = .failed) :
    Covered session where
  stands := hstands
  lease := fun lease hmem => (hlease lease hmem).1
  idle := fun _ lease hmem => (hlease lease hmem).2.1
  waits := fun hnow => absurd hnow hstage.2
  unstarted := fun hnow => absurd hnow (not_or.mpr hstage)
  transports := fun transport hmem => Or.inr (hstopped transport hmem)
  closed := fun _ => ⟨hstoppers, fun lease hmem => (hlease lease hmem).2.2⟩
  rejected := hrejected

/-- `release` leaves an idle lease dropped. -/
theorem release_closes {lease : SessionLease} (hsane : Sane lease.options lease.state)
    (hidle : lease.state.acquiring = false) :
    Sane lease.options lease.state.release ∧ lease.state.release.acquiring = false ∧
      Dropped lease.state.release := by
  refine ⟨hsane.release, ?_⟩
  rw [SyncLease.release_eq hsane.tracked.timer]
  exact ⟨hidle, rfl, rfl⟩

/-- What the `catch` of `startSync` starts from: none of the transports to be stopped
throws, and no acquisition is in progress. -/
structure Failing (options : SyncOptions) (session : SyncSession) : Prop where
  opening : session.Opening
  lease : ∀ lease ∈ session.lease, Sane lease.options lease.state
  idle : ∀ lease ∈ session.lease, lease.state.acquiring = false
  transports : ∀ transport ∈ session.started,
    transport ∈ session.stoppers ∨ transport ∈ session.stopped
  quiet : session.stoppers.any options.stopThrows = false

theorem Opening.failed (h : session.Opening) :
    (session.dispatch (.startFailed firstToken)).2.lifecycle.phase = .failed := by
  obtain ⟨-, ⟨online, hlifecycle⟩ | hlifecycle⟩ := h
  · simp only [dispatch, hlifecycle, starting_fails]
    rfl
  · simp only [dispatch, hlifecycle]
    rfl

/-- The `catch` of `startSync` leaves nothing behind. -/
theorem Failing.covered (h : Failing options session) :
    Covered (session.failStart options) := by
  have hstands : (session.failStart options).Stands := h.opening.failStart
  have hstopped := stopped_all h.transports (skips_of_quiet h.quiet)
  unfold failStart stopTransports at hstands ⊢
  simp only [h.quiet, Bool.false_eq_true, if_false] at hstands ⊢
  cases hlease : session.lease with
  | some lease =>
      have hreleased := release_closes (h.lease lease hlease) (h.idle lease hlease)
      simp only [hlease, Option.isSome_some, if_true, releaseLease, Option.map_some] at hstands ⊢
      refine covered_of_closed hstands ⟨by simp, by simp⟩ rfl hstopped ?_ ?_
      · rintro _ ⟨⟩
        exact hreleased
      · intro hrejected
        cases hrejected
  | none =>
      simp only [hlease, Option.isSome_none, Bool.false_eq_true, if_false] at hstands ⊢
      refine covered_of_closed hstands ⟨by simp, by simp⟩ rfl hstopped ?_ fun _ => ?_
      · rintro _ ⟨⟩
      · exact Opening.failed (by exact h.opening)

theorem startTransports_eq (transports : List Transport) :
    session.startTransports options transports =
      match startFailure options transports with
      | none =>
          { session with
            stage := .hydrating
            started := session.started ++ transports
            stoppers := session.stoppers ++ transports }
      | some earlier =>
          { session with
            started := session.started ++ earlier
            stoppers := session.stoppers ++ earlier }.failStart options := by
  induction transports generalizing session with
  | nil => simp [startTransports, startFailure]
  | cons transport rest ih =>
      unfold startTransports startFailure
      split
      · simp
      · rw [ih]
        cases startFailure options rest <;> simp

/-- The session when the transports are about to be started. -/
structure Ready (session : SyncSession) : Prop where
  opening : session.Opening
  lease : ∀ lease ∈ session.lease, Sane lease.options lease.state
  unstarted : session.started = [] ∧ session.stoppers = []

theorem Ready.failStart (h : Ready session)
    (hidle : ∀ lease ∈ session.lease, lease.state.acquiring = false) :
    Covered (session.failStart options) := by
  refine Failing.covered ⟨h.opening, h.lease, hidle, ?_, ?_⟩
  · simp [h.unstarted.1]
  · simp [h.unstarted.2]

theorem Ready.startTransports (h : Ready session)
    (hidle : ∀ lease ∈ session.lease, lease.state.acquiring = false)
    (hsafe : StartSafe options) :
    Covered (session.startTransports options options.transports) := by
  have hstands : (session.startTransports options options.transports).Stands :=
    h.opening.startTransports options.transports
  rw [startTransports_eq] at hstands ⊢
  cases hfailure : startFailure options options.transports with
  | some earlier =>
      refine Failing.covered ⟨h.opening, h.lease, hidle, ?_, ?_⟩
      · intro transport hmem
        rw [h.unstarted.1] at hmem
        rw [h.unstarted.2]
        exact Or.inl hmem
      · rw [h.unstarted.2]
        exact hsafe earlier hfailure
  | none =>
      simp only [hfailure] at hstands ⊢
      constructor
      · exact hstands
      · exact h.lease
      · exact fun _ => hidle
      · intro hstage
        cases hstage
      · rintro (hstage | hstage) <;> cases hstage
      · intro transport hmem
        simp only [h.unstarted.1, h.unstarted.2] at hmem ⊢
        exact Or.inl hmem
      · rintro (hstage | hstage | hpromise)
        · cases hstage
        · cases hstage
        · simp [h.opening.1] at hpromise
      · intro hstage
        cases hstage

theorem Ready.awaitAcquire (h : Ready session) {lease : SessionLease}
    (hlease : session.lease = some lease)
    (hsafe : lease.state.held = true → StartSafe options) :
    Covered (session.awaitAcquire options lease.state) := by
  have hidle (hacquired : ¬ lease.state.acquiring = true) :
      ∀ other ∈ session.lease, other.state.acquiring = false := by
    intro other hother
    rw [hlease, Option.mem_some_iff] at hother
    rw [← hother]
    simpa using hacquired
  unfold SyncSession.awaitAcquire
  split
  · rename_i hacquiring
    constructor
    · exact Opening.stands (by exact h.opening) (by simp) (by simp)
    · exact h.lease
    · exact fun hstage => absurd rfl hstage
    · intro _ other hother
      rw [hlease, Option.mem_some_iff] at hother
      rw [← hother]
      exact hacquiring
    · exact fun _ => h.unstarted
    · simp [h.unstarted.1]
    · rintro (hstage | hstage | hpromise)
      · cases hstage
      · cases hstage
      · simp [h.opening.1] at hpromise
    · intro hstage
      cases hstage
  · rename_i hacquired
    split
    · rename_i hheld
      exact h.startTransports (hidle hacquired) (hsafe hheld)
    · exact h.failStart (hidle hacquired)

theorem Covered.ready (h : Covered session)
    (hstage : session.stage = .openingStore ∨ session.stage = .acquiring) : Ready session := by
  refine ⟨?_, h.lease, h.unstarted hstage⟩
  rcases hstage with hstage | hstage
  · exact h.stands.opening (by simp [hstage]) (by simp [hstage]) (by simp [hstage])
  · exact h.stands.opening (by simp [hstage]) (by simp [hstage]) (by simp [hstage])

theorem Covered.storeOpens (h : Covered session) (constructs : Bool) (clock : Nat → ℚ)
    (hthrows : ThrowsLast options session (.storeOpens constructs clock)) :
    Covered (step options session (.storeOpens constructs clock)) := by
  dsimp only [SyncSession.step]
  split
  · exact h
  · rename_i hstage
    have hstage : session.stage = .openingStore := not_not.mp hstage
    have hready := h.ready (Or.inl hstage)
    have hidle := h.idle (by simp [hstage])
    split
    · exact hready.failStart hidle
    · rename_i hconstructs
      cases hconfig : options.lease with
      | none =>
          exact hready.startTransports hidle (hthrows hstage (by simpa using hconstructs) hconfig)
      | some config =>
          dsimp only
          split
          · exact hready.failStart hidle
          · rename_i leaseOptions hoptions
            let lease : SessionLease :=
              { options := leaseOptions
                state := ({} : SyncLease).acquire config.maxWaitMs clock }
            have hunheld : lease.state.held ≠ true := by
              have hsame : SyncLease.SameGrants {} lease.state := SyncLease.acquire_same _ _
              simp [SyncLease.held, hsame.handle]
            have hacquires : Ready { session with lease := some lease } := by
              refine ⟨by exact hready.opening, ?_, hready.unstarted⟩
              rintro _ ⟨⟩
              exact SyncLease.sane_acquire leaseOptions config.maxWaitMs clock
            exact hacquires.awaitAcquire rfl fun hheld => absurd hheld hunheld

/-- The loss of the lease: every transport is stopped before the failure is published. -/
theorem Covered.onLost (h : Covered session)
    (hlast : skips options session.stoppers = false) : Covered (session.onLost options) := by
  have hstands : (session.onLost options).Stands := h.stands.onLost
  have hstopped := stopped_all h.transports hlast
  have hunstarted : session.stage = .openingStore ∨ session.stage = .acquiring →
      session.started = [] ∧ ([] : List Transport) = [] := fun hstage =>
    ⟨(h.unstarted hstage).1, rfl⟩
  unfold SyncSession.onLost stopTransports at hstands ⊢
  dsimp only at hstands ⊢
  split at hstands
  · rename_i hthrew
    rw [if_pos hthrew]
    exact ⟨hstands, h.lease, h.idle, h.waits, hunstarted,
      fun transport hmem => Or.inr (hstopped transport hmem),
      fun hclosed => ⟨rfl, (h.closed hclosed).2⟩, h.rejected⟩
  · rename_i hquiet
    rw [if_neg hquiet]
    refine ⟨hstands, h.lease, h.idle, h.waits, hunstarted,
      fun transport hmem => Or.inr (hstopped transport hmem),
      fun hclosed => ⟨rfl, (h.closed hclosed).2⟩, ?_⟩
    intro hrejected
    have hfailed := h.rejected hrejected
    simp only [dispatch]
    rw [failed_stays hfailed (by simp)]
    exact hfailed

/-- A turn of the lease once it was acquired. -/
theorem Covered.turned (h : Covered session) {lease : SessionLease}
    (hlease : session.lease = some lease) (hstage : session.stage ≠ .acquiring)
    {turn : SyncLease.Event} (hquiet : turn.Quiet) :
    Covered
      { session with
        lease := some
          { lease with state := SyncLease.step lease.options lease.state turn } } := by
  have hsane := h.lease lease hlease
  have hidle := h.idle hstage lease hlease
  constructor
  · exact h.stands
  · rintro _ ⟨⟩
    exact hsane.step hquiet
  · rintro - _ ⟨⟩
    exact SyncLease.quiet_acquiring hsane.tracked hquiet hidle
  · exact fun hacquiring => absurd hacquiring hstage
  · exact h.unstarted
  · exact h.transports
  · intro hclosed
    obtain ⟨hstoppers, hdropped⟩ := h.closed hclosed
    refine ⟨hstoppers, ?_⟩
    rintro _ ⟨⟩
    exact SyncLease.quiet_dropped hsane.tracked (hdropped lease hlease) hidle hquiet
  · exact h.rejected

theorem Covered.lease_turn (h : Covered session) (turn : SyncLease.Event)
    (hquiet : turn.Quiet) (hthrows : ThrowsLast options session (.lease turn hquiet)) :
    Covered (step options session (.lease turn hquiet)) := by
  dsimp only [SyncSession.step]
  cases hlease : session.lease with
  | none => exact h
  | some lease =>
      have hsane := h.lease lease hlease
      obtain ⟨hstarts, hloses⟩ := hthrows lease hlease
      dsimp only
      by_cases hstage : session.stage = .acquiring
      · have hwaiting := h.waits hstage lease hlease
        have hunheld : lease.state.held = false := by
          rcases hsane.tracked.acquisition with ⟨hidle, -⟩ | ⟨-, hnone, -⟩
          · rw [hwaiting] at hidle
            cases hidle
          · simp [SyncLease.held, hnone]
        have hready := h.ready (Or.inr hstage)
        rw [hunheld, Bool.false_and, if_neg Bool.false_ne_true, if_pos hstage]
        have hacquires : Ready
            { session with
              lease := some
                { lease with state := SyncLease.step lease.options lease.state turn } } := by
          refine ⟨by exact hready.opening, ?_, hready.unstarted⟩
          rintro _ ⟨⟩
          exact hsane.step hquiet
        exact hacquires.awaitAcquire rfl (hstarts hstage)
      · have hturned := h.turned hlease hstage hquiet
        by_cases hlost : (lease.state.held &&
            !(SyncLease.step lease.options lease.state turn).held) = true
        · rw [if_pos hlost]
          have hheld : lease.state.held = true ∧
              (SyncLease.step lease.options lease.state turn).held = false := by
            simpa using hlost
          exact hturned.onLost (hloses hheld.1 hheld.2)
        · rw [if_neg hlost, if_neg hstage]
          exact hturned

/-- The startup goes on, past the acquisition. -/
theorem Covered.continues (h : Covered session) (hacquired : session.stage ≠ .acquiring)
    {next : SyncSession} (hstands : next.Stands)
    (hstage : next.stage = .flushing ∨ next.stage = .returned)
    (hlease : next.lease = session.lease) (hstarted : next.started = session.started)
    (hstoppers : next.stoppers = session.stoppers) (hstopped : next.stopped = session.stopped)
    (hpromise : next.stopPromise = session.stopPromise) : Covered next := by
  have hother : next.stage ≠ .openingStore ∧ next.stage ≠ .acquiring ∧
      next.stage ≠ .releasing ∧ next.stage ≠ .rejected := by
    rcases hstage with hstage | hstage <;> simp [hstage]
  obtain ⟨hopening, hacquiring, hreleasing, hrejected⟩ := hother
  constructor
  · exact hstands
  · rw [hlease]
    exact h.lease
  · rw [hlease]
    exact fun _ => h.idle hacquired
  · exact fun hnow => absurd hnow hacquiring
  · exact fun hnow => absurd hnow (not_or.mpr ⟨hopening, hacquiring⟩)
  · rw [hstarted, hstoppers, hstopped]
    exact h.transports
  · rw [hstoppers, hlease, hpromise]
    rintro (hnow | hnow | hsome)
    · exact absurd hnow hreleasing
    · exact absurd hnow hrejected
    · exact h.closed (Or.inr (Or.inr hsome))
  · exact fun hnow => absurd hnow hrejected

theorem Covered.hydrated (h : Covered session) : Covered (step options session .hydrated) := by
  have hstands : (step options session .hydrated).Stands := h.stands.step .hydrated
  dsimp only [SyncSession.step] at hstands ⊢
  split at hstands
  · rename_i hstage
    rw [if_pos hstage]
    exact h
  · rename_i hstage
    rw [if_neg hstage]
    have hstage : session.stage = .hydrating := not_not.mp hstage
    refine h.continues (by simp [hstage]) hstands ?_ rfl rfl rfl rfl rfl
    dsimp only
    split
    · exact Or.inl rfl
    · exact Or.inr rfl

theorem Covered.flushed (h : Covered session) : Covered (step options session .flushed) := by
  have hstands : (step options session .flushed).Stands := h.stands.step .flushed
  dsimp only [SyncSession.step] at hstands ⊢
  split at hstands
  · rename_i hstage
    rw [if_pos hstage]
    exact h.continues (by simp [hstage]) hstands (Or.inr rfl) rfl rfl rfl rfl rfl
  · rename_i hstage
    rw [if_neg hstage]
    exact h

theorem Covered.status (h : Covered session) (transport : Transport) (online : Bool) :
    Covered (step options session (.status transport online)) := by
  have hstands : (step options session (.status transport online)).Stands := h.stands.step _
  dsimp only [SyncSession.step] at hstands ⊢
  split at hstands
  · rename_i hmem
    rw [if_pos hmem]
    refine ⟨hstands, h.lease, h.idle, h.waits, h.unstarted, h.transports, h.closed, ?_⟩
    intro hrejected
    have hfailed := h.rejected hrejected
    simp only [reportTransport, dispatch]
    rw [failed_stays hfailed (by simp)]
    exact hfailed
  · rename_i hmem
    rw [if_neg hmem]
    exact h

theorem Covered.released (h : Covered session) : Covered (step options session .released) := by
  have hstands : (step options session .released).Stands := h.stands.step .released
  dsimp only [SyncSession.step] at hstands ⊢
  split at hstands
  · rename_i hunreleased
    rw [if_pos hunreleased]
    exact h
  · rename_i hreleased
    rw [if_neg hreleased]
    unfold SyncSession.released at hstands ⊢
    split at hstands
    · rename_i hstage
      rw [if_pos hstage]
      have hopening := h.stands.opening (by simp [hstage]) (by simp [hstage]) (by simp [hstage])
      refine ⟨hstands, h.lease, fun _ => h.idle (by simp [hstage]), ?_, ?_, h.transports,
        fun _ => h.closed (Or.inl hstage), fun _ => hopening.failed⟩
      · intro hacquiring
        cases hacquiring
      · rintro (hnow | hnow) <;> cases hnow
    · rename_i hstage
      rw [if_neg hstage]
      split at hstands
      · rename_i stopToken hpromise
        have hclosed := h.closed (Or.inr (Or.inr (by simp [hpromise])))
        obtain ⟨-, hreturned, -⟩ := h.stands.awaited hpromise
        refine ⟨hstands, h.lease, h.idle, h.waits, h.unstarted, h.transports, fun _ => hclosed, ?_⟩
        intro hrejected
        exact absurd (hreturned.symm.trans hrejected) (by simp)
      · exact h

/-- The first `stop` of a returned session. -/
theorem Covered.stop (h : Covered session) (hreturned : session.stage = .returned)
    (hpromise : session.stopPromise = none)
    (hthrows : ThrowsLast options session .stop) : Covered (session.stop options) := by
  obtain ⟨hlast, hheld⟩ := hthrows hreturned hpromise
  obtain ⟨operation, -, heq⟩ := h.stands.stop_eq options hreturned hpromise
  have hstands : (session.stop options).Stands := h.stands.stop hreturned
  have hstopped := stopped_all h.transports hlast
  have hidle := h.idle (by simp [hreturned])
  have hstage : session.stage ≠ .openingStore ∧ session.stage ≠ .acquiring := by
    simp [hreturned]
  have hrejected {phase : AppPhase} (hnow : session.stage = .rejected) : phase = .failed := by
    rw [hreturned] at hnow
    cases hnow
  rw [heq] at hstands ⊢
  dsimp only [stopTransports, stopping] at hstands ⊢
  split at hstands
  · rename_i hthrew
    rw [if_pos hthrew]
    refine covered_of_closed hstands hstage rfl hstopped ?_ hrejected
    intro lease hlease
    have hsane := h.lease lease hlease
    refine ⟨hsane, hidle lease hlease, hsane.dropped ?_⟩
    have hsome : session.lease = some lease := hlease
    by_contra hnow
    rw [hheld (by simpa [leaseHeld, hsome] using hnow)] at hthrew
    cases hthrew
  · rename_i hquiet
    rw [if_neg hquiet]
    cases hlease : session.lease with
    | some lease =>
        have hreleased := release_closes (h.lease lease hlease) (hidle lease hlease)
        simp only [hlease, Option.isSome_some, if_true, releaseLease, Option.map_some]
          at hstands ⊢
        refine covered_of_closed hstands hstage rfl hstopped ?_ hrejected
        rintro _ ⟨⟩
        exact hreleased
    | none =>
        simp only [hlease, Option.isSome_none, Bool.false_eq_true, if_false] at hstands ⊢
        refine covered_of_closed hstands hstage rfl hstopped ?_ hrejected
        rintro _ ⟨⟩

theorem Covered.step (h : Covered session) (event : SessionEvent)
    (hthrows : ThrowsLast options session event) :
    Covered (SyncSession.step options session event) := by
  cases event with
  | storeOpens constructs clock => exact h.storeOpens constructs clock hthrows
  | lease turn hquiet => exact h.lease_turn turn hquiet hthrows
  | hydrated => exact h.hydrated
  | flushed => exact h.flushed
  | status transport online => exact h.status transport online
  | released => exact h.released
  | stop =>
      dsimp only [SyncSession.step]
      split
      · rename_i hreturned
        cases hpromise : session.stopPromise with
        | none => exact h.stop hreturned hpromise hthrows
        | some promise =>
            rw [stop_again hpromise]
            exact h
      · exact h

theorem covered_start : Covered start := by
  refine ⟨stands_start, ?_, ?_, ?_, fun _ => ⟨rfl, rfl⟩, ?_, ?_, ?_⟩
  · rintro _ ⟨⟩
  · rintro - _ ⟨⟩
  · rintro - _ ⟨⟩
  · exact fun transport hmem => absurd hmem List.not_mem_nil
  · rintro (hnow | hnow | hnow) <;> cases hnow
  · intro hnow
    cases hnow

theorem Covered.cleanedUp (h : Covered session)
    (hclosed : session.stage = .releasing ∨ session.stage = .rejected ∨
      session.stopPromise.isSome = true) : CleanedUp session := by
  obtain ⟨hstoppers, hdropped⟩ := h.closed hclosed
  refine ⟨fun transport hmem => ?_, hdropped⟩
  rcases h.transports transport hmem with hstopper | hstopped
  · rw [hstoppers] at hstopper
    cases hstopper
  · exact hstopped

/-- Where only the last transport to be stopped throws, and nothing is left to be done
after it, the session ends clean on every path. -/
theorem session_ends_clean (options : SyncOptions) (events : List SessionEvent)
    (hthrows : Run.Along (SyncSession.step options) (ThrowsLast options) start events) :
    EndsClean (Run.final (SyncSession.step options) start events) := by
  have hcovered : Covered (Run.final (SyncSession.step options) start events) :=
    Run.induction (fun _ event h => h.step event) covered_start hthrows
  constructor
  · intro hrejected
    exact ⟨hcovered.cleanedUp (Or.inr (Or.inl hrejected)), hcovered.rejected hrejected⟩
  · intro hresolved
    exact ⟨hcovered.cleanedUp (Or.inr (Or.inr (by simp [hresolved]))),
      hcovered.stands.stopped_of_resolved hresolved⟩
  · intro hrejected
    exact ⟨hcovered.cleanedUp (Or.inr (Or.inr (by simp [hrejected]))),
      hcovered.stands.failed_of_rejected hrejected⟩

theorem session_ends_clean_last_throws :
    let options : SyncOptions :=
      { backend := true, supabase := true, lease := none, stopThrows := (· = .supabase) }
    EndsClean (Run.final (SyncSession.step options) start
      [.storeOpens true fun _ => 0, .hydrated, .stop]) := by
  intro options
  refine session_ends_clean options _ ⟨?_, trivial, ?_, trivial⟩
  · rintro - - - started ⟨⟩
  · exact fun _ _ => ⟨by decide, by decide⟩

/-- The backend throws when it is stopped, and the other transport is never stopped. -/
theorem throwing_stop_skips_transports :
    let options : SyncOptions :=
      { backend := true, supabase := true, lease := none, stopThrows := (· = .backend) }
    ¬ EndsClean (Run.final (SyncSession.step options) start
      [.storeOpens true fun _ => 0, .hydrated, .stop]) := by
  intro options hclean
  have hstopped := (hclean.stopRejected (by decide)).1.transports .supabase (by decide)
  exact absurd hstopped (by decide)

end Cleanup

end SyncSession

end ZedSync.Js
