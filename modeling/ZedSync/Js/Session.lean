import ZedSync.Js.Lease
import ZedSync.Js.Start

/-!
`startSync` and the `stop` of its session (`sdk/src/start.mjs`) with what they
have to clean up: the transports, which may throw when they are started or
stopped, and the lease. Every turn runs from one `await` to the next. What the
client does meanwhile is left out here.
-/

namespace ZedSync.Js

inductive Transport where
  | backend
  | supabase
  deriving DecidableEq, Repr

/-- The lease of the options; no failure limit and no `onRenewError` is passed on. -/
structure LeaseConfig where
  ttlMs : Option ℚ := none
  renewIntervalMs : Option ℚ := none
  maxWaitMs : Option ℚ := none
  flushOnAcquire : Bool := true

structure SyncOptions where
  backend : Bool
  supabase : Bool
  lease : Option LeaseConfig
  startThrows : Transport → Bool := fun _ => false
  stopThrows : Transport → Bool := fun _ => false

/-- The configured transports, in the order `startSync` starts them. -/
def SyncOptions.transports (options : SyncOptions) : List Transport :=
  (if options.backend then [.backend] else []) ++ if options.supabase then [.supabase] else []

/-- The constructed lease with the options it keeps. -/
structure SessionLease where
  options : LeaseOptions
  state : SyncLease

/-- Where `startSync` is. -/
inductive StartStage where
  | openingStore
  | acquiring
  | hydrating
  | flushing
  | releasing
  | returned
  | rejected
  deriving DecidableEq, Repr

/-- `stopPromise`, once it is set. -/
inductive StopPromise where
  | releasing (stopToken : Nat)
  | resolved
  | rejected
  deriving DecidableEq, Repr

structure SyncSession where
  lifecycle : AppLifecycleSnapshot
  stage : StartStage := .openingStore
  lease : Option SessionLease := none
  onlineTransports : List Transport := []
  /-- The transports that started, those to be stopped, and those whose `stop` was
  invoked. -/
  started : List Transport := []
  stoppers : List Transport := []
  stopped : List Transport := []
  stopPromise : Option StopPromise := none
  /-- How often `stop` began to clean up, and the lifecycle events dispatched. -/
  cleanups : Nat := 0
  dispatched : List (LifecycleEvent × Option TransitionOutcome) := []

/-- A turn of the lease that is no call on it. -/
def SyncLease.Event.Quiet : SyncLease.Event → Prop
  | .call _ => False
  | .renewRejects _ _ failure => failure.calls = [] ∧ failure.callbackThrows = false
  | _ => True

/-- What the event loop runs next. -/
inductive SessionEvent where
  | storeOpens (constructs : Bool) (clock : Nat → ℚ)
  | lease (turn : SyncLease.Event) (hquiet : turn.Quiet)
  | hydrated
  | flushed
  | status (transport : Transport) (online : Bool)
  | released
  | stop

namespace SyncSession

def dispatch (session : SyncSession) (event : LifecycleEvent) :
    Option TransitionOutcome × SyncSession :=
  let (next, outcome) := Js.dispatch session.lifecycle event
  (outcome,
    { session with lifecycle := next, dispatched := (event, outcome) :: session.dispatched })

/-- The session `startSync` begins with. -/
def start : SyncSession :=
  (dispatch { lifecycle := initialSnapshot 0 } .startRequested).2

/-- The transports of a list whose `stop` is invoked: the first error ends the loop. -/
def invoked (throws : Transport → Bool) : List Transport → List Transport
  | [] => []
  | transport :: rest =>
      transport :: if throws transport then [] else invoked throws rest

/-- The list is emptied before the first `stop`. -/
def stopTransports (options : SyncOptions) (session : SyncSession) : Bool × SyncSession :=
  (session.stoppers.any options.stopThrows,
    { session with
      stoppers := []
      stopped := session.stopped ++ invoked options.stopThrows session.stoppers })

/-- The release of the lease, up to what it awaits. -/
def releaseLease (session : SyncSession) : SyncSession :=
  { session with
    lease := session.lease.map fun lease => { lease with state := lease.state.release } }

/-- The `catch` of `startSync`, up to the release it awaits. -/
def failStart (options : SyncOptions) (session : SyncSession) : SyncSession :=
  let (threw, session) := session.stopTransports options
  if threw then { session with stage := .rejected }
  else if session.lease.isSome then { session.releaseLease with stage := .releasing }
  else { (session.dispatch (.startFailed firstToken)).2 with stage := .rejected }

/-- The transports are started in their order; the first error goes to the `catch`. -/
def startTransports (options : SyncOptions) (session : SyncSession) :
    List Transport → SyncSession
  | [] => { session with stage := .hydrating }
  | transport :: rest =>
      if options.startThrows transport then session.failStart options
      else
        startTransports options
          { session with
            started := session.started ++ [transport]
            stoppers := session.stoppers ++ [transport] } rest

/-- `startSync` while and after it awaits `acquire`. -/
def awaitAcquire (options : SyncOptions) (session : SyncSession) (lease : SyncLease) :
    SyncSession :=
  if lease.acquiring then { session with stage := .acquiring }
  else if lease.held then session.startTransports options options.transports
  else session.failStart options

/-- The `onLost` of `startSync`: effects are revoked before the failure is
published. -/
def onLost (options : SyncOptions) (session : SyncSession) : SyncSession :=
  let (threw, session) := session.stopTransports options
  if threw then session else (session.dispatch (.runtimeFailed firstToken)).2

/-- `reportTransport`. -/
def reportTransport (session : SyncSession) (transport : Transport) (online : Bool) :
    SyncSession :=
  let onlineTransports :=
    if online then session.onlineTransports.insert transport
    else session.onlineTransports.erase transport
  ({ session with onlineTransports := onlineTransports }.dispatch
    (.connectivityChanged firstToken (!onlineTransports.isEmpty))).2

/-- `stop` of the session, up to the release it awaits. -/
def stop (options : SyncOptions) (session : SyncSession) : SyncSession :=
  match session.stopPromise with
  | some _ => session
  | none =>
      let (outcome, session) :=
        session.dispatch (World.stopEvent session.lifecycle.phase)
      -- Stopped already, or rejected: no promise is kept.
      if outcome ≠ some .applied then session
      else
        let stopToken := session.lifecycle.activeToken.getD 0
        let (threw, session) :=
          { session with cleanups := session.cleanups + 1 }.stopTransports options
        if threw then
          { (session.dispatch (.stopFailed stopToken)).2 with stopPromise := some .rejected }
        else if session.lease.isSome then
          { session.releaseLease with stopPromise := some (.releasing stopToken) }
        else
          { (session.dispatch (.stopSucceeded stopToken)).2 with
            stopPromise := some .resolved }

/-- The release of the lease resolved. -/
def released (session : SyncSession) : SyncSession :=
  if session.stage = .releasing then
    { (session.dispatch (.startFailed firstToken)).2 with stage := .rejected }
  else
    match session.stopPromise with
    | some (.releasing stopToken) =>
        { (session.dispatch (.stopSucceeded stopToken)).2 with stopPromise := some .resolved }
    | _ => session

/-- The releases of the lease all settled. -/
def Unreleased (session : SyncSession) : Bool :=
  session.lease.any fun lease => !lease.state.releases.isEmpty

/-- One turn; an event that nothing waits for does nothing. -/
def step (options : SyncOptions) (session : SyncSession) : SessionEvent → SyncSession
  | .storeOpens constructs clock =>
      if session.stage ≠ .openingStore then session
      else if !constructs then session.failStart options
      else
        match options.lease with
        | none => session.startTransports options options.transports
        | some config =>
            match LeaseOptions.construct config.ttlMs config.renewIntervalMs none with
            | none => session.failStart options
            | some leaseOptions =>
                let state := ({} : SyncLease).acquire config.maxWaitMs clock
                { session with lease := some { options := leaseOptions, state := state } }
                  |>.awaitAcquire options state
  | .lease turn _ =>
      match session.lease with
      | none => session
      | some lease =>
          let state := SyncLease.step lease.options lease.state turn
          let session := { session with lease := some { lease with state := state } }
          if lease.state.held && !state.held then session.onLost options
          else if session.stage = .acquiring then session.awaitAcquire options state
          else session
  | .hydrated =>
      if session.stage ≠ .hydrating then session
      else
        let flushes := options.backend &&
          session.lease.isSome && options.lease.any (·.flushOnAcquire)
        { (session.dispatch (.startSucceeded firstToken)).2 with
          stage := if flushes then .flushing else .returned }
  | .flushed =>
      if session.stage = .flushing then { session with stage := .returned } else session
  | .status transport online =>
      if transport ∈ session.started then session.reportTransport transport online
      else session
  | .released => if session.Unreleased then session else session.released
  | .stop => if session.stage = .returned then session.stop options else session

/-- The lifecycle of a session, as far as it can come. -/
inductive Standing where
  | starting (online : Bool)
  | running (online : Bool)
  | lost
  | startFailed
  | stopping (operation : LifecycleOperation)
  | stopped
  | stopFailed

def Standing.snapshot : Standing → AppLifecycleSnapshot
  | .starting online =>
      { phase := .starting, operation := .start, generation := 1, activeToken := some 1,
        desiredRunning := true, online := online, failure := none }
  | .running online =>
      { phase := if online then .online else .offline, operation := .none, generation := 1,
        activeToken := some 1, desiredRunning := true, online := online, failure := none }
  | .lost => failed (initialSnapshot 1) .runtime
  | .startFailed => failed (initialSnapshot 1) .start
  | .stopping operation =>
      { phase := .stopping, operation := operation, generation := 2, activeToken := some 2,
        desiredRunning := false, online := false, failure := none }
  | .stopped => initialSnapshot 2
  | .stopFailed => failed (initialSnapshot 2) .stop

/-- Where `startSync` and `stop` are while the lifecycle stands there. -/
def Standing.At : Standing → StartStage → Option StopPromise → Prop
  | .starting _, stage, promise =>
      promise = none ∧ stage ≠ .flushing ∧ stage ≠ .returned
  | .running _, stage, promise => promise = none ∧ (stage = .flushing ∨ stage = .returned)
  | .lost, _, promise => promise = none
  | .startFailed, stage, promise => promise = none ∧ stage = .rejected
  | .stopping operation, stage, promise =>
      (operation = .stop ∨ operation = .reconcile) ∧ stage = .returned ∧
        promise = some (.releasing 2)
  | .stopped, stage, promise => stage = .returned ∧ promise = some .resolved
  | .stopFailed, stage, promise => stage = .returned ∧ promise = some .rejected

/-- The phase follows from where `startSync` and `stop` are, up to the loss of the
lease. -/
def Stands (session : SyncSession) : Prop :=
  ∃ standing : Standing, session.lifecycle = standing.snapshot ∧
    standing.At session.stage session.stopPromise

section Dispatches

theorem starting_succeeds (online : Bool) :
    Js.dispatch (Standing.starting online).snapshot (.startSucceeded firstToken) =
      ((Standing.running online).snapshot, some .applied) := by
  cases online <;> rfl

theorem starting_fails (online : Bool) :
    Js.dispatch (Standing.starting online).snapshot (.startFailed firstToken) =
      (Standing.startFailed.snapshot, some .applied) := by
  cases online <;> rfl

theorem running_stops (online : Bool) :
    Js.dispatch (Standing.running online).snapshot
        (World.stopEvent (Standing.running online).snapshot.phase) =
      ((Standing.stopping .stop).snapshot, some .applied) := by
  cases online <;> rfl

theorem lost_reconciles :
    Js.dispatch Standing.lost.snapshot .reconcileRequested =
      ((Standing.stopping .reconcile).snapshot, some .applied) := rfl

theorem stopping_succeeds {operation : LifecycleOperation} :
    Js.dispatch (Standing.stopping operation).snapshot (.stopSucceeded 2) =
      (Standing.stopped.snapshot, some .applied) := by
  cases operation <;> rfl

theorem stopping_fails {operation : LifecycleOperation} :
    Js.dispatch (Standing.stopping operation).snapshot (.stopFailed 2) =
      (Standing.stopFailed.snapshot, some .applied) := by
  cases operation <;> rfl

/-- A connectivity report leaves the standing, up to the connectivity itself. -/
theorem stands_connectivity {session : SyncSession} (h : session.Stands) (online : Bool) :
    (session.dispatch (.connectivityChanged firstToken online)).2.Stands := by
  obtain ⟨standing, hlifecycle, hat⟩ := h
  unfold dispatch Stands
  dsimp only
  rw [hlifecycle]
  cases standing with
  | starting before => exact ⟨.starting online, by cases before <;> cases online <;> rfl, hat⟩
  | running before => exact ⟨.running online, by cases before <;> cases online <;> rfl, hat⟩
  | lost => exact ⟨.lost, by cases online <;> rfl, hat⟩
  | startFailed => exact ⟨.startFailed, by cases online <;> rfl, hat⟩
  | stopping operation =>
      exact ⟨.stopping operation, by cases operation <;> cases online <;> rfl, hat⟩
  | stopped => exact ⟨.stopped, by cases online <;> rfl, hat⟩
  | stopFailed => exact ⟨.stopFailed, by cases online <;> rfl, hat⟩

/-- A failure of the running session ends it, unless it is over already. -/
theorem stands_runtimeFailed {session : SyncSession} (h : session.Stands) :
    (session.dispatch (.runtimeFailed firstToken)).2.Stands := by
  obtain ⟨standing, hlifecycle, hat⟩ := h
  unfold dispatch Stands
  dsimp only
  rw [hlifecycle]
  cases standing with
  | starting online => exact ⟨.lost, by cases online <;> rfl, hat.1⟩
  | running online => exact ⟨.lost, by cases online <;> rfl, hat.1⟩
  | lost => exact ⟨.lost, rfl, hat⟩
  | startFailed => exact ⟨.startFailed, rfl, hat⟩
  | stopping operation => exact ⟨.stopping operation, by cases operation <;> rfl, hat⟩
  | stopped => exact ⟨.stopped, rfl, hat⟩
  | stopFailed => exact ⟨.stopFailed, rfl, hat⟩

/-- Nothing but a reconciliation leads out of a failure. -/
theorem failed_stays {snapshot : AppLifecycleSnapshot} (hfailed : snapshot.phase = .failed)
    {event : LifecycleEvent} (hevent : event ≠ .reconcileRequested) :
    (Js.dispatch snapshot event).1 = snapshot := by
  have hkept : (reduce snapshot event).2 ≠ .applied := by
    cases event with
    | reconcileRequested => exact absurd rfl hevent
    | startRequested | stopRequested => simp [reduce, hfailed]
    | startSucceeded token | startFailed token | connectivityChanged token online
    | runtimeFailed token | stopSucceeded token | stopFailed token =>
        simp only [reduce, withToken, hfailed]
        split <;> simp
  unfold Js.dispatch
  dsimp only
  rw [if_neg hkept]

end Dispatches

section Standing

variable {options : SyncOptions} {session : SyncSession}

/-- `startSync` has not succeeded: the lifecycle still starts, unless the lease was
lost meanwhile. -/
def Opening (session : SyncSession) : Prop :=
  session.stopPromise = none ∧
    ((∃ online, session.lifecycle = (Standing.starting online).snapshot) ∨
      session.lifecycle = Standing.lost.snapshot)

theorem Stands.opening (h : session.Stands) (hflushing : session.stage ≠ .flushing)
    (hreturned : session.stage ≠ .returned) (hrejected : session.stage ≠ .rejected) :
    session.Opening := by
  obtain ⟨standing, hlifecycle, hat⟩ := h
  cases standing with
  | starting online => exact ⟨hat.1, Or.inl ⟨online, hlifecycle⟩⟩
  | running online => exact absurd hat.2 (by simp [hflushing, hreturned])
  | lost => exact ⟨hat, Or.inr hlifecycle⟩
  | startFailed => exact absurd hat.2 hrejected
  | stopping operation => exact absurd hat.2.1 hreturned
  | stopped => exact absurd hat.1 hreturned
  | stopFailed => exact absurd hat.1 hreturned

theorem Opening.stands (h : session.Opening) (hflushing : session.stage ≠ .flushing)
    (hreturned : session.stage ≠ .returned) : session.Stands := by
  obtain ⟨hpromise, ⟨online, hlifecycle⟩ | hlifecycle⟩ := h
  · exact ⟨.starting online, hlifecycle, hpromise, hflushing, hreturned⟩
  · exact ⟨.lost, hlifecycle, hpromise⟩

/-- `startSync` rejects. -/
theorem Opening.rejects (h : session.Opening) :
    Stands { (session.dispatch (.startFailed firstToken)).2 with stage := .rejected } := by
  obtain ⟨hpromise, ⟨online, hlifecycle⟩ | hlifecycle⟩ := h
  · refine ⟨.startFailed, ?_, hpromise, rfl⟩
    simp only [dispatch, hlifecycle, starting_fails]
  · refine ⟨.lost, ?_, hpromise⟩
    simp only [dispatch, hlifecycle]
    rfl

theorem Opening.failStart (h : session.Opening) : (session.failStart options).Stands := by
  unfold SyncSession.failStart stopTransports
  dsimp only
  split
  · exact Opening.stands (by exact h) (by simp) (by simp)
  · split
    · exact Opening.stands (by exact h) (by simp) (by simp)
    · exact Opening.rejects (by exact h)

theorem Opening.startTransports (transports : List Transport) (h : session.Opening) :
    (session.startTransports options transports).Stands := by
  induction transports generalizing session with
  | nil =>
      unfold SyncSession.startTransports
      exact Opening.stands (by exact h) (by simp) (by simp)
  | cons transport rest ih =>
      unfold SyncSession.startTransports
      split
      · exact h.failStart
      · exact ih h

theorem Opening.awaitAcquire (h : session.Opening) (lease : SyncLease) :
    (session.awaitAcquire options lease).Stands := by
  unfold SyncSession.awaitAcquire
  split
  · exact Opening.stands (by exact h) (by simp) (by simp)
  · split
    · exact h.startTransports _
    · exact h.failStart

theorem Stands.onLost (h : session.Stands) : (session.onLost options).Stands := by
  unfold SyncSession.onLost stopTransports
  dsimp only
  split
  · exact h
  · exact stands_runtimeFailed (by exact h)

/-- The session when `stop` begins its cleanup: the request was applied. -/
def stopping (session : SyncSession) (operation : LifecycleOperation) : SyncSession :=
  { session with
    lifecycle := (Standing.stopping operation).snapshot
    dispatched := (World.stopEvent session.lifecycle.phase, some .applied) :: session.dispatched
    cleanups := session.cleanups + 1 }

/-- The first `stop` of a session that was returned is always applied. -/
theorem Stands.stop_eq (h : session.Stands) (options : SyncOptions)
    (hreturned : session.stage = .returned)
    (hpromise : session.stopPromise = none) :
    ∃ operation, (operation = .stop ∨ operation = .reconcile) ∧
      session.stop options =
        let stopped := ((session.stopping operation).stopTransports options).2
        if session.stoppers.any options.stopThrows then
          { (stopped.dispatch (.stopFailed 2)).2 with stopPromise := some .rejected }
        else if session.lease.isSome then
          { stopped.releaseLease with stopPromise := some (.releasing 2) }
        else
          { (stopped.dispatch (.stopSucceeded 2)).2 with stopPromise := some .resolved } := by
  obtain ⟨standing, hlifecycle, hat⟩ := h
  have happlied : ∃ operation, (operation = .stop ∨ operation = .reconcile) ∧
      Js.dispatch session.lifecycle (World.stopEvent session.lifecycle.phase) =
        ((Standing.stopping operation).snapshot, some .applied) := by
    rw [hlifecycle]
    cases standing with
    | running online => exact ⟨.stop, Or.inl rfl, running_stops online⟩
    | lost => exact ⟨.reconcile, Or.inr rfl, lost_reconciles⟩
    | starting online => exact absurd hreturned hat.2.2
    | startFailed => exact absurd (hreturned.symm.trans hat.2) (by simp)
    | stopping operation => exact absurd (hpromise.symm.trans hat.2.2) (by simp)
    | stopped => exact absurd (hpromise.symm.trans hat.2) (by simp)
    | stopFailed => exact absurd (hpromise.symm.trans hat.2) (by simp)
  obtain ⟨operation, hoperation, hdispatch⟩ := happlied
  refine ⟨operation, hoperation, ?_⟩
  have htoken : (Standing.stopping operation).snapshot.activeToken.getD 0 = 2 := rfl
  simp only [SyncSession.stop, hpromise, dispatch, hdispatch, ne_eq, not_true_eq_false, if_false,
    htoken, stopping, stopTransports]

/-- Every later `stop` returns the promise of the first. -/
theorem stop_again {promise : StopPromise} (hpromise : session.stopPromise = some promise) :
    session.stop options = session := by
  simp [SyncSession.stop, hpromise]

theorem Stands.stop (h : session.Stands) (hreturned : session.stage = .returned) :
    (session.stop options).Stands := by
  cases hpromise : session.stopPromise with
  | some promise =>
      rw [stop_again hpromise]
      exact h
  | none =>
      obtain ⟨operation, hoperation, heq⟩ := h.stop_eq options hreturned hpromise
      rw [heq]
      dsimp only
      split
      · refine ⟨.stopFailed, ?_, hreturned, rfl⟩
        simp only [dispatch, stopTransports, stopping, stopping_fails]
      · split
        · exact ⟨.stopping operation, rfl, hoperation, hreturned, rfl⟩
        · refine ⟨.stopped, ?_, hreturned, rfl⟩
          simp only [dispatch, stopTransports, stopping, stopping_succeeds]

/-- What `stop` promised tells where the lifecycle stands. -/
theorem Stands.of_stopPromise (h : session.Stands) {promise : StopPromise}
    (hpromise : session.stopPromise = some promise) :
    session.stage = .returned ∧ ∃ standing : Standing,
      session.lifecycle = standing.snapshot ∧
        match promise with
        | .releasing stopToken => stopToken = 2 ∧ ∃ operation, standing = .stopping operation
        | .resolved => standing = .stopped
        | .rejected => standing = .stopFailed := by
  obtain ⟨standing, hlifecycle, hat⟩ := h
  rw [hpromise] at hat
  cases standing with
  | starting online => cases hat.1
  | running online => cases hat.1
  | lost => cases hat
  | startFailed => cases hat.1
  | stopping operation =>
      obtain ⟨-, hreturned, hreleasing⟩ := hat
      obtain rfl := Option.some.inj hreleasing
      exact ⟨hreturned, .stopping operation, hlifecycle, rfl, operation, rfl⟩
  | stopped =>
      obtain rfl := Option.some.inj hat.2
      exact ⟨hat.1, .stopped, hlifecycle, rfl⟩
  | stopFailed =>
      obtain rfl := Option.some.inj hat.2
      exact ⟨hat.1, .stopFailed, hlifecycle, rfl⟩

/-- While the release of `stop` is awaited, the lifecycle waits for it. -/
theorem Stands.awaited (h : session.Stands) {stopToken : Nat}
    (hpromise : session.stopPromise = some (.releasing stopToken)) :
    stopToken = 2 ∧ session.stage = .returned ∧
      ∃ operation, session.lifecycle = (Standing.stopping operation).snapshot := by
  obtain ⟨hreturned, _, hlifecycle, htoken, operation, rfl⟩ := h.of_stopPromise hpromise
  exact ⟨htoken, hreturned, operation, hlifecycle⟩

theorem Stands.stopped_of_resolved (h : session.Stands)
    (hpromise : session.stopPromise = some .resolved) : session.lifecycle.phase = .stopped := by
  obtain ⟨-, _, hlifecycle, rfl⟩ := h.of_stopPromise hpromise
  rw [hlifecycle]
  rfl

theorem Stands.failed_of_rejected (h : session.Stands)
    (hpromise : session.stopPromise = some .rejected) : session.lifecycle.phase = .failed := by
  obtain ⟨-, _, hlifecycle, rfl⟩ := h.of_stopPromise hpromise
  rw [hlifecycle]
  rfl

theorem Stands.released (h : session.Stands) : session.released.Stands := by
  unfold SyncSession.released
  split
  · rename_i hreleasing
    exact (h.opening (by simp [hreleasing]) (by simp [hreleasing])
      (by simp [hreleasing])).rejects
  · split
    · rename_i stopToken hpromise
      obtain ⟨rfl, hreturned, operation, hlifecycle⟩ := h.awaited hpromise
      refine ⟨.stopped, ?_, hreturned, rfl⟩
      simp only [dispatch, hlifecycle, stopping_succeeds]
    · exact h

theorem Stands.hydrated (h : session.Stands) (hhydrating : session.stage = .hydrating)
    {stage : StartStage} (hstage : stage = .flushing ∨ stage = .returned) :
    Stands { (session.dispatch (.startSucceeded firstToken)).2 with stage := stage } := by
  obtain ⟨hpromise, ⟨online, hlifecycle⟩ | hlifecycle⟩ :=
    h.opening (by simp [hhydrating]) (by simp [hhydrating]) (by simp [hhydrating])
  · refine ⟨.running online, ?_, hpromise, hstage⟩
    simp only [dispatch, hlifecycle, starting_succeeds]
  · refine ⟨.lost, ?_, hpromise⟩
    simp only [dispatch, hlifecycle]
    rfl

theorem Stands.flushed (h : session.Stands) (hflushing : session.stage = .flushing) :
    Stands { session with stage := .returned } := by
  obtain ⟨standing, hlifecycle, hat⟩ := h
  cases standing with
  | running online => exact ⟨.running online, hlifecycle, hat.1, Or.inr rfl⟩
  | lost => exact ⟨.lost, hlifecycle, hat⟩
  | starting online => exact absurd hflushing hat.2.1
  | startFailed => exact absurd (hflushing.symm.trans hat.2) (by simp)
  | stopping operation => exact absurd (hflushing.symm.trans hat.2.1) (by simp)
  | stopped => exact absurd (hflushing.symm.trans hat.1) (by simp)
  | stopFailed => exact absurd (hflushing.symm.trans hat.1) (by simp)

theorem Stands.step (h : session.Stands) (event : SessionEvent) :
    (step options session event).Stands := by
  cases event with
  | storeOpens constructs clock =>
      dsimp only [SyncSession.step]
      split
      · exact h
      · rename_i hstage
        have hstage : session.stage = .openingStore := not_not.mp hstage
        have hopening := h.opening (by simp [hstage]) (by simp [hstage]) (by simp [hstage])
        split
        · exact hopening.failStart
        · split
          · exact hopening.startTransports _
          · split
            · exact hopening.failStart
            · exact Opening.awaitAcquire (by exact hopening) _
  | lease turn hquiet =>
      dsimp only [SyncSession.step]
      split
      · exact h
      · split
        · exact Stands.onLost (by exact h)
        · split
          · rename_i hstage
            have hopening := h.opening (by simp [hstage]) (by simp [hstage]) (by simp [hstage])
            exact Opening.awaitAcquire (by exact hopening) _
          · exact h
  | hydrated =>
      dsimp only [SyncSession.step]
      split
      · exact h
      · rename_i hstage
        refine h.hydrated (not_not.mp hstage) ?_
        split
        · exact Or.inl rfl
        · exact Or.inr rfl
  | flushed =>
      dsimp only [SyncSession.step]
      split
      · rename_i hstage
        exact h.flushed hstage
      · exact h
  | status transport online =>
      dsimp only [SyncSession.step]
      split
      · exact stands_connectivity (by exact h) _
      · exact h
  | released =>
      dsimp only [SyncSession.step]
      split
      · exact h
      · exact h.released
  | stop =>
      dsimp only [SyncSession.step]
      split
      · rename_i hstage
        exact h.stop hstage
      · exact h

theorem stands_start : start.Stands := ⟨.starting false, rfl, rfl, by decide, by decide⟩

end Standing

end SyncSession

end ZedSync.Js
