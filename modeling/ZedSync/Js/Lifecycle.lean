import Mathlib.Data.List.Basic

/-!
The application lifecycle reducer of the browser SDK (`sdk/src/lifecycle.mjs`):
phases, the token every asynchronous completion carries, and the capabilities
a client is gated by. Listeners are left out here; they never control a
transition.
-/

namespace ZedSync

inductive AppPhase where
  | stopped
  | starting
  | online
  | offline
  | stopping
  | failed
  deriving DecidableEq, Repr, Inhabited

/-- The name of a phase, in messages and in JSON. -/
def AppPhase.text : AppPhase → String
  | .stopped => "stopped"
  | .starting => "starting"
  | .online => "online"
  | .offline => "offline"
  | .stopping => "stopping"
  | .failed => "failed"

inductive LifecycleOperation where
  | none
  | start
  | stop
  | reconcile
  deriving DecidableEq, Repr, Inhabited

inductive LifecycleFailure where
  | start
  | runtime
  | stop
  deriving DecidableEq, Repr, Inhabited

inductive TransitionOutcome where
  | applied
  | stuttered
  | stale
  | rejected
  deriving DecidableEq, Repr, Inhabited

inductive LifecycleEvent where
  | startRequested
  | startSucceeded (token : Nat)
  | startFailed (token : Nat)
  | connectivityChanged (token : Nat) (online : Bool)
  | runtimeFailed (token : Nat)
  | stopRequested
  | stopSucceeded (token : Nat)
  | stopFailed (token : Nat)
  | reconcileRequested
  deriving DecidableEq, Repr

/-- The token an asynchronous completion carries. -/
def LifecycleEvent.token : LifecycleEvent → Option Nat
  | .startSucceeded token | .startFailed token | .connectivityChanged token _
  | .runtimeFailed token | .stopSucceeded token | .stopFailed token => some token
  | .startRequested | .stopRequested | .reconcileRequested => none

structure AppLifecycleSnapshot where
  phase : AppPhase
  operation : LifecycleOperation
  generation : Nat
  activeToken : Option Nat
  desiredRunning : Bool
  online : Bool
  failure : Option LifecycleFailure
  deriving DecidableEq, Repr, Inhabited

namespace Js

/-- `Number.MAX_SAFE_INTEGER`. -/
def maxSafeInteger : Nat := 9007199254740991

def initialSnapshot (generation : Nat) : AppLifecycleSnapshot :=
  { phase := .stopped, operation := .none, generation := generation, activeToken := none,
    desiredRunning := false, online := false, failure := none }

/-- The shape the snapshot must have in its phase. -/
def coherent (snapshot : AppLifecycleSnapshot) : Bool :=
  match snapshot.phase with
  | .stopped =>
      snapshot.operation = .none ∧ snapshot.activeToken = none ∧
        !snapshot.desiredRunning ∧ !snapshot.online ∧ snapshot.failure = none
  | .starting =>
      snapshot.operation = .start ∧ snapshot.activeToken = some snapshot.generation ∧
        snapshot.desiredRunning ∧ snapshot.failure = none
  | .online =>
      snapshot.operation = .none ∧ snapshot.activeToken = some snapshot.generation ∧
        snapshot.desiredRunning ∧ snapshot.online ∧ snapshot.failure = none
  | .offline =>
      snapshot.operation = .none ∧ snapshot.activeToken = some snapshot.generation ∧
        snapshot.desiredRunning ∧ !snapshot.online ∧ snapshot.failure = none
  | .stopping =>
      (snapshot.operation = .stop ∨ snapshot.operation = .reconcile) ∧
        snapshot.activeToken = some snapshot.generation ∧
        !snapshot.desiredRunning ∧ !snapshot.online ∧ snapshot.failure = none
  | .failed =>
      snapshot.operation = .none ∧ snapshot.activeToken = none ∧
        !snapshot.desiredRunning ∧ !snapshot.online ∧ snapshot.failure.isSome

/-- `assertAppLifecycleInvariant` returns normally. -/
def lifecycleInvariant (snapshot : AppLifecycleSnapshot) : Bool :=
  let tokenValid : Bool :=
    match snapshot.activeToken with
    | none => true
    | some token => token ≤ maxSafeInteger ∧ 0 < token ∧ token ≤ snapshot.generation
  snapshot.generation ≤ maxSafeInteger ∧ tokenValid ∧ coherent snapshot

structure AppCapabilities where
  canStart : Bool
  canStop : Bool
  canWrite : Bool
  canReceiveChanges : Bool
  canFlush : Bool
  canReconcile : Bool
  busy : Bool
  running : Bool
  deriving DecidableEq, Repr

def closedCapabilities : AppCapabilities :=
  { canStart := false, canStop := false, canWrite := false, canReceiveChanges := false,
    canFlush := false, canReconcile := false, busy := false, running := false }

/-- Validate first; a malformed snapshot closes all authority. -/
def appCapabilities (snapshot : AppLifecycleSnapshot) : AppCapabilities :=
  if !lifecycleInvariant snapshot then closedCapabilities
  else
    let active := [.starting, .online, .offline].contains snapshot.phase
    { canStart := snapshot.phase = .stopped
      canStop := active
      canWrite := [.online, .offline].contains snapshot.phase
      canReceiveChanges := active
      canFlush := snapshot.phase = .online
      canReconcile := snapshot.phase = .failed
      busy := [.starting, .stopping].contains snapshot.phase
      running := [.online, .offline].contains snapshot.phase }

inductive TokenRelation where
  | current
  | stale
  | invalid
  deriving DecidableEq, Repr

def tokenRelation (snapshot : AppLifecycleSnapshot) (token : Nat) : TokenRelation :=
  if token > maxSafeInteger ∨ token = 0 then .invalid
  else if snapshot.activeToken = some token then .current
  else if token ≤ snapshot.generation then .stale
  else .invalid

def beginStop (snapshot : AppLifecycleSnapshot) (operation : LifecycleOperation) :
    AppLifecycleSnapshot × TransitionOutcome :=
  if snapshot.generation ≥ maxSafeInteger then (snapshot, .rejected)
  else
    let token := snapshot.generation + 1
    ({ phase := .stopping, operation := operation, generation := token,
       activeToken := some token, desiredRunning := false, online := false, failure := none },
      .applied)

def failed (snapshot : AppLifecycleSnapshot) (failure : LifecycleFailure) :
    AppLifecycleSnapshot :=
  { phase := .failed, operation := .none, generation := snapshot.generation,
    activeToken := none, desiredRunning := false, online := false, failure := some failure }

/-- A completion runs only under the current token: an older token stutters as
stale, any other is rejected. -/
def withToken (before : AppLifecycleSnapshot) (token : Nat)
    (body : AppLifecycleSnapshot × TransitionOutcome) :
    AppLifecycleSnapshot × TransitionOutcome :=
  match tokenRelation before token with
  | .stale => (before, .stale)
  | .invalid => (before, .rejected)
  | .current => body

/-- The switch of `dispatch`: the next snapshot and the outcome. -/
def reduce (before : AppLifecycleSnapshot) :
    LifecycleEvent → AppLifecycleSnapshot × TransitionOutcome
  | .startRequested =>
      if before.phase ≠ .stopped then (before, .rejected)
      else if before.generation ≥ maxSafeInteger then (before, .rejected)
      else
        let token := before.generation + 1
        ({ phase := .starting, operation := .start, generation := token,
           activeToken := some token, desiredRunning := true, online := false,
           failure := none }, .applied)
  | .startSucceeded token =>
      withToken before token <|
        if before.phase ≠ .starting then (before, .rejected)
        else
          ({ before with
              phase := if before.online then .online else .offline,
              operation := .none }, .applied)
  | .startFailed token =>
      withToken before token <|
        if before.phase ≠ .starting then (before, .rejected)
        else (failed before .start, .applied)
  | .connectivityChanged token online =>
      withToken before token <|
        if !([.starting, .online, .offline].contains before.phase) then (before, .rejected)
        else
          let phase : AppPhase :=
            if before.phase = .starting then .starting
            else if online then .online else .offline
          if before.online = online ∧ before.phase = phase then (before, .stuttered)
          else ({ before with phase := phase, online := online }, .applied)
  | .runtimeFailed token =>
      withToken before token <|
        if !([.starting, .online, .offline].contains before.phase) then (before, .rejected)
        else (failed before .runtime, .applied)
  | .stopRequested =>
      if [.stopped, .stopping].contains before.phase then (before, .stuttered)
      else if !([.starting, .online, .offline].contains before.phase) then (before, .rejected)
      else beginStop before .stop
  | .stopSucceeded token =>
      withToken before token <|
        if before.phase ≠ .stopping then (before, .rejected)
        else (initialSnapshot before.generation, .applied)
  | .stopFailed token =>
      withToken before token <|
        if before.phase ≠ .stopping then (before, .rejected)
        else (failed before .stop, .applied)
  | .reconcileRequested =>
      if before.phase ≠ .failed then (before, .rejected)
      else beginStop before .reconcile

/-- `dispatch`. An applied transition is committed after the invariant is
asserted; `none` is the assertion throwing, with the snapshot kept. -/
def dispatch (before : AppLifecycleSnapshot) (event : LifecycleEvent) :
    AppLifecycleSnapshot × Option TransitionOutcome :=
  let (next, outcome) := reduce before event
  if outcome = .applied then
    if lifecycleInvariant next then (next, some outcome) else (before, none)
  else (before, some outcome)

/-- The session has started and was not ended. -/
def Running (snapshot : AppLifecycleSnapshot) : Prop :=
  snapshot.phase = .online ∨ snapshot.phase = .offline

/-- The session is starting, or running. -/
def Serving (snapshot : AppLifecycleSnapshot) : Prop :=
  snapshot.phase = .starting ∨ Running snapshot

/-- The diagram of the lifecycle: what an event may make of a snapshot. A
session is opened by the start request alone, and runs from the success of the
start to its failure or its stop. -/
inductive Transition (before : AppLifecycleSnapshot) :
    LifecycleEvent → AppLifecycleSnapshot → Prop
  | kept (event : LifecycleEvent) : Transition before event before
  | opened (after : AppLifecycleSnapshot) (hphase : after.phase = .starting) :
      Transition before .startRequested after
  | succeeded (token : Nat) (phase : AppPhase) (hphase : before.phase = .starting) :
      Transition before (.startSucceeded token)
        { before with phase := phase, operation := .none }
  | connected (token : Nat) (phase : AppPhase) (online : Bool) (hserving : Serving before)
      (hphase : phase = .starting ∨ Running before) :
      Transition before (.connectivityChanged token online)
        { before with phase := phase, online := online }
  | closed (event : LifecycleEvent) (after : AppLifecycleSnapshot) (hclosed : ¬ Serving after) :
      Transition before event after

theorem failed_not_serving (snapshot : AppLifecycleSnapshot) (failure : LifecycleFailure) :
    ¬ Serving (failed snapshot failure) := by
  simp [Serving, Running, failed]

theorem beginStop_transition (before : AppLifecycleSnapshot) (event : LifecycleEvent)
    (operation : LifecycleOperation) :
    Transition before event (beginStop before operation).1 := by
  unfold beginStop
  split
  · exact .kept event
  · exact .closed event _ (by simp [Serving, Running])

theorem withToken_transition {before : AppLifecycleSnapshot} {event : LifecycleEvent}
    {body : AppLifecycleSnapshot × TransitionOutcome} (token : Nat)
    (h : Transition before event body.1) :
    Transition before event (withToken before token body).1 := by
  unfold withToken
  split
  · exact .kept event
  · exact .kept event
  · exact h

theorem reduce_transition (before : AppLifecycleSnapshot) (event : LifecycleEvent) :
    Transition before event (reduce before event).1 := by
  cases event with
  | startRequested =>
      unfold reduce
      dsimp only
      split
      · exact .kept _
      · split
        · exact .kept _
        · exact .opened _ rfl
  | startSucceeded token =>
      apply withToken_transition token
      split
      · exact .kept _
      · rename_i hphase
        exact .succeeded token _ (by simpa using hphase)
  | connectivityChanged token online =>
      apply withToken_transition token
      split
      · exact .kept _
      · rename_i hphase
        have hserving : Serving before := by
          cases h : before.phase <;> simp [Serving, Running, h] at hphase ⊢
        have hphase : (if before.phase = .starting then AppPhase.starting
            else if online then .online else .offline) = .starting ∨ Running before :=
          hserving.imp_left fun hstarting => if_pos hstarting
        dsimp only
        generalize (if before.phase = .starting then AppPhase.starting
          else if online then .online else .offline) = phase at hphase ⊢
        split
        · exact .kept _
        · exact .connected token phase online hserving hphase
  | startFailed token | runtimeFailed token =>
      apply withToken_transition token
      split
      · exact .kept _
      · exact .closed _ _ (failed_not_serving _ _)
  | stopSucceeded token =>
      apply withToken_transition token
      split
      · exact .kept _
      · exact .closed _ _ (by simp [Serving, Running, initialSnapshot])
  | stopFailed token =>
      apply withToken_transition token
      split
      · exact .kept _
      · exact .closed _ _ (failed_not_serving _ _)
  | stopRequested =>
      unfold reduce
      dsimp only
      split
      · exact .kept _
      · split
        · exact .kept _
        · exact beginStop_transition _ _ _
  | reconcileRequested =>
      unfold reduce
      dsimp only
      split
      · exact .kept _
      · exact beginStop_transition _ _ _

theorem dispatch_transition (before : AppLifecycleSnapshot) (event : LifecycleEvent) :
    Transition before event (dispatch before event).1 := by
  unfold dispatch
  dsimp only
  split
  · split
    · exact reduce_transition before event
    · exact .kept event
  · exact .kept event

/-- Only the start request opens a session, and none of its events changes its
token. -/
theorem Transition.serving {before after : AppLifecycleSnapshot} {event : LifecycleEvent}
    (h : Transition before event after) (hevent : event ≠ .startRequested)
    (hserving : Serving after) :
    Serving before ∧ after.generation = before.generation ∧
      after.activeToken = before.activeToken := by
  cases h with
  | kept => exact ⟨hserving, rfl, rfl⟩
  | opened => exact absurd rfl hevent
  | succeeded token phase hphase => exact ⟨Or.inl hphase, rfl, rfl⟩
  | connected token phase online hbefore => exact ⟨hbefore, rfl, rfl⟩
  | closed _ _ hclosed => exact absurd hserving hclosed

/-- A session runs only after its start succeeded. -/
theorem Transition.running {before after : AppLifecycleSnapshot} {event : LifecycleEvent}
    (h : Transition before event after) (hevent : ∀ token, event ≠ .startSucceeded token)
    (hrunning : Running after) : Running before := by
  cases h with
  | kept => exact hrunning
  | opened _ hphase => simp [Running, hphase] at hrunning
  | succeeded token => exact absurd rfl (hevent token)
  | connected token phase online hserving hphase =>
      rcases hphase with hstarting | hbefore
      · simp [Running, hstarting] at hrunning
      · exact hbefore
  | closed _ _ hclosed => exact absurd (Or.inr hrunning) hclosed

/-- A failure reported under the session's own token ends it. -/
theorem runtimeFailed_closes {snapshot : AppLifecycleSnapshot} {token : Nat}
    (hgeneration : snapshot.generation ≤ maxSafeInteger) (hpositive : 0 < token)
    (hle : token ≤ maxSafeInteger) (hactive : snapshot.activeToken = some token) :
    ¬ Serving (dispatch snapshot (.runtimeFailed token)).1 := by
  have hcurrent : tokenRelation snapshot token = .current := by
    simp [tokenRelation, hactive, Nat.not_lt.mpr hle, Nat.ne_of_gt hpositive]
  by_cases hserving : Serving snapshot
  · have hreduce : reduce snapshot (.runtimeFailed token) =
        (failed snapshot .runtime, .applied) := by
      rcases hserving with hphase | hphase | hphase <;>
        simp [reduce, withToken, hcurrent, hphase]
    have hinvariant : lifecycleInvariant (failed snapshot .runtime) = true := by
      simp [lifecycleInvariant, failed, coherent, hgeneration]
    simp [dispatch, hreduce, hinvariant, failed_not_serving]
  · intro hafter
    exact hserving
      ((dispatch_transition _ _).serving (by simp) hafter).1

theorem beginStop_closes {before : AppLifecycleSnapshot} {operation : LifecycleOperation}
    (h : (beginStop before operation).2 = .applied) :
    ¬ Serving (beginStop before operation).1 := by
  unfold beginStop at h ⊢
  split
  · rename_i hfull
    simp [hfull] at h
  · simp [Serving, Running]

/-- A stop, or a reconciliation, that was accepted leaves the session closed. -/
theorem stop_closes {before : AppLifecycleSnapshot} {event : LifecycleEvent}
    (hevent : event = .stopRequested ∨ event = .reconcileRequested)
    (h : (dispatch before event).2 = some .applied) :
    ¬ Serving (dispatch before event).1 := by
  have hreduce : (reduce before event).2 = .applied →
      ¬ Serving (reduce before event).1 := by
    rcases hevent with rfl | rfl
    · simp only [reduce]
      split
      · simp
      · split
        · simp
        · exact beginStop_closes
    · simp only [reduce]
      split
      · simp
      · exact beginStop_closes
  unfold dispatch at h ⊢
  dsimp only at h ⊢
  split at h
  · rename_i happlied
    split at h
    · rename_i hinvariant
      rw [if_pos happlied, if_pos hinvariant]
      exact hreduce happlied
    · cases h
  · rename_i happlied
    exact absurd (Option.some.inj h) happlied

theorem canWrite_running {snapshot : AppLifecycleSnapshot}
    (h : (appCapabilities snapshot).canWrite = true) : Running snapshot := by
  unfold appCapabilities at h
  split at h
  · cases h
  · simpa [Running] using h

end Js

end ZedSync
