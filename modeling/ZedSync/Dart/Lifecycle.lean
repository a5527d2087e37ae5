import ZedSync.Js.Lifecycle

/-!
The lifecycle reducer of the Dart package (`dart/zed_sync/lib/src/lifecycle.dart`).
An event first settles on the next snapshot, or on none; only an applied one is
committed, after it is validated.
-/

namespace ZedSync.Dart

open Js (AppCapabilities TokenRelation)

/-- `AppLifecycleSnapshot.validate` returns normally. -/
def validates (snapshot : AppLifecycleSnapshot) : Bool :=
  let tokenValid : Bool :=
    match snapshot.activeToken with
    | none => true
    | some token => 0 < token ∧ token ≤ snapshot.generation
  tokenValid ∧ snapshot.generation ≤ Js.maxSafeInteger ∧ Js.coherent snapshot

/-- `contains` of a constant set, at a phase that may be null. -/
def amongPhases (phases : List AppPhase) (phase : Option AppPhase) : Bool :=
  phase.any phases.contains

/-- `AppCapabilities._fromPhase`. -/
def capabilitiesFromPhase (phase : Option AppPhase) : AppCapabilities :=
  { canStart := phase = some .stopped
    canStop := amongPhases [.starting, .online, .offline] phase
    canWrite := amongPhases [.online, .offline] phase
    canReceiveChanges := amongPhases [.starting, .online, .offline] phase
    canFlush := phase = some .online
    canReconcile := phase = some .failed
    busy := amongPhases [.starting, .stopping] phase
    running := amongPhases [.online, .offline] phase }

/-- `AppCapabilities._validatedPhase`. -/
def validatedPhase (snapshot : AppLifecycleSnapshot) : Option AppPhase :=
  if validates snapshot then some snapshot.phase else none

def capabilities (snapshot : AppLifecycleSnapshot) : AppCapabilities :=
  capabilitiesFromPhase (validatedPhase snapshot)

/-- The default values of the constructor, but for the generation. -/
def stoppedSnapshot (generation : Nat) : AppLifecycleSnapshot :=
  { phase := .stopped, operation := .none, generation := generation, activeToken := none,
    desiredRunning := false, online := false, failure := none }

/-- `_tokenRelation`. -/
def tokenRelation (snapshot : AppLifecycleSnapshot) (token : Nat) : TokenRelation :=
  if token ≤ 0 then .invalid
  else if snapshot.activeToken = some token then .current
  else if token ≤ snapshot.generation then .stale
  else .invalid

/-- `_beginStop`. -/
def beginStop (snapshot : AppLifecycleSnapshot) (operation : LifecycleOperation) :
    Option AppLifecycleSnapshot :=
  if snapshot.generation ≥ Js.maxSafeInteger then none
  else
    let token := snapshot.generation + 1
    some { stoppedSnapshot token with
      phase := .stopping, operation := operation, activeToken := some token }

/-- `_failed`. -/
def failed (snapshot : AppLifecycleSnapshot) (failure : LifecycleFailure) :
    AppLifecycleSnapshot :=
  { stoppedSnapshot snapshot.generation with phase := .failed, failure := some failure }

/-- `_copy`: what is given replaces, the rest is kept. -/
def copy (source : AppLifecycleSnapshot) (phase : Option AppPhase)
    (operation : Option LifecycleOperation) (online : Option Bool) : AppLifecycleSnapshot :=
  { source with
    phase := phase.getD source.phase
    operation := operation.getD source.operation
    online := online.getD source.online }

/-- The switch on the relation of a token in front of a completion. -/
def withToken (before : AppLifecycleSnapshot) (token : Nat)
    (current : Option AppLifecycleSnapshot × TransitionOutcome) :
    Option AppLifecycleSnapshot × TransitionOutcome :=
  match tokenRelation before token with
  | .stale => (none, .stale)
  | .invalid => (none, .rejected)
  | .current => current

/-- A transition to the snapshot, or a rejection when there is none. -/
def appliedOrRejected (next : Option AppLifecycleSnapshot) :
    Option AppLifecycleSnapshot × TransitionOutcome :=
  (next, if next.isNone then .rejected else .applied)

/-- The branches of `dispatch`: the next snapshot, if any, and the outcome. -/
def next (before : AppLifecycleSnapshot) :
    LifecycleEvent → Option AppLifecycleSnapshot × TransitionOutcome
  | .startRequested =>
      if before.phase = .stopped ∧ before.generation < Js.maxSafeInteger then
        let token := before.generation + 1
        (some { stoppedSnapshot token with
          phase := .starting, operation := .start, activeToken := some token,
          desiredRunning := true }, .applied)
      else (none, .rejected)
  | .startSucceeded token =>
      withToken before token <|
        if before.phase = .starting then
          (some (copy before (some (if before.online then .online else .offline)) (some .none)
            none), .applied)
        else (none, .rejected)
  | .startFailed token =>
      withToken before token <|
        if before.phase = .starting then (some (failed before .start), .applied)
        else (none, .rejected)
  | .connectivityChanged token online =>
      withToken before token <|
        if [.starting, .online, .offline].contains before.phase then
          let phase : AppPhase :=
            if before.phase = .starting then .starting
            else if online then .online else .offline
          if before.online = online ∧ before.phase = phase then (none, .stuttered)
          else (some (copy before (some phase) none (some online)), .applied)
        else (none, .rejected)
  | .runtimeFailed token =>
      withToken before token <|
        if [.starting, .online, .offline].contains before.phase then
          (some (failed before .runtime), .applied)
        else (none, .rejected)
  | .stopRequested =>
      if [.stopped, .stopping].contains before.phase then (none, .stuttered)
      else if [.starting, .online, .offline].contains before.phase then
        appliedOrRejected (beginStop before .stop)
      else (none, .rejected)
  | .stopSucceeded token =>
      withToken before token <|
        if before.phase = .stopping then (some (stoppedSnapshot before.generation), .applied)
        else (none, .rejected)
  | .stopFailed token =>
      withToken before token <|
        if before.phase = .stopping then (some (failed before .stop), .applied)
        else (none, .rejected)
  | .reconcileRequested =>
      if before.phase = .failed then appliedOrRejected (beginStop before .reconcile)
      else (none, .rejected)

/-- `dispatch`. An applied transition is validated and committed; no outcome is the
validation throwing, with the snapshot kept. -/
def dispatch (before : AppLifecycleSnapshot) (event : LifecycleEvent) :
    AppLifecycleSnapshot × Option TransitionOutcome :=
  match next before event with
  | (some after, .applied) =>
      if validates after then (after, some .applied) else (before, none)
  | (_, outcome) => (before, some outcome)

end ZedSync.Dart
