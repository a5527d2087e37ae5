import ZedSync.Rust.Lifecycle

/-!
The application lifecycle as `formal/app_lifecycle.qnt` models it, and the Rust
reducer as a refinement of it. The model counts to four generations; here the
bound is a parameter, and the refinement is at the generation bound of the code.
The `saw_*` fields only witness that a behaviour was explored, and are left out:
the actions that update nothing else keep the state.
-/

namespace ZedSync.AppLifecycle

inductive Phase where
  | stopped
  | starting
  | online
  | offline
  | stopping
  | failed
  deriving DecidableEq, Repr

inductive Operation where
  | noOperation
  | startOperation
  | stopOperation
  | reconcileOperation
  deriving DecidableEq, Repr

inductive Failure where
  | noFailure
  | startFailure
  | runtimeFailure
  | stopFailure
  deriving DecidableEq, Repr

structure State where
  phase : Phase
  operation : Operation
  generation : Int
  activeToken : Int
  desiredRunning : Bool
  online : Bool
  failure : Failure
  deriving DecidableEq, Repr

def init : State :=
  { phase := .stopped, operation := .noOperation, generation := 0, activeToken := 0,
    desiredRunning := false, online := false, failure := .noFailure }

/-- The disjuncts of `step`. -/
inductive Action where
  | requestStart
  | connectivityOnline
  | connectivityOffline
  | startSucceeded
  | startFailed
  | requestStop
  | runtimeFailed
  | stopSucceeded
  | stopFailedClosed
  | requestFailureReconciliation
  | staleCompletion
  | invalidCompletion
  | rejectedTransition
  | idle
  deriving DecidableEq, Repr

/-- The session is starting, online or offline. -/
def State.active (s : State) : Bool :=
  s.phase = .starting || s.phase = .online || s.phase = .offline

/-- Without authority, for the given reason. -/
def State.failedBy (s : State) (failure : Failure) : State :=
  { s with
    phase := .failed, operation := .noOperation, activeToken := 0, desiredRunning := false,
    online := false, failure := failure }

/-- Stopping under the next generation. -/
def State.stoppingFor (s : State) (operation : Operation) : State :=
  { s with
    phase := .stopping, operation := operation, generation := s.generation + 1,
    activeToken := s.generation + 1, desiredRunning := false, online := false,
    failure := .noFailure }

/-- An action of the model bounded at `bound` generations: the next state where
it is enabled. -/
def Action.apply (bound : Int) (s : State) : Action → Option State
  | .requestStart =>
      if s.phase = .stopped ∧ s.generation < bound then
        some { s with
          phase := .starting, operation := .startOperation, generation := s.generation + 1,
          activeToken := s.generation + 1, desiredRunning := true, online := false,
          failure := .noFailure }
      else none
  | .connectivityOnline =>
      if s.active then
        some { s with phase := if s.phase = .starting then .starting else .online, online := true }
      else none
  | .connectivityOffline =>
      if s.active then
        some { s with
          phase := if s.phase = .starting then .starting else .offline, online := false }
      else none
  | .startSucceeded =>
      if s.phase = .starting ∧ s.operation = .startOperation ∧ s.activeToken = s.generation then
        some { s with
          phase := if s.online then .online else .offline, operation := .noOperation }
      else none
  | .startFailed => if s.phase = .starting then some (s.failedBy .startFailure) else none
  | .requestStop =>
      if s.active ∧ s.generation < bound then some (s.stoppingFor .stopOperation) else none
  | .runtimeFailed => if s.active then some (s.failedBy .runtimeFailure) else none
  | .stopSucceeded =>
      if s.phase = .stopping then
        some { s with
          phase := .stopped, operation := .noOperation, activeToken := 0,
          desiredRunning := false, online := false, failure := .noFailure }
      else none
  | .stopFailedClosed => if s.phase = .stopping then some (s.failedBy .stopFailure) else none
  | .requestFailureReconciliation =>
      if s.phase = .failed ∧ s.generation < bound then
        some (s.stoppingFor .reconcileOperation)
      else none
  | .staleCompletion =>
      if s.generation ≥ 1 ∧ (s.activeToken = 0 ∨ s.generation ≥ 2) then some s else none
  | .invalidCompletion | .rejectedTransition | .idle => some s

section Safety

variable (bound : Int) (s : State)

def generationIsBounded : Prop :=
  s.generation ≥ 0 ∧ s.generation ≤ bound ∧ s.activeToken ≥ 0 ∧ s.activeToken ≤ s.generation

def stoppedIsQuiescent : Prop :=
  s.phase ≠ .stopped ∨
    (s.operation = .noOperation ∧ s.activeToken = 0 ∧ s.desiredRunning = false ∧
      s.online = false ∧ s.failure = .noFailure)

def startingOwnsStartIntent : Prop :=
  s.phase ≠ .starting ∨
    (s.operation = .startOperation ∧ s.activeToken = s.generation ∧ s.activeToken > 0 ∧
      s.desiredRunning = true ∧ s.failure = .noFailure)

def onlineIsActive : Prop :=
  s.phase ≠ .online ∨
    (s.operation = .noOperation ∧ s.activeToken = s.generation ∧ s.activeToken > 0 ∧
      s.desiredRunning = true ∧ s.online = true ∧ s.failure = .noFailure)

def offlineIsActive : Prop :=
  s.phase ≠ .offline ∨
    (s.operation = .noOperation ∧ s.activeToken = s.generation ∧ s.activeToken > 0 ∧
      s.desiredRunning = true ∧ s.online = false ∧ s.failure = .noFailure)

def stoppingRevokesCapabilities : Prop :=
  s.phase ≠ .stopping ∨
    ((s.operation = .stopOperation ∨ s.operation = .reconcileOperation) ∧
      s.activeToken = s.generation ∧ s.activeToken > 0 ∧ s.desiredRunning = false ∧
      s.online = false ∧ s.failure = .noFailure)

def failedIsClosed : Prop :=
  s.phase ≠ .failed ∨
    (s.operation = .noOperation ∧ s.activeToken = 0 ∧ s.desiredRunning = false ∧
      s.online = false ∧ s.failure ≠ .noFailure)

def derivedCapabilitiesAreAuthorized : Prop :=
  (¬ (s.phase = .starting ∨ s.phase = .online ∨ s.phase = .offline) ∨
    (s.activeToken = s.generation ∧ s.activeToken > 0 ∧ s.desiredRunning = true ∧
      s.failure = .noFailure)) ∧
  (¬ (s.phase = .online ∨ s.phase = .offline) ∨
    (s.operation = .noOperation ∧ s.activeToken = s.generation ∧ s.activeToken > 0 ∧
      s.desiredRunning = true)) ∧
  (s.phase ≠ .online ∨ s.online = true) ∧
  (s.phase ≠ .failed ∨ failedIsClosed s)

/-- `app_lifecycle_safety`. -/
structure Safety : Prop where
  generationIsBounded : generationIsBounded bound s
  stoppedIsQuiescent : stoppedIsQuiescent s
  startingOwnsStartIntent : startingOwnsStartIntent s
  onlineIsActive : onlineIsActive s
  offlineIsActive : offlineIsActive s
  stoppingRevokesCapabilities : stoppingRevokesCapabilities s
  failedIsClosed : failedIsClosed s
  derivedCapabilitiesAreAuthorized : derivedCapabilitiesAreAuthorized s

end Safety

section Mapping

def phaseOf : AppPhase → Phase
  | .stopped => .stopped
  | .starting => .starting
  | .online => .online
  | .offline => .offline
  | .stopping => .stopping
  | .failed => .failed

def operationOf : LifecycleOperation → Operation
  | .none => .noOperation
  | .start => .startOperation
  | .stop => .stopOperation
  | .reconcile => .reconcileOperation

def failureOf : Option LifecycleFailure → Failure
  | none => .noFailure
  | some .start => .startFailure
  | some .runtime => .runtimeFailure
  | some .stop => .stopFailure

/-- The model state of a snapshot; no token is token zero. -/
def stateOf (snapshot : AppLifecycleSnapshot) : State :=
  { phase := phaseOf snapshot.phase
    operation := operationOf snapshot.operation
    generation := snapshot.generation
    activeToken := (snapshot.activeToken.getD 0 : Nat)
    desiredRunning := snapshot.desiredRunning
    online := snapshot.online
    failure := failureOf snapshot.failure }

/-- The action an event is, where it is applied. -/
def actionOf : LifecycleEvent → Action
  | .startRequested => .requestStart
  | .startSucceeded _ => .startSucceeded
  | .startFailed _ => .startFailed
  | .connectivityChanged _ true => .connectivityOnline
  | .connectivityChanged _ false => .connectivityOffline
  | .runtimeFailed _ => .runtimeFailed
  | .stopRequested => .requestStop
  | .stopSucceeded _ => .stopSucceeded
  | .stopFailed _ => .stopFailedClosed
  | .reconcileRequested => .requestFailureReconciliation

end Mapping

open Rust

/-- The bound of the code, for the four generations of the model. -/
def bound : Int := maxSafeGeneration

theorem active_of_serving {snapshot : AppLifecycleSnapshot} (h : Js.Serving snapshot) :
    (stateOf snapshot).active = true := by
  rcases h with hphase | hphase | hphase <;> simp [State.active, stateOf, phaseOf, hphase]

theorem room_of {snapshot : AppLifecycleSnapshot} (h : snapshot.generation < maxSafeGeneration) :
    (stateOf snapshot).generation < bound :=
  Int.ofNat_lt.mpr h

theorem failedBy_fail (snapshot : AppLifecycleSnapshot) (failure : LifecycleFailure) :
    (stateOf snapshot).failedBy (failureOf (some failure)) =
      stateOf (fail snapshot failure) := by
  simp [State.failedBy, stateOf, fail, phaseOf, operationOf]

/-- An applied event is its action of the model, enabled, with the mapped state
after it. -/
theorem applied_refines {before after : AppLifecycleSnapshot} {event : LifecycleEvent}
    (hvalid : Valid before) (h : Applied before event after) :
    (actionOf event).apply bound (stateOf before) = some (stateOf after) := by
  cases h with
  | startRequested hphase hroom =>
      simp [actionOf, Action.apply, stateOf, hphase, phaseOf, operationOf, failureOf, bound, hroom]
  | startSucceeded token hactive hphase =>
      obtain ⟨htoken, -, -, hoperation⟩ := hvalid.serving (Or.inl hphase)
      rw [if_pos hphase] at hoperation
      have henabled : (stateOf before).phase = .starting ∧
          (stateOf before).operation = .startOperation ∧
          (stateOf before).activeToken = (stateOf before).generation := by
        simp [stateOf, phaseOf, operationOf, hphase, hoperation, htoken]
      simp only [actionOf, Action.apply]
      rw [if_pos henabled]
      cases honline : before.online <;> simp [stateOf, phaseOf, operationOf, honline]
  | startFailed token hactive hphase =>
      simp only [actionOf, Action.apply]
      rw [if_pos (by simp [stateOf, phaseOf, hphase])]
      exact congrArg some (failedBy_fail before .start)
  | connectivityChanged token online hactive hserving =>
      have henabled := active_of_serving hserving
      cases online with
      | true =>
          simp only [actionOf, Action.apply]
          rw [if_pos henabled]
          rcases hserving with hphase | hphase | hphase <;>
            simp [stateOf, phaseOf, connectivityTarget, hphase]
      | false =>
          simp only [actionOf, Action.apply]
          rw [if_pos henabled]
          rcases hserving with hphase | hphase | hphase <;>
            simp [stateOf, phaseOf, connectivityTarget, hphase]
  | runtimeFailed token hactive hserving =>
      simp only [actionOf, Action.apply]
      rw [if_pos (active_of_serving hserving)]
      exact congrArg some (failedBy_fail before .runtime)
  | stopRequested hserving hroom =>
      simp only [actionOf, Action.apply]
      rw [if_pos ⟨active_of_serving hserving, room_of hroom⟩]
      rfl
  | stopSucceeded token hactive hphase =>
      simp only [actionOf, Action.apply]
      rw [if_pos (by simp [stateOf, phaseOf, hphase])]
      rfl
  | stopFailed token hactive hphase =>
      simp only [actionOf, Action.apply]
      rw [if_pos (by simp [stateOf, phaseOf, hphase])]
      exact congrArg some (failedBy_fail before .stop)
  | reconcileRequested hphase hroom =>
      simp only [actionOf, Action.apply]
      rw [if_pos ⟨by simp [stateOf, phaseOf, hphase], room_of hroom⟩]
      rfl

/-- A revoked token is one the model's stale completion may carry. -/
theorem stale_refines {before : AppLifecycleSnapshot} (hvalid : Valid before) {token : Nat}
    (h : tokenRelation before token = .stale) :
    Action.staleCompletion.apply bound (stateOf before) = some (stateOf before) := by
  obtain ⟨hpositive, hle, hinactive⟩ := revoked_of_stale h
  simp only [ledger] at hle hinactive
  simp only [Action.apply]
  rw [if_pos]
  simp only [stateOf]
  rcases hvalid.token with hnone | hcurrent
  · rw [hnone]
    exact ⟨by omega, Or.inl rfl⟩
  · -- An older token leaves room for the current one above it.
    have hne : before.generation ≠ token := fun h => hinactive (h ▸ hcurrent)
    exact ⟨by omega, Or.inr (by omega)⟩

/-- The states of the model bounded at `bound` generations. -/
inductive Reachable (bound : Int) : State → Prop
  | init : Reachable bound init
  | step {s s' : State} (action : Action) (hreached : Reachable bound s)
      (hstep : action.apply bound s = some s') : Reachable bound s'

/-- What the invariants ask of a state in its phase. -/
def State.coherent (s : State) : Prop :=
  match s.phase with
  | .stopped =>
      s.operation = .noOperation ∧ s.activeToken = 0 ∧ s.desiredRunning = false ∧
        s.online = false ∧ s.failure = .noFailure
  | .starting =>
      s.operation = .startOperation ∧ s.activeToken = s.generation ∧ s.activeToken > 0 ∧
        s.desiredRunning = true ∧ s.failure = .noFailure
  | .online =>
      s.operation = .noOperation ∧ s.activeToken = s.generation ∧ s.activeToken > 0 ∧
        s.desiredRunning = true ∧ s.online = true ∧ s.failure = .noFailure
  | .offline =>
      s.operation = .noOperation ∧ s.activeToken = s.generation ∧ s.activeToken > 0 ∧
        s.desiredRunning = true ∧ s.online = false ∧ s.failure = .noFailure
  | .stopping =>
      (s.operation = .stopOperation ∨ s.operation = .reconcileOperation) ∧
        s.activeToken = s.generation ∧ s.activeToken > 0 ∧ s.desiredRunning = false ∧
        s.online = false ∧ s.failure = .noFailure
  | .failed =>
      s.operation = .noOperation ∧ s.activeToken = 0 ∧ s.desiredRunning = false ∧
        s.online = false ∧ s.failure ≠ .noFailure

theorem coherent_of_safety {bound : Int} {s : State} (h : Safety bound s) : s.coherent := by
  unfold State.coherent
  split
  · rename_i hphase
    exact h.stoppedIsQuiescent.resolve_left (not_not.mpr hphase)
  · rename_i hphase
    exact h.startingOwnsStartIntent.resolve_left (not_not.mpr hphase)
  · rename_i hphase
    exact h.onlineIsActive.resolve_left (not_not.mpr hphase)
  · rename_i hphase
    exact h.offlineIsActive.resolve_left (not_not.mpr hphase)
  · rename_i hphase
    exact h.stoppingRevokesCapabilities.resolve_left (not_not.mpr hphase)
  · rename_i hphase
    exact h.failedIsClosed.resolve_left (not_not.mpr hphase)

theorem State.coherent.at {s : State} {phase : Phase} (h : s.coherent) (hphase : s.phase = phase) :
    { s with phase := phase }.coherent := by
  rw [← hphase]
  exact h

/-- The invariants say no more than that. -/
theorem safety_of_coherent {bound : Int} {s : State} (hbounded : generationIsBounded bound s)
    (h : s.coherent) : Safety bound s := by
  have hactive (hphase : s.phase = .starting ∨ s.phase = .online ∨ s.phase = .offline) :
      s.activeToken = s.generation ∧ s.activeToken > 0 ∧ s.desiredRunning = true ∧
        s.failure = .noFailure := by
    rcases hphase with hphase | hphase | hphase
    · exact (h.at hphase).2
    · obtain ⟨-, htoken, hissued, hdesired, -, hfailure⟩ := h.at hphase
      exact ⟨htoken, hissued, hdesired, hfailure⟩
    · obtain ⟨-, htoken, hissued, hdesired, -, hfailure⟩ := h.at hphase
      exact ⟨htoken, hissued, hdesired, hfailure⟩
  have hrunning (hphase : s.phase = .online ∨ s.phase = .offline) :
      s.operation = .noOperation := by
    rcases hphase with hphase | hphase
    · exact (h.at hphase).1
    · exact (h.at hphase).1
  refine ⟨hbounded, not_or_of_imp h.at, not_or_of_imp h.at, not_or_of_imp h.at,
    not_or_of_imp h.at, not_or_of_imp h.at, not_or_of_imp h.at, not_or_of_imp hactive,
    not_or_of_imp fun hphase => ?_, not_or_of_imp fun hphase => ?_, not_or_of_imp fun hphase => ?_⟩
  · obtain ⟨htoken, hissued, hdesired, -⟩ := hactive (Or.inr hphase)
    exact ⟨hrunning hphase, htoken, hissued, hdesired⟩
  · exact (h.at hphase).2.2.2.2.1
  · exact not_or_of_imp h.at

theorem init_safe {bound : Int} (hbound : 0 ≤ bound) : Safety bound init :=
  safety_of_coherent ⟨Int.le_refl _, hbound, Int.le_refl _, Int.le_refl _⟩
    ⟨rfl, rfl, rfl, rfl, rfl⟩

theorem coherent_of_active {s : State} (hcoherent : s.coherent) (hactive : s.active = true) :
    s.activeToken = s.generation ∧ s.activeToken > 0 ∧ s.desiredRunning = true ∧
      s.failure = .noFailure ∧
      s.operation = if s.phase = .starting then .startOperation else .noOperation := by
  unfold State.coherent at hcoherent
  cases hphase : s.phase <;> rw [hphase] at hcoherent
  case starting =>
    obtain ⟨hoperation, htoken, hissued, hdesired, hfailure⟩ := hcoherent
    exact ⟨htoken, hissued, hdesired, hfailure, hoperation⟩
  case online | offline =>
    obtain ⟨hoperation, htoken, hissued, hdesired, -, hfailure⟩ := hcoherent
    exact ⟨htoken, hissued, hdesired, hfailure, hoperation⟩
  all_goals simp [State.active, hphase] at hactive

section Moves

variable {bound : Int} {s : State}

/-- The bounds of a fresh generation that is also the operation's. -/
theorem Safety.nextGeneration (h : Safety bound s) (hroom : s.generation < bound) :
    0 ≤ s.generation + 1 ∧ s.generation + 1 ≤ bound ∧
      0 ≤ s.generation + 1 ∧ s.generation + 1 ≤ s.generation + 1 := by
  obtain ⟨hzero, -, -, -⟩ := h.generationIsBounded
  omega

theorem Safety.failedBy (h : Safety bound s) {failure : Failure}
    (hfailure : failure ≠ .noFailure) : Safety bound (s.failedBy failure) := by
  obtain ⟨hzero, hbound, -, -⟩ := h.generationIsBounded
  exact safety_of_coherent ⟨hzero, hbound, Int.le_refl _, hzero⟩ ⟨rfl, rfl, rfl, rfl, hfailure⟩

theorem Safety.stoppingFor (h : Safety bound s) {operation : Operation}
    (hoperation : operation = .stopOperation ∨ operation = .reconcileOperation)
    (hroom : s.generation < bound) : Safety bound (s.stoppingFor operation) := by
  obtain ⟨hzero, -, -, -⟩ := h.generationIsBounded
  exact safety_of_coherent (h.nextGeneration hroom)
    ⟨hoperation, rfl, Int.lt_add_one_of_le hzero, rfl, rfl, rfl⟩

/-- A change of connectivity moves a running application only. -/
theorem Safety.connected (h : Safety bound s) (online : Bool) (hactive : s.active = true) :
    Safety bound
      { s with
          phase := if s.phase = .starting then .starting else if online then .online else .offline
          online := online } := by
  obtain ⟨htoken, hissued, hdesired, hfailure, hoperation⟩ :=
    coherent_of_active (coherent_of_safety h) hactive
  refine safety_of_coherent h.generationIsBounded ?_
  by_cases hphase : s.phase = .starting
  · rw [if_pos hphase] at hoperation ⊢
    exact ⟨hoperation, htoken, hissued, hdesired, hfailure⟩
  · rw [if_neg hphase] at hoperation ⊢
    cases online
    · exact ⟨hoperation, htoken, hissued, hdesired, rfl, hfailure⟩
    · exact ⟨hoperation, htoken, hissued, hdesired, rfl, hfailure⟩

theorem Safety.started (h : Safety bound s) (hphase : s.phase = .starting) :
    Safety bound
      { s with
          phase := if s.online then .online else .offline
          operation := .noOperation } := by
  obtain ⟨htoken, hissued, hdesired, hfailure, -⟩ :=
    coherent_of_active (coherent_of_safety h) (by simp [State.active, hphase])
  refine safety_of_coherent h.generationIsBounded ?_
  cases s.online
  · exact ⟨rfl, htoken, hissued, hdesired, rfl, hfailure⟩
  · exact ⟨rfl, htoken, hissued, hdesired, rfl, hfailure⟩

end Moves

/-- Every action of the model keeps its invariants, at every bound. -/
theorem apply_safe {bound : Int} {s s' : State} (hsafe : Safety bound s) (action : Action)
    (hstep : action.apply bound s = some s') : Safety bound s' := by
  obtain ⟨hzero, hbound, -, -⟩ := hsafe.generationIsBounded
  cases action with
  | requestStart =>
      obtain ⟨⟨-, hroom⟩, rfl⟩ := by simpa [Action.apply] using hstep
      exact safety_of_coherent (hsafe.nextGeneration hroom)
        ⟨rfl, rfl, Int.lt_add_one_of_le hzero, rfl, rfl⟩
  | connectivityOnline =>
      obtain ⟨hactive, rfl⟩ := by simpa [Action.apply] using hstep
      exact hsafe.connected true hactive
  | connectivityOffline =>
      obtain ⟨hactive, rfl⟩ := by simpa [Action.apply] using hstep
      exact hsafe.connected false hactive
  | startSucceeded =>
      obtain ⟨⟨hphase, -, -⟩, rfl⟩ := by simpa [Action.apply] using hstep
      exact hsafe.started hphase
  | startFailed =>
      obtain ⟨-, rfl⟩ := by simpa [Action.apply] using hstep
      exact hsafe.failedBy fun h => by cases h
  | requestStop =>
      obtain ⟨⟨-, hroom⟩, rfl⟩ := by simpa [Action.apply] using hstep
      exact hsafe.stoppingFor (Or.inl rfl) hroom
  | runtimeFailed =>
      obtain ⟨-, rfl⟩ := by simpa [Action.apply] using hstep
      exact hsafe.failedBy fun h => by cases h
  | stopSucceeded =>
      obtain ⟨-, rfl⟩ := by simpa [Action.apply] using hstep
      exact safety_of_coherent ⟨hzero, hbound, Int.le_refl _, hzero⟩ ⟨rfl, rfl, rfl, rfl, rfl⟩
  | stopFailedClosed =>
      obtain ⟨-, rfl⟩ := by simpa [Action.apply] using hstep
      exact hsafe.failedBy fun h => by cases h
  | requestFailureReconciliation =>
      obtain ⟨⟨-, hroom⟩, rfl⟩ := by simpa [Action.apply] using hstep
      exact hsafe.stoppingFor (Or.inr rfl) hroom
  | staleCompletion =>
      obtain ⟨-, rfl⟩ := by simpa [Action.apply] using hstep
      exact hsafe
  | invalidCompletion | rejectedTransition | idle =>
      obtain rfl := Option.some.inj hstep
      exact hsafe

theorem reachable_safe {bound : Int} (hbound : 0 ≤ bound) {s : State} (h : Reachable bound s) :
    Safety bound s := by
  induction h with
  | init => exact init_safe hbound
  | step action _ hstep ih => exact apply_safe ih action hstep

/-- Every snapshot of a machine is, mapped, a state the model reaches. -/
theorem machine_reachable (events : List LifecycleEvent) :
    Reachable bound (stateOf (machine events)) := by
  have hsteps (start : AppLifecycleSnapshot) (hvalid : Valid start)
      (hreached : Reachable bound (stateOf start)) :
      Reachable bound (stateOf (Run.final step start events)) := by
    induction events generalizing start with
    | nil => exact hreached
    | cons event events ih =>
        refine ih (step start event) (step_valid hvalid event) ?_
        rcases dispatch_answered start event with ⟨-, happlied⟩ | ⟨-, hsame, -⟩
        · exact .step (actionOf event) hreached (applied_refines hvalid happlied)
        · rw [step, hsame]
          exact hreached
  exact hsteps initialSnapshot initial_valid .init

/-- At every snapshot of a machine and for every event: an applied dispatch is one
enabled action of the model, with exactly the mapped state after it; a stale one
satisfies the guard of the stale completion; a rejected or stuttering one is a
stuttering step. The state is one the model reaches, and so its safety holds. -/
theorem machine_refines_app_lifecycle (events : List LifecycleEvent) (event : LifecycleEvent) :
    let before := machine events
    let after := dispatch before event
    (after.2 = .applied →
      (actionOf event).apply bound (stateOf before) = some (stateOf after.1)) ∧
    (after.2 = .stale →
      Action.staleCompletion.apply bound (stateOf before) = some (stateOf after.1)) ∧
    (after.2 = .rejected ∨ after.2 = .stuttered → stateOf after.1 = stateOf before) ∧
    Reachable bound (stateOf before) ∧ Safety bound (stateOf before) := by
  intro before after
  have hvalid := machine_valid events
  have hreachable := machine_reachable events
  refine ⟨fun happlied => ?_, fun hstale => ?_, fun hunapplied => ?_, hreachable,
    reachable_safe (Int.natCast_nonneg _) hreachable⟩
  · rcases dispatch_answered before event with ⟨-, h⟩ | ⟨hnot, -⟩
    · exact applied_refines hvalid h
    · exact absurd happlied hnot
  · rcases dispatch_answered before event with ⟨happlied, -⟩ | ⟨-, hsame, hrevoked⟩
    · exact absurd (happlied.symm.trans hstale) nofun
    · obtain ⟨token, -, hrelation⟩ := hrevoked hstale
      simp only [after, hsame]
      exact stale_refines hvalid hrelation
  · have hnot : after.2 ≠ .applied := by
      rcases hunapplied with h | h <;> exact h ▸ nofun
    exact congrArg stateOf (dispatch_unapplied hnot)

end ZedSync.AppLifecycle
