import ZedSync.Dart.Client

/-!
`SyncSession` of the Dart package (`dart/zed_sync/lib/src/session.dart`): the owner of
the lifecycle and of the two effects `activate` and `deactivate`. The methods are
programs of their awaits. That an effect settles is an action of its own, and so is the
code that resumes after it; what runs without an `await` in between is one action.
-/

namespace ZedSync.Dart.Session

open Async

/-- What happened to the effects. A start is told apart by its token. -/
inductive Effect where
  | activated (token : Nat)
  | activateFailed (token : Nat)
  | deactivateBegan
  deriving DecidableEq, Repr

/-- The session. `stopFuture` is the stop operation under way, by its token; `effects` is
a history. -/
structure World where
  lifecycle : AppLifecycleSnapshot := stoppedSnapshot 0
  stopFuture : Option Nat := none
  effects : List Effect := []
  deriving Repr, Inhabited

/-- How the promise of an effect settles: `connectivity` is what `activate` returns, or
none when it throws. -/
structure Input where
  connectivity : Option Bool := some true
  deactivates : Bool := true

/-- What a method throws. -/
inductive SessionError where
  | startRejected (phase : AppPhase)
  | superseded
  | completionRejected
  | invalidSnapshot
  | activateFailed
  | deactivateFailed
  | failureRejected (phase : AppPhase)
  | failureNotApplied
  | stopRejected (phase : AppPhase)
  deriving DecidableEq, Repr

/-- The text of a `StateError` of the session; the others are the effect's own. -/
def SessionError.message : SessionError → Option String
  | .startRejected phase =>
      some ("zed-sync lifecycle: start rejected while " ++ phase.text)
  | .superseded => some "zed-sync lifecycle: startup was superseded"
  | .completionRejected => some "zed-sync lifecycle: startup completion rejected"
  | .failureRejected phase =>
      some ("zed-sync lifecycle: runtime failure rejected while " ++ phase.text)
  | .failureNotApplied => some "zed-sync lifecycle: runtime failure was not applied"
  | .stopRejected phase =>
      some ("zed-sync lifecycle: stop rejected while " ++ phase.text)
  | .invalidSnapshot | .activateFailed | .deactivateFailed => none

/-- How far `stop` got before its first `await`. -/
inductive StopBegin where
  | joined
  | alreadyStopped
  | rejected (phase : AppPhase)
  | stopping (token : Nat)
  deriving DecidableEq, Repr

inductive Action where
  | startBegin
  | activateSettles (token : Nat)
  | startResumes (token : Nat) (connectivity : Option Bool)
  | startFails (token : Nat)
  | deactivateSettles
  | setOnline (online : Bool)
  | failBegin
  | stopBegin
  | stopResumes (token : Nat) (deactivated : Bool)
  | stopCleared (token : Nat)
  deriving DecidableEq, Repr

abbrev Action.Reply : Action → Type
  | .startBegin => Except SessionError Nat
  | .activateSettles _ => Option Bool
  | .startResumes _ _ => Option SessionError
  | .deactivateSettles => Bool
  | .setOnline _ => Option TransitionOutcome
  | .failBegin => Option SessionError
  | .stopBegin => StopBegin
  | _ => Unit

namespace World

/-- The lifecycle takes the event. -/
def dispatch (world : World) (event : LifecycleEvent) : Option TransitionOutcome × World :=
  let (snapshot, outcome) := Dart.dispatch world.lifecycle event
  (outcome, { world with lifecycle := snapshot })

/-- `deactivate` is called. -/
def deactivate (world : World) : World :=
  { world with effects := world.effects ++ [.deactivateBegan] }

/-- `start` up to the call of `activate`. -/
def startBegin (world : World) : Except SessionError Nat × World :=
  let (outcome, starting) := world.dispatch .startRequested
  if outcome ≠ some .applied then (.error (.startRejected starting.lifecycle.phase), starting)
  else (.ok (starting.lifecycle.activeToken.getD 0), starting)

/-- The promise of `activate` settles. -/
def activateSettles (world : World) (token : Nat) (connectivity : Option Bool) : World :=
  { world with
    effects := world.effects ++
      [if connectivity.isSome then .activated token else .activateFailed token] }

/-- The two events of a start whose effects are active, and what it throws. -/
def startCompletes (world : World) (token : Nat) (online : Bool) : Option SessionError × World :=
  let (connected, reported) := world.dispatch (.connectivityChanged token online)
  if connected.isNone then (some .invalidSnapshot, reported)
  else
    let (completion, completed) := reported.dispatch (.startSucceeded token)
    match completion with
    | none => (some .invalidSnapshot, completed)
    | some .stale => (some .superseded, completed)
    | some .applied => (none, completed)
    | some _ => (some .completionRejected, completed)

/-- `start` from the settled `activate` on. Whatever is thrown on the way is caught by
calling `deactivate`. -/
def startResumes (world : World) (token : Nat) (connectivity : Option Bool) :
    Option SessionError × World :=
  match connectivity with
  | none => (some .activateFailed, world.deactivate)
  | some online =>
      match world.startCompletes token online with
      | (none, completed) => (none, completed)
      | (some error, completed) => (some error, completed.deactivate)

/-- `failRuntime` up to its `await`. -/
def failBegin (world : World) : Option SessionError × World :=
  match world.lifecycle.activeToken with
  | none => (some (.failureRejected world.lifecycle.phase), world)
  | some token =>
      let (outcome, failing) := world.dispatch (.runtimeFailed token)
      if outcome ≠ some .applied then (some .failureNotApplied, failing)
      else (none, failing.deactivate)

/-- A failed session is reconciled, any other one stopped. -/
def stopEvent (phase : AppPhase) : LifecycleEvent :=
  if phase = .failed then .reconcileRequested else .stopRequested

/-- `stop` up to the `await` of `_performStop`. -/
def stopBegin (world : World) : StopBegin × World :=
  if world.stopFuture.isSome then (.joined, world)
  else
    let (outcome, stopping) := world.dispatch (stopEvent world.lifecycle.phase)
    if outcome = some .stuttered ∧ stopping.lifecycle.phase = .stopped then
      (.alreadyStopped, stopping)
    else if outcome ≠ some .applied then (.rejected stopping.lifecycle.phase, stopping)
    else
      let token := stopping.lifecycle.activeToken.getD 0
      (.stopping token, { stopping.deactivate with stopFuture := some token })

def setOnline (world : World) (online : Bool) : Option TransitionOutcome × World :=
  match world.lifecycle.activeToken with
  | none => (some .rejected, world)
  | some token => world.dispatch (.connectivityChanged token online)

end World

def perform : (action : Action) → Input → World → action.Reply × World
  | .startBegin, _, world => world.startBegin
  | .activateSettles token, input, world =>
      (input.connectivity, world.activateSettles token input.connectivity)
  | .startResumes token connectivity, _, world => world.startResumes token connectivity
  | .startFails token, _, world => ((), (world.dispatch (.startFailed token)).2)
  | .deactivateSettles, input, world => (input.deactivates, world)
  | .setOnline online, _, world => world.setOnline online
  | .failBegin, _, world => world.failBegin
  | .stopBegin, _, world => world.stopBegin
  | .stopResumes token deactivated, _, world =>
      ((), (world.dispatch (if deactivated then .stopSucceeded token else .stopFailed token)).2)
  | .stopCleared token, _, world =>
      ((), if world.stopFuture = some token then { world with stopFuture := none } else world)

@[reducible] def effects : Interface where
  World := World
  Input := Input
  noInput := {}
  Action := Action
  Reply := Action.Reply
  perform := perform

abbrev Outcome := Except SessionError Unit

def act (action : Action) : Prog effects action.Reply := .call action .ret

/-- The `catch` of `start`, from the call of `deactivate` on. -/
def cleanUp (token : Nat) (error : SessionError) : Prog effects Outcome := do
  let deactivated ← act .deactivateSettles
  act (.startFails token)
  return .error (if deactivated then error else .deactivateFailed)

def resumeStart (token : Nat) (connectivity : Option Bool) : Prog effects Outcome := do
  match ← act (.startResumes token connectivity) with
  | none => return .ok ()
  | some error => cleanUp token error

/-- `start` while `activate` is pending. -/
def awaitActivate (token : Nat) : Prog effects Outcome := do
  resumeStart token (← act (.activateSettles token))

def start : Prog effects Outcome := do
  match ← act .startBegin with
  | .error error => return .error error
  | .ok token => awaitActivate token

def failRuntime : Prog effects Outcome := do
  match ← act .failBegin with
  | some error => return .error error
  | none =>
      if ← act .deactivateSettles then return .ok ()
      else return .error .deactivateFailed

/-- `stop`; a call that joins another one settles with it. -/
def stop : Prog effects Outcome := do
  match ← act .stopBegin with
  | .joined | .alreadyStopped => return .ok ()
  | .rejected phase => return .error (.stopRejected phase)
  | .stopping token =>
      let deactivated ← act .deactivateSettles
      act (.stopResumes token deactivated)
      act (.stopCleared token)
      return if deactivated then .ok () else .error .deactivateFailed

def setOnline (online : Bool) : Prog effects Outcome := do
  let _ ← act (.setOnline online)
  return .ok ()

inductive Call where
  | start
  | stop
  | failRuntime
  | setOnline (online : Bool)
  deriving DecidableEq, Repr

def Call.program : Call → Prog effects Outcome
  | .start => Session.start
  | .stop => Session.stop
  | .failRuntime => Session.failRuntime
  | .setOnline online => Session.setOnline online

/-- A new session, and the calls made on it. -/
def session (calls : List Call) : Pool effects Outcome :=
  { world := {}, threads := calls.map Call.program }

/-- A `deactivate` began after the `activate` under the token had succeeded. -/
def TornDown (token : Nat) (history : List Effect) : Prop :=
  ∃ before after, history = before ++ .activated token :: after ∧ .deactivateBegan ∈ after

/-- While the session runs, the effects of its current generation are up. -/
def KeepsEffects (world : World) : Prop :=
  world.lifecycle.phase = .online ∨ world.lifecycle.phase = .offline →
    ¬ TornDown world.lifecycle.generation world.effects

/-- The action is not a superseded start that goes on after a later one activated its
effects. -/
def SparesCurrent : Action → World → Prop
  | .startResumes token _, world =>
      world.lifecycle.activeToken = some token ∨
        ∀ current ∈ world.lifecycle.activeToken, .activated current ∉ world.effects
  | _, _ => True

instance : ∀ (action : Action) (world : World), Decidable (SparesCurrent action world)
  | .startResumes token _, world =>
      inferInstanceAs (Decidable (world.lifecycle.activeToken = some token ∨
        ∀ current ∈ world.lifecycle.activeToken, .activated current ∉ world.effects))
  | .startBegin, _ | .activateSettles _, _ | .startFails _, _ | .deactivateSettles, _
  | .setOnline _, _ | .failBegin, _ | .stopBegin, _ | .stopResumes _ _, _
  | .stopCleared _, _ => .isTrue trivial

/-- Started, online or offline. -/
def Running (snapshot : AppLifecycleSnapshot) : Prop :=
  snapshot.phase = .starting ∨ snapshot.phase = .online ∨ snapshot.phase = .offline

/-- A transition out of every running phase; the tokens handed out before are not active
any more. -/
def Leaves (before after : AppLifecycleSnapshot) : Prop :=
  ¬ Running after ∧ before.generation ≤ after.generation ∧
    ∀ token ≤ before.generation, after.activeToken ≠ some token

/-- A transition of a running session that stays in its generation. -/
def Stays (before after : AppLifecycleSnapshot) : Prop :=
  after.generation = before.generation ∧ after.activeToken = before.activeToken ∧
    (after.phase = .starting ↔ before.phase = .starting) ∧ (Running after ↔ Running before)

section Reducer

variable {before after : AppLifecycleSnapshot}

/-- A completion is applied under the active token only. -/
theorem withToken_applied {token : Nat} {body : Option AppLifecycleSnapshot × TransitionOutcome}
    (h : (withToken before token body).2 = .applied) :
    before.activeToken = some token ∧ withToken before token body = body := by
  unfold withToken at h ⊢
  cases hrelation : tokenRelation before token with
  | stale | invalid =>
      rw [hrelation] at h
      cases h
  | current =>
      refine ⟨?_, rfl⟩
      unfold tokenRelation at hrelation
      split at hrelation
      · cases hrelation
      · split at hrelation
        · assumption
        · split at hrelation <;> cases hrelation

/-- A guarded completion, when it is applied. -/
theorem guarded_applied {token : Nat} {guard : Prop} [Decidable guard]
    (h : (withToken before token
      (if guard then (some after, .applied) else (none, .rejected))).2 = .applied) :
    before.activeToken = some token ∧ guard ∧
      withToken before token (if guard then (some after, .applied) else (none, .rejected)) =
        (some after, .applied) := by
  obtain ⟨hactive, hbody⟩ := withToken_applied h
  rw [hbody] at h ⊢
  split at h
  · rename_i hguard
    exact ⟨hactive, hguard, if_pos hguard⟩
  · cases h

theorem failed_leaves (failure : LifecycleFailure) : Leaves before (failed before failure) :=
  ⟨by simp [Running, failed], le_rfl, fun _ _ => by simp [failed, stoppedSnapshot]⟩

theorem stopped_leaves : Leaves before (stoppedSnapshot before.generation) :=
  ⟨by simp [Running, stoppedSnapshot], le_rfl, fun _ _ => by simp [stoppedSnapshot]⟩

theorem beginStop_leaves {operation : LifecycleOperation}
    (h : beginStop before operation = some after) : Leaves before after := by
  unfold beginStop at h
  split at h
  · cases h
  · obtain rfl := Option.some.inj h
    refine ⟨by simp [Running], Nat.le_succ _, fun token htoken hactive => ?_⟩
    have heq : before.generation + 1 = token := Option.some.inj hactive
    omega

/-- The events that end a session. -/
def Ends : LifecycleEvent → Prop
  | .startFailed _ | .runtimeFailed _ | .stopRequested | .stopSucceeded _ | .stopFailed _
  | .reconcileRequested => True
  | _ => False

theorem beginStop_applied {operation : LifecycleOperation}
    (h : (appliedOrRejected (beginStop before operation)).2 = .applied) :
    ∃ after, appliedOrRejected (beginStop before operation) = (some after, .applied) ∧
      Leaves before after := by
  cases hbegin : beginStop before operation with
  | none =>
      rw [hbegin] at h
      cases h
  | some after => exact ⟨after, rfl, beginStop_leaves hbegin⟩

theorem next_ends {event : LifecycleEvent} (hends : Ends event)
    (h : (next before event).2 = .applied) :
    ∃ after, next before event = (some after, .applied) ∧ Leaves before after := by
  cases event with
  | startRequested | startSucceeded _ | connectivityChanged _ _ => exact hends.elim
  | startFailed token | runtimeFailed token | stopFailed token =>
      obtain ⟨-, -, hnext⟩ := guarded_applied h
      exact ⟨_, hnext, failed_leaves _⟩
  | stopSucceeded token =>
      obtain ⟨-, -, hnext⟩ := guarded_applied h
      exact ⟨_, hnext, stopped_leaves⟩
  | stopRequested =>
      simp only [next] at h ⊢
      split at h
      · cases h
      · split at h
        · rename_i hstopped hrunning
          rw [if_neg hstopped, if_pos hrunning]
          exact beginStop_applied h
        · cases h
  | reconcileRequested =>
      simp only [next] at h ⊢
      split at h
      · rename_i hfailed
        rw [if_pos hfailed]
        exact beginStop_applied h
      · cases h

/-- A session starts in the stopped phase, under a new token. -/
theorem next_start (h : (next before .startRequested).2 = .applied) :
    ∃ after, next before .startRequested = (some after, .applied) ∧ after.phase = .starting ∧
      after.generation = before.generation + 1 ∧
      after.activeToken = some (before.generation + 1) := by
  simp only [next] at h ⊢
  split at h
  · rename_i hstopped
    exact ⟨_, if_pos hstopped, rfl, rfl, rfl⟩
  · cases h

/-- A start is over once, under its own token. -/
theorem next_succeeded {token : Nat} (h : (next before (.startSucceeded token)).2 = .applied) :
    before.activeToken = some token ∧ before.phase = .starting ∧
      ∃ after, next before (.startSucceeded token) = (some after, .applied) ∧
        (after.phase = .online ∨ after.phase = .offline) ∧
        after.generation = before.generation ∧ after.activeToken = before.activeToken := by
  obtain ⟨hactive, hstarting, hnext⟩ := guarded_applied h
  refine ⟨hactive, hstarting, _, hnext, ?_, rfl, rfl⟩
  cases before.online with
  | false => exact Or.inr rfl
  | true => exact Or.inl rfl

theorem next_connectivity {token : Nat} {online : Bool}
    (h : (next before (.connectivityChanged token online)).2 = .applied) :
    ∃ after, next before (.connectivityChanged token online) = (some after, .applied) ∧
      Stays before after := by
  obtain ⟨hactive, hbody⟩ := withToken_applied h
  have hnext : next before (.connectivityChanged token online) = _ := hbody
  rw [hnext] at h ⊢
  split at h
  · rename_i hcontains
    rw [if_pos hcontains]
    have hrunning : Running before := by simpa [Running] using hcontains
    dsimp only at h ⊢
    generalize hphase : (if before.phase = .starting then AppPhase.starting
      else if online then .online else .offline) = phase at h ⊢
    have hstarting : phase = .starting ↔ before.phase = .starting := by
      rw [← hphase]
      split_ifs with hbefore <;> simp [hbefore]
    have hafter : phase = .starting ∨ phase = .online ∨ phase = .offline := by
      rw [← hphase]
      split_ifs <;> simp
    split at h
    · cases h
    · rename_i hchanged
      exact ⟨_, if_neg hchanged, rfl, rfl, hstarting, fun _ => hrunning, fun _ => hafter⟩
  · cases h

/-- An event that is not applied leaves the snapshot as it was. -/
theorem dispatch_unapplied {event : LifecycleEvent}
    (h : (Dart.dispatch before event).2 ≠ some .applied) :
    (Dart.dispatch before event).1 = before := by
  unfold Dart.dispatch at h ⊢
  split
  · split
    · rename_i hvalid
      simp_all
    · rfl
  · rfl

/-- An applied event commits the snapshot of its branch. -/
theorem dispatch_applied {event : LifecycleEvent}
    (h : (Dart.dispatch before event).2 = some .applied) : (next before event).2 = .applied ∧
      ∀ after, (next before event).1 = some after → (Dart.dispatch before event).1 = after := by
  unfold Dart.dispatch at h ⊢
  split at h
  · rename_i after hnext
    split at h
    · rename_i hvalid
      exact ⟨by rw [hnext], fun other hother => by simp_all⟩
    · cases h
  · rename_i found outcome hother hnext
    obtain rfl : outcome = .applied := Option.some.inj h
    refine ⟨by rw [hnext], fun after hafter => ?_⟩
    rw [hnext] at hafter
    exact (hother after hafter rfl).elim

theorem dispatch_ends (before : AppLifecycleSnapshot) {event : LifecycleEvent}
    (hends : Ends event) :
    ((Dart.dispatch before event).2 ≠ some .applied ∧ (Dart.dispatch before event).1 = before) ∨
      ((Dart.dispatch before event).2 = some .applied ∧
        Leaves before (Dart.dispatch before event).1) := by
  by_cases happlied : (Dart.dispatch before event).2 = some .applied
  · obtain ⟨hnext, hcommits⟩ := dispatch_applied happlied
    obtain ⟨after, hafter, hleaves⟩ := next_ends hends hnext
    exact Or.inr ⟨happlied, hcommits after (by rw [hafter]) ▸ hleaves⟩
  · exact Or.inl ⟨happlied, dispatch_unapplied happlied⟩

theorem stays_refl (snapshot : AppLifecycleSnapshot) : Stays snapshot snapshot :=
  ⟨rfl, rfl, Iff.rfl, Iff.rfl⟩

theorem dispatch_connectivity (before : AppLifecycleSnapshot) (token : Nat) (online : Bool) :
    Stays before (Dart.dispatch before (.connectivityChanged token online)).1 := by
  by_cases happlied :
      (Dart.dispatch before (.connectivityChanged token online)).2 = some .applied
  · obtain ⟨hnext, hcommits⟩ := dispatch_applied happlied
    obtain ⟨after, hafter, hstays⟩ := next_connectivity hnext
    exact hcommits after (by rw [hafter]) ▸ hstays
  · rw [dispatch_unapplied happlied]
    exact stays_refl before

/-- A start request that is applied starts under a new token. -/
theorem dispatch_start (h : (Dart.dispatch before .startRequested).2 = some .applied) :
    (Dart.dispatch before .startRequested).1.phase = .starting ∧
      (Dart.dispatch before .startRequested).1.generation = before.generation + 1 ∧
      (Dart.dispatch before .startRequested).1.activeToken = some (before.generation + 1) := by
  obtain ⟨hnext, hcommits⟩ := dispatch_applied h
  obtain ⟨after, hafter, hstarted⟩ := next_start hnext
  exact hcommits after (by rw [hafter]) ▸ hstarted

/-- A start that succeeds publishes the session of its own token. -/
theorem dispatch_succeeded {token : Nat}
    (h : (Dart.dispatch before (.startSucceeded token)).2 = some .applied) :
    before.activeToken = some token ∧ before.phase = .starting ∧
      ((Dart.dispatch before (.startSucceeded token)).1.phase = .online ∨
        (Dart.dispatch before (.startSucceeded token)).1.phase = .offline) ∧
      (Dart.dispatch before (.startSucceeded token)).1.generation = before.generation ∧
      (Dart.dispatch before (.startSucceeded token)).1.activeToken = before.activeToken := by
  obtain ⟨hnext, hcommits⟩ := dispatch_applied h
  obtain ⟨hactive, hstarting, after, hafter, hpublished⟩ := next_succeeded hnext
  exact ⟨hactive, hstarting, hcommits after (by rw [hafter]) ▸ hpublished⟩

end Reducer

/-- What an action beside a start does: the session stays in its generation, or it leaves
it, and may call `deactivate`. -/
def Moves (before after : World) : Prop :=
  Stays before.lifecycle after.lifecycle ∧ after.effects = before.effects ∨
    Leaves before.lifecycle after.lifecycle ∧
      (after.effects = before.effects ∨ after.effects = before.effects ++ [.deactivateBegan])

theorem moves_refl (world : World) : Moves world world := Or.inl ⟨stays_refl _, rfl⟩

theorem dispatch_moves (world : World) {event : LifecycleEvent} (hends : Ends event) :
    Moves world (world.dispatch event).2 := by
  rcases dispatch_ends world.lifecycle hends with ⟨-, hsame⟩ | ⟨-, hleaves⟩
  · refine Or.inl ⟨?_, rfl⟩
    change Stays world.lifecycle (Dart.dispatch world.lifecycle event).1
    rw [hsame]
    exact stays_refl _
  · exact Or.inr ⟨hleaves, Or.inl rfl⟩

/-- The actions beside those of a start. -/
def Calm : Action → Prop
  | .startBegin | .activateSettles _ | .startResumes _ _ => False
  | _ => True

theorem calm_moves {action : Action} (hcalm : Calm action) (input : Input) (world : World) :
    Moves world (perform action input world).2 := by
  have hdeactivates : ∀ event, Ends event → (world.dispatch event).1 = some .applied →
      ∀ stopFuture, Moves world { (world.dispatch event).2.deactivate with
        stopFuture := stopFuture } := by
    intro event hends happlied stopFuture
    rcases dispatch_ends world.lifecycle hends with ⟨hnot, -⟩ | ⟨-, hleaves⟩
    · exact absurd happlied hnot
    · exact Or.inr ⟨hleaves, Or.inr rfl⟩
  cases action with
  | startBegin | activateSettles _ | startResumes _ _ => exact hcalm.elim
  | startFails token => exact dispatch_moves world trivial
  | deactivateSettles => exact moves_refl world
  | setOnline online =>
      simp only [perform, World.setOnline]
      split
      · exact moves_refl world
      · exact Or.inl ⟨dispatch_connectivity _ _ _, rfl⟩
  | failBegin =>
      simp only [perform, World.failBegin]
      split
      · exact moves_refl world
      · rename_i token htoken
        split
        · exact dispatch_moves world trivial
        · rename_i happlied
          exact hdeactivates (.runtimeFailed token) trivial (not_not.mp happlied) _
  | stopBegin =>
      have hends : Ends (World.stopEvent world.lifecycle.phase) := by
        unfold World.stopEvent
        split <;> trivial
      simp only [perform, World.stopBegin]
      split
      · exact moves_refl world
      · split
        · exact dispatch_moves world hends
        · split
          · exact dispatch_moves world hends
          · rename_i happlied
            exact hdeactivates _ hends (not_not.mp happlied) _
  | stopResumes token deactivated =>
      cases deactivated with
      | false => exact dispatch_moves world trivial
      | true => exact dispatch_moves world trivial
  | stopCleared token =>
      simp only [perform]
      split
      · exact moves_refl world
      · exact moves_refl world

theorem tornDown_append {token : Nat} {history : List Effect} {effect : Effect}
    (h : TornDown token (history ++ [effect])) :
    TornDown token history ∨ effect = .deactivateBegan ∧ .activated token ∈ history := by
  obtain ⟨before, after, hhistory, hbegan⟩ := h
  rcases List.eq_nil_or_concat' after with rfl | ⟨rest, last, rfl⟩
  · cases hbegan
  · have hsplit : history ++ [effect] = (before ++ .activated token :: rest) ++ [last] := by
      simpa using hhistory
    obtain ⟨hinit, hlast⟩ := List.append_inj' hsplit rfl
    obtain rfl := List.singleton_inj.mp hlast
    rcases List.mem_append.mp hbegan with hearlier | hnow
    · exact Or.inl ⟨before, rest, hinit, hearlier⟩
    · exact Or.inr ⟨(List.mem_singleton.mp hnow).symm, hinit ▸ by simp⟩

/-- The token of a start whose `activate` is under way, or has settled without the start
going on. -/
def pendingToken : Prog effects Outcome → Option Nat
  | .call (.activateSettles token) _ | .call (.startResumes token _) _ => some token
  | _ => none

theorem awaitActivate_inj {a b : Nat} (h : awaitActivate a = awaitActivate b) : a = b :=
  Option.some.inj (congrArg pendingToken h)

theorem resumeStart_inj {a b : Nat} {connectivity connectivity' : Option Bool}
    (h : resumeStart a connectivity = resumeStart b connectivity') :
    a = b ∧ connectivity = connectivity' := by
  injection h with haction
  injection haction with htoken hconnectivity
  exact ⟨htoken, hconnectivity⟩

theorem awaitActivate_ne_resumeStart (a b : Nat) (connectivity : Option Bool) :
    awaitActivate a ≠ resumeStart b connectivity := by
  intro h
  injection h with haction
  cases haction

theorem calm_not_pending {program : Prog effects Outcome} (h : program.Only Calm) :
    pendingToken program = none := by
  cases program with
  | ret outcome => rfl
  | call action next =>
      cases action with
      | activateSettles token => exact h.1.elim
      | startResumes token connectivity => exact h.1.elim
      | _ => rfl

/-- The session in any state of a run that spares the current effects. -/
structure Inv (pool : Pool effects Outcome) : Prop where
  programs : ∀ program ∈ pool.threads, program.Only Calm ∨ program = start ∨
    (∃ token, program = awaitActivate token) ∨
    ∃ token connectivity, program = resumeStart token connectivity
  active : Running pool.world.lifecycle →
    pool.world.lifecycle.activeToken = some pool.world.lifecycle.generation
  issued : ∀ token, .activated token ∈ pool.world.effects →
    token ≤ pool.world.lifecycle.generation
  pending : ∀ (i : Nat) (program : Prog effects Outcome) (token : Nat),
    pool.threads[i]? = some program → pendingToken program = some token →
    token ≤ pool.world.lifecycle.generation ∧
      (pool.world.lifecycle.activeToken = some token → pool.world.lifecycle.phase = .starting)
  once : ∀ (i j : Nat) (program other : Prog effects Outcome) (token : Nat),
    pool.threads[i]? = some program → pendingToken program = some token →
    pool.threads[j]? = some other → pendingToken other = some token → i = j
  unsettled : ∀ (i token : Nat), pool.threads[i]? = some (awaitActivate token) →
    .activated token ∉ pool.world.effects
  up : ∀ (i token : Nat) (online : Bool),
    pool.threads[i]? = some (resumeStart token (some online)) →
    pool.world.lifecycle.activeToken = some token → ¬ TornDown token pool.world.effects
  keeps : KeepsEffects pool.world

theorem published_of_stays {before after : AppLifecycleSnapshot} (h : Stays before after) :
    (after.phase = .online ∨ after.phase = .offline) ↔
      (before.phase = .online ∨ before.phase = .offline) := by
  obtain ⟨-, -, hstarting, hrunning⟩ := h
  unfold Running at hrunning
  constructor
  · intro hafter
    rcases hrunning.mp (Or.inr hafter) with hbefore | hbefore
    · rcases hafter with hafter | hafter <;> simp [hstarting.mpr hbefore] at hafter
    · exact hbefore
  · intro hbefore
    rcases hrunning.mpr (Or.inr hbefore) with hafter | hafter
    · rcases hbefore with hbefore | hbefore <;> simp [hstarting.mp hafter] at hbefore
    · exact hafter

section Step

variable {pool : Pool effects Outcome} {i : Nat} {action : Action}
  {next : action.Reply → Prog effects Outcome} {moved : Prog effects Outcome} {after : World}

/-- What the turn of one thread leaves of the pending starts: those of the others, and
perhaps its own. -/
theorem Inv.once_set (h : Inv pool) (hthread : pool.threads[i]? = some (.call action next))
    (hmoved : ∀ token, pendingToken moved = some token →
      pendingToken (.call action next) = some token ∨
        pool.world.lifecycle.generation < token) :
    ∀ (j k : Nat) (program other : Prog effects Outcome) (token : Nat),
      (pool.threads.set i moved)[j]? = some program → pendingToken program = some token →
      (pool.threads.set i moved)[k]? = some other → pendingToken other = some token → j = k := by
  have hapart : ∀ (j : Nat) (program : Prog effects Outcome) (token : Nat), j ≠ i →
      pool.threads[j]? = some program → pendingToken program = some token →
      pendingToken moved ≠ some token := by
    intro j program token hne hprogram hpending hown
    rcases hmoved token hown with hbefore | hnew
    · exact hne (h.once j i program _ token hprogram hpending hthread hbefore)
    · exact absurd (h.pending j program token hprogram hpending).1 (not_le.mpr hnew)
  intro j k program other token hprogram hpending hother hotherPending
  rcases Pool.getElem?_set_some hthread hprogram with ⟨rfl, rfl⟩ | ⟨hj, hbefore⟩
  · rcases Pool.getElem?_set_some hthread hother with ⟨hk, -⟩ | ⟨hk, hotherBefore⟩
    · exact hk.symm
    · exact absurd hpending (hapart k other token hk hotherBefore hotherPending)
  · rcases Pool.getElem?_set_some hthread hother with ⟨-, rfl⟩ | ⟨-, hotherBefore⟩
    · exact absurd hotherPending (hapart j program token hj hbefore hpending)
    · exact h.once j k program other token hbefore hpending hotherBefore hotherPending

theorem Inv.programs_set (h : Inv pool)
    (hmoved : moved.Only Calm ∨ moved = start ∨ (∃ token, moved = awaitActivate token) ∨
      ∃ token connectivity, moved = resumeStart token connectivity) :
    ∀ program ∈ pool.threads.set i moved, program.Only Calm ∨ program = start ∨
      (∃ token, program = awaitActivate token) ∨
      ∃ token connectivity, program = resumeStart token connectivity := by
  intro program hprogram
  rcases List.mem_or_eq_of_mem_set hprogram with hother | rfl
  · exact h.programs program hother
  · exact hmoved

/-- Once a start is no longer pending, the pending starts are those of the others, under
other tokens. -/
theorem Inv.others_pending (h : Inv pool) {program : Prog effects Outcome} {token : Nat}
    (hthread : pool.threads[i]? = some program) (hown : pendingToken program = some token)
    (hquiet : pendingToken moved = none) {j other : Nat} {pending : Prog effects Outcome}
    (hpending : (pool.threads.set i moved)[j]? = some pending)
    (htoken : pendingToken pending = some other) :
    pool.threads[j]? = some pending ∧ other ≠ token := by
  rcases Pool.getElem?_set_some hthread hpending with ⟨-, rfl⟩ | ⟨hne, hsame⟩
  · rw [hquiet] at htoken
    cases htoken
  · refine ⟨hsame, ?_⟩
    rintro rfl
    exact hne (h.once j i pending program other hsame htoken hthread hown)

/-- A turn of a thread that is no start, or no more. -/
theorem Inv.calm (h : Inv pool) (hthread : pool.threads[i]? = some (.call action next))
    (hmoves : Moves pool.world after) (hmoved : moved.Only Calm) :
    Inv { world := after, threads := pool.threads.set i moved } := by
  have hquiet := calm_not_pending hmoved
  have hactivated : ∀ token, .activated token ∈ after.effects ↔
      .activated token ∈ pool.world.effects := by
    intro token
    rcases hmoves with ⟨-, heffects⟩ | ⟨-, heffects | heffects⟩ <;> simp [heffects]
  have hgeneration : pool.world.lifecycle.generation ≤ after.lifecycle.generation := by
    rcases hmoves with ⟨hstays, -⟩ | ⟨hleaves, -⟩
    · exact hstays.1.ge
    · exact hleaves.2.1
  have hother : ∀ (j : Nat) (program : Prog effects Outcome),
      (pool.threads.set i moved)[j]? = some program → pendingToken program ≠ none →
      pool.threads[j]? = some program := by
    intro j program hprogram hpending
    rcases Pool.getElem?_set_some hthread hprogram with ⟨-, rfl⟩ | ⟨-, hsame⟩
    · exact absurd hquiet hpending
    · exact hsame
  refine ⟨h.programs_set (Or.inl hmoved), ?_, ?_, ?_, h.once_set hthread (by simp [hquiet]),
    ?_, ?_, ?_⟩
  · intro hrunning
    rcases hmoves with ⟨hstays, -⟩ | ⟨hleaves, -⟩
    · obtain ⟨hsame, hactive, -, hiff⟩ := hstays
      change after.lifecycle.activeToken = some after.lifecycle.generation
      rw [hsame, hactive]
      exact h.active (hiff.mp hrunning)
    · exact absurd hrunning hleaves.1
  · intro token hmem
    exact (h.issued token ((hactivated token).mp hmem)).trans hgeneration
  · intro j program token hprogram hpending
    obtain ⟨hle, hstarting⟩ :=
      h.pending j program token (hother j program hprogram (by simp [hpending])) hpending
    refine ⟨hle.trans hgeneration, fun hactive => ?_⟩
    rcases hmoves with ⟨hstays, -⟩ | ⟨hleaves, -⟩
    · exact hstays.2.2.1.mpr (hstarting (hstays.2.1 ▸ hactive))
    · exact absurd hactive (hleaves.2.2 token hle)
  · intro j token hprogram hmem
    exact h.unsettled j token (hother j _ hprogram (by simp [awaitActivate, act, pendingToken]))
      ((hactivated token).mp hmem)
  · intro j token online hprogram hactive
    have hbefore := hother j _ hprogram (by simp [resumeStart, act, pendingToken])
    have hle := (h.pending j _ token hbefore rfl).1
    rcases hmoves with ⟨hstays, heffects⟩ | ⟨hleaves, -⟩
    · rw [heffects]
      exact h.up j token online hbefore (hstays.2.1 ▸ hactive)
    · exact absurd hactive (hleaves.2.2 token hle)
  · intro hpublished
    rcases hmoves with ⟨hstays, heffects⟩ | ⟨hleaves, -⟩
    · change ¬ TornDown after.lifecycle.generation after.effects
      rw [heffects, hstays.1]
      exact h.keeps ((published_of_stays hstays).mp hpublished)
    · exact absurd (Or.inr hpublished) hleaves.1

/-- A start that is accepted: its `activate` is called under a new token. -/
theorem Inv.starts (h : Inv pool) (hthread : pool.threads[i]? = some (.call action next))
    (happlied : (pool.world.dispatch .startRequested).1 = some .applied) :
    Inv { world := (pool.world.dispatch .startRequested).2
          threads := pool.threads.set i
            (awaitActivate (pool.world.lifecycle.generation + 1)) } := by
  obtain ⟨hphase, hgeneration, hactive⟩ :
      (Dart.dispatch pool.world.lifecycle .startRequested).1.phase = .starting ∧ _ ∧ _ :=
    dispatch_start happlied
  have hnew : ∀ token, .activated token ∈ pool.world.effects →
      token ≠ pool.world.lifecycle.generation + 1 := by
    rintro token hmem rfl
    exact absurd (h.issued _ hmem) (Nat.not_succ_le_self _)
  have hlifecycle : (pool.world.dispatch .startRequested).2.lifecycle =
      (Dart.dispatch pool.world.lifecycle .startRequested).1 := rfl
  refine ⟨h.programs_set (Or.inr (Or.inr (Or.inl ⟨_, rfl⟩))), ?_, ?_, ?_,
    h.once_set hthread ?_, ?_, ?_, ?_⟩
  · intro _
    dsimp only
    rw [hlifecycle, hactive, hgeneration]
  · intro token hmem
    dsimp only
    rw [hlifecycle, hgeneration]
    exact Nat.le_succ_of_le (h.issued token hmem)
  · intro j program token hprogram hpending
    dsimp only
    rw [hlifecycle, hgeneration]
    refine ⟨?_, fun _ => hphase⟩
    rcases Pool.getElem?_set_some hthread hprogram with ⟨-, rfl⟩ | ⟨-, hsame⟩
    · exact (Option.some.inj hpending).ge
    · exact Nat.le_succ_of_le (h.pending j program token hsame hpending).1
  · intro token hpending
    obtain rfl : pool.world.lifecycle.generation + 1 = token := Option.some.inj hpending
    exact Or.inr (Nat.lt_succ_self _)
  · intro j token hprogram hmem
    rcases Pool.getElem?_set_some hthread hprogram with ⟨-, heq⟩ | ⟨-, hsame⟩
    · exact hnew token hmem (awaitActivate_inj heq)
    · exact h.unsettled j token hsame hmem
  · intro j token online hprogram hactiveNow
    rcases Pool.getElem?_set_some hthread hprogram with ⟨-, heq⟩ | ⟨-, hsame⟩
    · exact absurd heq.symm (awaitActivate_ne_resumeStart _ _ _)
    · have hle := (h.pending j _ token hsame rfl).1
      dsimp only at hactiveNow
      rw [hlifecycle, hactive] at hactiveNow
      have heq := Option.some.inj hactiveNow
      omega
  · rintro (hpublished | hpublished)
    · rw [hlifecycle, hphase] at hpublished
      cases hpublished
    · rw [hlifecycle, hphase] at hpublished
      cases hpublished

/-- An `activate` settles: nothing was torn down after it yet. -/
theorem Inv.activateSettles (h : Inv pool) {token : Nat}
    (hthread : pool.threads[i]? = some (awaitActivate token)) (connectivity : Option Bool) :
    Inv { world := pool.world.activateSettles token connectivity
          threads := pool.threads.set i (resumeStart token connectivity) } := by
  have hown := h.pending i _ token hthread rfl
  have hactivated : ∀ other, .activated other ∈
      (pool.world.activateSettles token connectivity).effects →
      .activated other ∈ pool.world.effects ∨ other = token := by
    intro other hmem
    rcases List.mem_append.mp hmem with hbefore | hnow
    · exact Or.inl hbefore
    · cases connectivity <;> simp_all
  have htorn : ∀ other,
      TornDown other (pool.world.activateSettles token connectivity).effects →
      TornDown other pool.world.effects := by
    intro other htorn
    rcases tornDown_append htorn with hbefore | ⟨hnow, -⟩
    · exact hbefore
    · cases connectivity <;> cases hnow
  refine ⟨h.programs_set (Or.inr (Or.inr (Or.inr ⟨_, _, rfl⟩))), h.active, ?_, ?_,
    h.once_set hthread ?_, ?_, ?_,
    fun hpublished htornDown => h.keeps hpublished (htorn _ htornDown)⟩
  · intro other hmem
    rcases hactivated other hmem with hbefore | rfl
    · exact h.issued other hbefore
    · exact hown.1
  · intro j program other hprogram hpending
    rcases Pool.getElem?_set_some hthread hprogram with ⟨-, rfl⟩ | ⟨-, hsame⟩
    · obtain rfl : token = other := Option.some.inj hpending
      exact hown
    · exact h.pending j program other hsame hpending
  · intro other hpending
    exact Or.inl hpending
  · intro j other hprogram hmem
    rcases Pool.getElem?_set_some hthread hprogram with ⟨-, heq⟩ | ⟨hne, hsame⟩
    · exact awaitActivate_ne_resumeStart _ _ _ heq
    · rcases hactivated other hmem with hbefore | rfl
      · exact h.unsettled j other hsame hbefore
      · exact hne (h.once j i _ _ other hsame rfl hthread rfl)
  · intro j other online hprogram hactive htornDown
    have hbefore := htorn other htornDown
    rcases Pool.getElem?_set_some hthread hprogram with ⟨-, heq⟩ | ⟨-, hsame⟩
    · obtain ⟨rfl, -⟩ := resumeStart_inj heq
      obtain ⟨earlier, later, hhistory, -⟩ := hbefore
      exact h.unsettled i other hthread (by rw [hhistory]; simp)
    · exact h.up j other online hsame hactive hbefore

/-- What a start that goes on does: it publishes the session of its token, or stays where
it is and throws. -/
theorem startCompletes_cases (world : World) (token : Nat) (online : Bool) :
    (world.startCompletes token online).2.effects = world.effects ∧
      ((world.startCompletes token online).1 ≠ none ∧
          Stays world.lifecycle (world.startCompletes token online).2.lifecycle ∨
        (world.startCompletes token online).1 = none ∧
          world.lifecycle.activeToken = some token ∧ world.lifecycle.phase = .starting ∧
          ((world.startCompletes token online).2.lifecycle.phase = .online ∨
            (world.startCompletes token online).2.lifecycle.phase = .offline) ∧
          (world.startCompletes token online).2.lifecycle.generation =
            world.lifecycle.generation ∧
          (world.startCompletes token online).2.lifecycle.activeToken = some token) := by
  have hstays := dispatch_connectivity world.lifecycle token online
  cases hconnected : Dart.dispatch world.lifecycle (.connectivityChanged token online) with
  | mk reported connected =>
  rw [hconnected] at hstays
  cases hcompleted : Dart.dispatch reported (.startSucceeded token) with
  | mk completed completion =>
  simp only [World.startCompletes, World.dispatch, hconnected, hcompleted]
  cases connected with
  | none => exact ⟨rfl, Or.inl ⟨by simp, hstays⟩⟩
  | some outcome =>
      dsimp only [Option.isNone_some]
      by_cases happlied : completion = some .applied
      · subst happlied
        have happlied : (Dart.dispatch reported (.startSucceeded token)).2 = some .applied := by
          rw [hcompleted]
        have hsucceeded := dispatch_succeeded happlied
        rw [hcompleted] at hsucceeded
        obtain ⟨hactive, hstarting, hphase, hgeneration, hafter⟩ := hsucceeded
        exact ⟨rfl, Or.inr ⟨rfl, hstays.2.1 ▸ hactive, hstays.2.2.1.mp hstarting, hphase,
          hgeneration.trans hstays.1, hafter.trans hactive⟩⟩
      · have hsame : completed = reported := by
          have hkept := dispatch_unapplied (by rw [hcompleted]; exact happlied)
          rw [hcompleted] at hkept
          exact hkept
        rw [← hsame] at hstays
        rcases completion with _ | (_ | _ | _ | _)
        · exact ⟨rfl, Or.inl ⟨by simp, hstays⟩⟩
        · exact absurd rfl happlied
        all_goals exact ⟨rfl, Or.inl ⟨by simp, hstays⟩⟩

/-- A start that is still current publishes its session. -/
theorem Inv.publishes (h : Inv pool) {token : Nat} {online : Bool}
    (hthread : pool.threads[i]? = some (resumeStart token (some online)))
    (hdone : (pool.world.startCompletes token online).1 = none) :
    Inv { world := (pool.world.startCompletes token online).2
          threads := pool.threads.set i (.ret (.ok ())) } := by
  obtain ⟨heffects, hcases⟩ := startCompletes_cases pool.world token online
  rcases hcases with ⟨hthrown, -⟩ | ⟨-, hactive, hstarting, hphase, hgeneration, hafter⟩
  · exact absurd hdone hthrown
  · have hup := h.up i token online hthread hactive
    have howner : token = pool.world.lifecycle.generation :=
      Option.some.inj (hactive.symm.trans (h.active (Or.inl hstarting)))
    have hothers : ∀ (j : Nat) (program : Prog effects Outcome) (other : Nat),
        (pool.threads.set i (.ret (.ok ())))[j]? = some program →
        pendingToken program = some other → pool.threads[j]? = some program ∧ other ≠ token :=
      fun j program other hprogram hpending =>
        h.others_pending hthread rfl rfl hprogram hpending
    refine ⟨h.programs_set (Or.inl trivial), ?_, ?_, ?_, h.once_set hthread ?_, ?_, ?_, ?_⟩
    · intro _
      dsimp only
      rw [hafter, hgeneration, howner]
    · intro other hmem
      dsimp only at hmem ⊢
      rw [heffects] at hmem
      rw [hgeneration]
      exact h.issued other hmem
    · intro j program other hprogram hpending
      obtain ⟨hsame, hne⟩ := hothers j program other hprogram hpending
      dsimp only
      rw [hgeneration, hafter]
      refine ⟨(h.pending j program other hsame hpending).1, fun heq => ?_⟩
      exact absurd (Option.some.inj heq).symm hne
    · intro other hpending
      cases hpending
    · intro j other hprogram hmem
      dsimp only at hmem
      rw [heffects] at hmem
      exact h.unsettled j other (hothers j _ other hprogram rfl).1 hmem
    · intro j other online' hprogram hactiveNow
      obtain ⟨-, hne⟩ := hothers j _ other hprogram rfl
      dsimp only at hactiveNow
      rw [hafter] at hactiveNow
      exact absurd (Option.some.inj hactiveNow).symm hne
    · intro _
      dsimp only
      rw [hgeneration, heffects, ← howner]
      exact hup

/-- A start that is not published calls `deactivate`. -/
theorem Inv.cleansUp (h : Inv pool) {token : Nat} {connectivity : Option Bool}
    (hthread : pool.threads[i]? = some (resumeStart token connectivity))
    (hspares : SparesCurrent (.startResumes token connectivity) pool.world)
    (hstays : Stays pool.world.lifecycle after.lifecycle)
    (heffects : after.effects = pool.world.effects ++ [.deactivateBegan])
    (hmoved : moved.Only Calm) :
    Inv { world := after, threads := pool.threads.set i moved } := by
  have hquiet := calm_not_pending hmoved
  obtain ⟨hgeneration, hactive, hstarting, hrunning⟩ := hstays
  -- Only a start that is still current, or one without a current successor, goes on.
  have htorn : ∀ current, pool.world.lifecycle.activeToken = some current → current ≠ token →
      TornDown current after.effects → TornDown current pool.world.effects := by
    intro current hcurrent hne htornDown
    rw [heffects] at htornDown
    rcases tornDown_append htornDown with hbefore | ⟨-, hmem⟩
    · exact hbefore
    · rcases hspares with hown | hfree
      · exact absurd (Option.some.inj (hcurrent.symm.trans hown)) hne
      · exact absurd hmem (hfree current hcurrent)
  have hothers : ∀ (j : Nat) (program : Prog effects Outcome) (other : Nat),
      (pool.threads.set i moved)[j]? = some program → pendingToken program = some other →
      pool.threads[j]? = some program ∧ other ≠ token :=
    fun j program other hprogram hpending =>
      h.others_pending hthread rfl hquiet hprogram hpending
  have hactivated : ∀ other, .activated other ∈ after.effects →
      .activated other ∈ pool.world.effects := by
    intro other hmem
    simpa [heffects] using hmem
  refine ⟨h.programs_set (Or.inl hmoved), ?_, ?_, ?_, h.once_set hthread (by simp [hquiet]),
    ?_, ?_, ?_⟩
  · intro hrunningNow
    dsimp only
    rw [hactive, hgeneration]
    exact h.active (hrunning.mp hrunningNow)
  · intro other hmem
    dsimp only
    rw [hgeneration]
    exact h.issued other (hactivated other hmem)
  · intro j program other hprogram hpending
    obtain ⟨hsame, -⟩ := hothers j program other hprogram hpending
    dsimp only
    rw [hgeneration, hactive, hstarting]
    exact h.pending j program other hsame hpending
  · intro j other hprogram hmem
    exact h.unsettled j other (hothers j _ other hprogram rfl).1 (hactivated other hmem)
  · intro j other online hprogram hactiveNow htornDown
    obtain ⟨hsame, hne⟩ := hothers j _ other hprogram rfl
    have hbefore : pool.world.lifecycle.activeToken = some other := hactive ▸ hactiveNow
    exact h.up j other online hsame hbefore (htorn other hbefore hne htornDown)
  · intro hpublished htornDown
    have hpublishedBefore : pool.world.lifecycle.phase = .online ∨
        pool.world.lifecycle.phase = .offline :=
      (published_of_stays ⟨hgeneration, hactive, hstarting, hrunning⟩).mp hpublished
    have hcurrent := h.active (Or.inr hpublishedBefore)
    dsimp only at htornDown
    rw [hgeneration] at htornDown
    refine h.keeps hpublishedBefore (htorn _ hcurrent ?_ htornDown)
    rintro rfl
    have hphase := (h.pending i _ _ hthread rfl).2 hcurrent
    rcases hpublishedBefore with hbefore | hbefore <;> simp [hphase] at hbefore

theorem cleanUp_calm (token : Nat) (error : SessionError) : (cleanUp token error).Only Calm :=
  ⟨trivial, fun _ => ⟨trivial, fun _ => trivial⟩⟩

/-- A start that goes on, whatever its `activate` settled with. -/
theorem Inv.resumes (h : Inv pool) {token : Nat} {connectivity : Option Bool}
    (hthread : pool.threads[i]? = some (resumeStart token connectivity))
    (hspares : SparesCurrent (.startResumes token connectivity) pool.world) :
    Inv { world := (pool.world.startResumes token connectivity).2
          threads := pool.threads.set i
            (match (pool.world.startResumes token connectivity).1 with
              | none => .ret (.ok ())
              | some error => cleanUp token error) } := by
  cases connectivity with
  | none => exact h.cleansUp hthread hspares (stays_refl _) rfl (cleanUp_calm _ _)
  | some online =>
      obtain ⟨heffects, hcases⟩ := startCompletes_cases pool.world token online
      have hpublishes := h.publishes hthread
      cases hcompletes : pool.world.startCompletes token online with
      | mk thrown completed =>
      rw [hcompletes] at heffects hcases hpublishes
      simp only [World.startResumes, hcompletes]
      cases thrown with
      | none => exact hpublishes rfl
      | some error =>
          rcases hcases with ⟨-, hstays⟩ | ⟨hdone, -⟩
          · exact h.cleansUp hthread hspares hstays (congrArg (· ++ _) heffects)
              (cleanUp_calm _ _)
          · cases hdone

/-- A turn keeps the invariant, unless a superseded start goes on too late. -/
theorem Inv.step (h : Inv pool) {turn : Pool.Turn effects}
    (hspares : pool.Takes (fun action _ world => SparesCurrent action world) turn) :
    Inv (pool.step turn) := by
  rcases Pool.step_cases pool turn with hidle | ⟨action, next, hthread, hstep⟩
  · rw [hidle]
    exact h
  · rw [hstep]
    rcases h.programs _ (List.mem_of_getElem? hthread) with
      honly | hstart | ⟨token, hawaits⟩ | ⟨token, connectivity, hresumes⟩
    · exact h.calm hthread (calm_moves honly.1 turn.2 pool.world) (honly.2 _)
    · cases hstart
      by_cases happlied : (pool.world.dispatch .startRequested).1 = some .applied
      · have htoken : (pool.world.dispatch .startRequested).2.lifecycle.activeToken.getD 0 =
            pool.world.lifecycle.generation + 1 :=
          congrArg (Option.getD · 0) (dispatch_start happlied).2.2
        simp only [perform, World.startBegin, happlied, ne_eq, not_true, if_false, htoken]
        exact h.starts hthread happlied
      · have hsame : Moves pool.world (pool.world.dispatch .startRequested).2 := by
          refine Or.inl ⟨?_, rfl⟩
          change Stays pool.world.lifecycle (Dart.dispatch pool.world.lifecycle .startRequested).1
          rw [dispatch_unapplied happlied]
          exact stays_refl _
        simp only [perform, World.startBegin, ne_eq, happlied, not_false_eq_true, if_true]
        exact h.calm hthread hsame trivial
    · cases hawaits
      exact h.activateSettles hthread turn.2.connectivity
    · cases hresumes
      have hresumed := h.resumes hthread (hspares _ _ hthread)
      cases hreply : pool.world.startResumes token connectivity with
      | mk thrown later =>
      rw [hreply] at hresumed
      simp only [perform, hreply]
      cases thrown <;> exact hresumed

end Step

theorem session_inv (calls : List Call) : Inv (session calls) := by
  have hprograms : ∀ program ∈ (session calls).threads, program.Only Calm ∨ program = start := by
    intro program hprogram
    obtain ⟨call, -, rfl⟩ := List.mem_map.mp hprogram
    cases call with
    | start => exact Or.inr rfl
    | stop =>
        refine Or.inl ⟨trivial, fun begun => ?_⟩
        cases begun with
        | joined | alreadyStopped | rejected _ => trivial
        | stopping token =>
            exact ⟨trivial, fun _ => ⟨trivial, fun _ => ⟨trivial, fun _ => trivial⟩⟩⟩
    | failRuntime =>
        refine Or.inl ⟨trivial, fun thrown => ?_⟩
        cases thrown with
        | some error => trivial
        | none =>
            refine ⟨trivial, fun deactivated => ?_⟩
            cases deactivated <;> trivial
    | setOnline online => exact Or.inl ⟨trivial, fun _ => trivial⟩
  have hnone : ∀ (i : Nat) (program : Prog effects Outcome),
      (session calls).threads[i]? = some program → pendingToken program = none := by
    intro i program hprogram
    rcases hprograms program (List.mem_of_getElem? hprogram) with honly | rfl
    · exact calm_not_pending honly
    · rfl
  refine ⟨fun program hprogram => (hprograms program hprogram).imp_right Or.inl, ?_, ?_, ?_, ?_,
    ?_, ?_, ?_⟩
  · rintro (hphase | hphase | hphase) <;> cases hphase
  · intro token hmem
    cases hmem
  · intro i program token hprogram hpending
    rw [hnone i program hprogram] at hpending
    cases hpending
  · intro i j program other token hprogram hpending
    rw [hnone i program hprogram] at hpending
    cases hpending
  · intro i token hprogram
    cases hnone i _ hprogram
  · intro i token online hprogram
    cases hnone i _ hprogram
  · rintro (hphase | hphase) <;> cases hphase

/-- In every run of a session in which no superseded start goes on after a later one
activated its effects, whatever calls are made and however the effects settle, the effects
of the current generation are up whenever it runs. -/
theorem running_session_keeps_its_effects (calls : List Call)
    (schedule : List (Pool.Turn effects)) :
    (session calls).Meets SparesCurrent schedule →
      KeepsEffects ((session calls).run schedule).world := by
  intro hmeets
  have hfinal : Inv ((session calls).run schedule) :=
    Run.induction (fun _ _ h hspares => h.step hspares) (session_inv calls) hmeets
  exact hfinal.keeps

/-- Consecutive turns of one call. -/
def turns (call count : Nat) : List (Pool.Turn effects) := List.replicate count (call, {})

/-- A start is stopped while its `activate` is pending, and another one begins. -/
def restarted : List (Pool.Turn effects) := turns 0 1 ++ turns 1 4 ++ turns 2 1

theorem late_start_cleans_up_first :
    let final := (session [.start, .stop, .start]).run (restarted ++ turns 0 2 ++ turns 2 2)
    final.world.lifecycle.phase = .online ∧ KeepsEffects final.world :=
  ⟨by decide, running_session_keeps_its_effects _ _ (by decide)⟩

/-- The first `activate` settles once the second start is online: its cleanup calls the
`deactivate` of the running session. -/
theorem late_start_tears_down :
    ¬ KeepsEffects
      ((session [.start, .stop, .start]).run (restarted ++ turns 2 2 ++ turns 0 2)).world := by
  intro hkeeps
  refine hkeeps (Or.inl (by decide)) ⟨[.deactivateBegan], [.activated 1, .deactivateBegan], ?_, ?_⟩
  · decide
  · simp

end ZedSync.Dart.Session
