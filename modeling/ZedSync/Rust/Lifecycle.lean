import ZedSync.Js.Lifecycle
import ZedSync.Lib.Tokens

/-!
The lifecycle reducer of the Rust core (`src/lifecycle.rs`). A token is a `u64`
there; a generation never leaves the range the other ports hold exactly, so
counting it up does not overflow, and every natural number may stand for a
token. `dispatch` also asserts `validate` in debug builds: the results below say
that the assertion always holds.
-/

namespace ZedSync.Rust

open Js (AppCapabilities TokenRelation)

/-- `MAX_SAFE_GENERATION`. -/
def maxSafeGeneration : Nat := 9007199254740991

/-- The default snapshot. -/
def initialSnapshot : AppLifecycleSnapshot :=
  { phase := .stopped, operation := .none, generation := 0, activeToken := none,
    desiredRunning := false, online := false, failure := none }

def coherent (snapshot : AppLifecycleSnapshot) : Bool :=
  match snapshot.phase with
  | .stopped =>
      snapshot.operation = .none && snapshot.activeToken.isNone && !snapshot.desiredRunning &&
        !snapshot.online && snapshot.failure.isNone
  | .starting =>
      snapshot.operation = .start && snapshot.activeToken = some snapshot.generation &&
        snapshot.desiredRunning && snapshot.failure.isNone
  | .online =>
      snapshot.operation = .none && snapshot.activeToken = some snapshot.generation &&
        snapshot.desiredRunning && snapshot.online && snapshot.failure.isNone
  | .offline =>
      snapshot.operation = .none && snapshot.activeToken = some snapshot.generation &&
        snapshot.desiredRunning && !snapshot.online && snapshot.failure.isNone
  | .stopping =>
      (snapshot.operation = .stop || snapshot.operation = .reconcile) &&
        snapshot.activeToken = some snapshot.generation && !snapshot.desiredRunning &&
        !snapshot.online && snapshot.failure.isNone
  | .failed =>
      snapshot.operation = .none && snapshot.activeToken.isNone && !snapshot.desiredRunning &&
        !snapshot.online && snapshot.failure.isSome

def validate (snapshot : AppLifecycleSnapshot) : Except String Unit :=
  if snapshot.generation > maxSafeGeneration then
    .error "generation exceeds the shared exact-integer range"
  else if snapshot.activeToken.any fun token => token = 0 || token > snapshot.generation then
    .error "active token must identify an allocated generation"
  else if coherent snapshot then .ok ()
  else .error "phase, operation, token, intent, connectivity, and failure disagree"

/-- `AppCapabilities::CLOSED`. -/
def closed : AppCapabilities :=
  { canStart := false, canStop := false, canWrite := false, canReceiveChanges := false,
    canFlush := false, canReconcile := false, busy := false, running := false }

def capabilities (snapshot : AppLifecycleSnapshot) : AppCapabilities :=
  match validate snapshot with
  | .error _ => closed
  | .ok () =>
      match snapshot.phase with
      | .stopped => { closed with canStart := true }
      | .starting => { closed with canStop := true, canReceiveChanges := true, busy := true }
      | .online =>
          { closed with canStop := true, canWrite := true, canReceiveChanges := true,
                        canFlush := true, running := true }
      | .offline =>
          { closed with canStop := true, canWrite := true, canReceiveChanges := true,
                        running := true }
      | .stopping => { closed with busy := true }
      | .failed => { closed with canReconcile := true }

def tokenRelation (snapshot : AppLifecycleSnapshot) (token : Nat) : TokenRelation :=
  if token = 0 then .invalid
  else if snapshot.activeToken = some token then .current
  else if token ≤ snapshot.generation then .stale
  else .invalid

/-- What the token of a completion decides before anything else is looked at. -/
def underToken (before : AppLifecycleSnapshot) (token : Nat)
    (current : AppLifecycleSnapshot × TransitionOutcome) :
    AppLifecycleSnapshot × TransitionOutcome :=
  match tokenRelation before token with
  | .stale => (before, .stale)
  | .invalid => (before, .rejected)
  | .current => current

def beginStop (before : AppLifecycleSnapshot) (operation : LifecycleOperation) :
    AppLifecycleSnapshot × TransitionOutcome :=
  if before.generation ≥ maxSafeGeneration then (before, .rejected)
  else
    let token := before.generation + 1
    ({ phase := .stopping, operation := operation, generation := token,
       activeToken := some token, desiredRunning := false, online := false, failure := none },
      .applied)

def fail (before : AppLifecycleSnapshot) (failure : LifecycleFailure) : AppLifecycleSnapshot :=
  { phase := .failed, operation := .none, generation := before.generation,
    activeToken := none, desiredRunning := false, online := false, failure := some failure }

/-- Where a connectivity report leads: a session still starting stays so. -/
def connectivityTarget (before : AppLifecycleSnapshot) (online : Bool) : AppPhase :=
  if before.phase = .starting then .starting else if online then .online else .offline

/-- `dispatch`: the snapshot after an event, and the outcome. -/
def dispatch (before : AppLifecycleSnapshot) :
    LifecycleEvent → AppLifecycleSnapshot × TransitionOutcome
  | .startRequested =>
      if before.phase ≠ .stopped then (before, .rejected)
      else if before.generation < maxSafeGeneration then
        let token := before.generation + 1
        ({ phase := .starting, operation := .start, generation := token,
           activeToken := some token, desiredRunning := true, online := false,
           failure := none }, .applied)
      else (before, .rejected)
  | .startSucceeded token =>
      underToken before token <|
        if before.phase ≠ .starting then (before, .rejected)
        else
          ({ before with
              phase := if before.online then .online else .offline, operation := .none },
            .applied)
  | .startFailed token =>
      underToken before token <|
        if before.phase ≠ .starting then (before, .rejected)
        else (fail before .start, .applied)
  | .connectivityChanged token online =>
      underToken before token <|
        match before.phase with
        | .starting | .online | .offline =>
            let target := connectivityTarget before online
            if before.online = online ∧ before.phase = target then (before, .stuttered)
            else ({ before with online := online, phase := target }, .applied)
        | .stopped | .stopping | .failed => (before, .rejected)
  | .runtimeFailed token =>
      underToken before token <|
        match before.phase with
        | .starting | .online | .offline => (fail before .runtime, .applied)
        | .stopped | .stopping | .failed => (before, .rejected)
  | .stopRequested =>
      match before.phase with
      | .stopped | .stopping => (before, .stuttered)
      | .failed => (before, .rejected)
      | .starting | .online | .offline => beginStop before .stop
  | .stopSucceeded token =>
      underToken before token <|
        if before.phase ≠ .stopping then (before, .rejected)
        else ({ initialSnapshot with generation := before.generation }, .applied)
  | .stopFailed token =>
      underToken before token <|
        if before.phase ≠ .stopping then (before, .rejected)
        else (fail before .stop, .applied)
  | .reconcileRequested =>
      if before.phase = .failed then beginStop before .reconcile
      else (before, .rejected)

/-- The snapshot of a machine after a sequence of events. -/
def step (before : AppLifecycleSnapshot) (event : LifecycleEvent) : AppLifecycleSnapshot :=
  (dispatch before event).1

def machine (events : List LifecycleEvent) : AppLifecycleSnapshot :=
  Run.final step initialSnapshot events

/-- The token an asynchronous completion carries is the first thing looked at. -/
theorem dispatch_stale {before : AppLifecycleSnapshot} {event : LifecycleEvent} {token : Nat}
    (htoken : event.token = some token) (hrelation : tokenRelation before token = .stale) :
    dispatch before event = (before, .stale) := by
  cases event <;> cases htoken <;> simp [dispatch, underToken, hrelation]

theorem dispatch_invalid {before : AppLifecycleSnapshot} {event : LifecycleEvent} {token : Nat}
    (htoken : event.token = some token) (hrelation : tokenRelation before token = .invalid) :
    dispatch before event = (before, .rejected) := by
  cases event <;> cases htoken <;> simp [dispatch, underToken, hrelation]

/-- What an applied event found, and what it left. -/
inductive Applied (before : AppLifecycleSnapshot) :
    LifecycleEvent → AppLifecycleSnapshot → Prop
  | startRequested (hphase : before.phase = .stopped)
      (hroom : before.generation < maxSafeGeneration) :
      Applied before .startRequested
        { phase := .starting, operation := .start, generation := before.generation + 1,
          activeToken := some (before.generation + 1), desiredRunning := true, online := false,
          failure := none }
  | startSucceeded (token : Nat) (hactive : before.activeToken = some token)
      (hphase : before.phase = .starting) :
      Applied before (.startSucceeded token)
        { before with
            phase := if before.online then .online else .offline, operation := .none }
  | startFailed (token : Nat) (hactive : before.activeToken = some token)
      (hphase : before.phase = .starting) :
      Applied before (.startFailed token) (fail before .start)
  | connectivityChanged (token : Nat) (online : Bool) (hactive : before.activeToken = some token)
      (hserving : Js.Serving before) :
      Applied before (.connectivityChanged token online)
        { before with online := online, phase := connectivityTarget before online }
  | runtimeFailed (token : Nat) (hactive : before.activeToken = some token)
      (hserving : Js.Serving before) :
      Applied before (.runtimeFailed token) (fail before .runtime)
  | stopRequested (hserving : Js.Serving before)
      (hroom : before.generation < maxSafeGeneration) :
      Applied before .stopRequested
        { phase := .stopping, operation := .stop, generation := before.generation + 1,
          activeToken := some (before.generation + 1), desiredRunning := false, online := false,
          failure := none }
  | stopSucceeded (token : Nat) (hactive : before.activeToken = some token)
      (hphase : before.phase = .stopping) :
      Applied before (.stopSucceeded token)
        { initialSnapshot with generation := before.generation }
  | stopFailed (token : Nat) (hactive : before.activeToken = some token)
      (hphase : before.phase = .stopping) :
      Applied before (.stopFailed token) (fail before .stop)
  | reconcileRequested (hphase : before.phase = .failed)
      (hroom : before.generation < maxSafeGeneration) :
      Applied before .reconcileRequested
        { phase := .stopping, operation := .reconcile, generation := before.generation + 1,
          activeToken := some (before.generation + 1), desiredRunning := false, online := false,
          failure := none }

/-- An event is applied, or its outcome says otherwise and nothing changed; only
the token of a completion makes it stale. -/
def Answered (before : AppLifecycleSnapshot) (event : LifecycleEvent)
    (answer : AppLifecycleSnapshot × TransitionOutcome) : Prop :=
  answer.2 = .applied ∧ Applied before event answer.1 ∨
    answer.2 ≠ .applied ∧ answer.1 = before ∧
      (answer.2 = .stale →
        ∃ token, event.token = some token ∧ tokenRelation before token = .stale)

theorem answered_unless {before after : AppLifecycleSnapshot} {event : LifecycleEvent}
    {refused : Prop} [Decidable refused] {outcome : TransitionOutcome}
    (houtcome : outcome ≠ .applied) (hstale : outcome ≠ .stale)
    (h : ¬ refused → Applied before event after) :
    Answered before event (if refused then (before, outcome) else (after, .applied)) := by
  split
  · exact Or.inr ⟨houtcome, rfl, fun h => absurd h hstale⟩
  · rename_i hadmitted
    exact Or.inl ⟨rfl, h hadmitted⟩

theorem underToken_answered {before : AppLifecycleSnapshot} {event : LifecycleEvent}
    {token : Nat} {current : AppLifecycleSnapshot × TransitionOutcome}
    (htoken : event.token = some token)
    (h : before.activeToken = some token → Answered before event current) :
    Answered before event (underToken before token current) := by
  unfold underToken
  split
  · rename_i hrelation
    exact Or.inr ⟨nofun, rfl, fun _ => ⟨token, htoken, hrelation⟩⟩
  · exact Or.inr ⟨nofun, rfl, nofun⟩
  · rename_i hrelation
    apply h
    simp only [tokenRelation] at hrelation
    split at hrelation
    · cases hrelation
    · split at hrelation
      · assumption
      · split at hrelation <;> cases hrelation

/-- An event that only a starting or running session takes. -/
theorem answered_serving {before : AppLifecycleSnapshot} {event : LifecycleEvent}
    {current : AppLifecycleSnapshot × TransitionOutcome}
    (h : Js.Serving before → Answered before event current) :
    Answered before event
      (match before.phase with
      | .starting | .online | .offline => current
      | .stopped | .stopping | .failed => (before, .rejected)) := by
  split
  · rename_i hphase
    exact h (Or.inl hphase)
  · rename_i hphase
    exact h (Or.inr (Or.inl hphase))
  · rename_i hphase
    exact h (Or.inr (Or.inr hphase))
  all_goals exact Or.inr ⟨nofun, rfl, nofun⟩

/-- Each event, read once: everything below rests on this. -/
theorem dispatch_answered (before : AppLifecycleSnapshot) (event : LifecycleEvent) :
    Answered before event (dispatch before event) := by
  cases event with
  | startRequested =>
      unfold dispatch
      dsimp only
      split
      · exact Or.inr ⟨nofun, rfl, nofun⟩
      · rename_i hphase
        split
        · rename_i hroom
          exact Or.inl ⟨rfl, .startRequested (not_not.mp hphase) hroom⟩
        · exact Or.inr ⟨nofun, rfl, nofun⟩
  | startSucceeded token =>
      apply underToken_answered rfl
      intro hactive
      exact answered_unless nofun nofun fun hphase =>
        .startSucceeded token hactive (not_not.mp hphase)
  | startFailed token =>
      apply underToken_answered rfl
      intro hactive
      exact answered_unless nofun nofun fun hphase => .startFailed token hactive (not_not.mp hphase)
  | connectivityChanged token online =>
      apply underToken_answered rfl
      intro hactive
      apply answered_serving
      intro hserving
      exact answered_unless nofun nofun fun _ => .connectivityChanged token online hactive hserving
  | runtimeFailed token =>
      apply underToken_answered rfl
      intro hactive
      apply answered_serving
      intro hserving
      exact Or.inl ⟨rfl, .runtimeFailed token hactive hserving⟩
  | stopRequested =>
      have hstopped (hserving : Js.Serving before) :
          Answered before .stopRequested (beginStop before .stop) :=
        answered_unless nofun nofun fun hfull => .stopRequested hserving (Nat.lt_of_not_le hfull)
      unfold dispatch
      dsimp only
      split
      · exact Or.inr ⟨nofun, rfl, nofun⟩
      · exact Or.inr ⟨nofun, rfl, nofun⟩
      · exact Or.inr ⟨nofun, rfl, nofun⟩
      · rename_i hphase
        exact hstopped (Or.inl hphase)
      · rename_i hphase
        exact hstopped (Or.inr (Or.inl hphase))
      · rename_i hphase
        exact hstopped (Or.inr (Or.inr hphase))
  | stopSucceeded token =>
      apply underToken_answered rfl
      intro hactive
      exact answered_unless nofun nofun fun hphase =>
        .stopSucceeded token hactive (not_not.mp hphase)
  | stopFailed token =>
      apply underToken_answered rfl
      intro hactive
      exact answered_unless nofun nofun fun hphase => .stopFailed token hactive (not_not.mp hphase)
  | reconcileRequested =>
      unfold dispatch
      dsimp only
      split
      · rename_i hphase
        exact answered_unless nofun nofun fun hfull =>
          .reconcileRequested hphase (Nat.lt_of_not_le hfull)
      · exact Or.inr ⟨nofun, rfl, nofun⟩

theorem dispatch_unapplied {before : AppLifecycleSnapshot} {event : LifecycleEvent}
    (h : (dispatch before event).2 ≠ .applied) : (dispatch before event).1 = before := by
  rcases dispatch_answered before event with ⟨happlied, -⟩ | ⟨-, hsame, -⟩
  · exact absurd happlied h
  · exact hsame

/-- What `validate` accepts. -/
structure Valid (snapshot : AppLifecycleSnapshot) : Prop where
  bounded : snapshot.generation ≤ maxSafeGeneration
  allocated : ∀ token, snapshot.activeToken = some token →
    0 < token ∧ token ≤ snapshot.generation
  coherent : coherent snapshot = true

theorem validate_iff (snapshot : AppLifecycleSnapshot) :
    validate snapshot = .ok () ↔ Valid snapshot := by
  unfold validate
  split
  · rename_i hover
    simp only [reduceCtorEq, false_iff]
    exact fun hvalid => absurd hvalid.bounded (Nat.not_le_of_lt hover)
  · rename_i hbounded
    split
    · rename_i hunallocated
      simp only [reduceCtorEq, false_iff]
      intro hvalid
      obtain ⟨token, htoken, hbad⟩ := (Option.any_eq_true _ _).mp hunallocated
      have hallocated := hvalid.allocated token htoken
      simp only [Bool.or_eq_true, decide_eq_true_eq] at hbad
      omega
    · rename_i hallocated
      have htokens : ∀ token, snapshot.activeToken = some token →
          0 < token ∧ token ≤ snapshot.generation := by
        intro token htoken
        simp only [htoken, Option.any_some, Bool.or_eq_true, decide_eq_true_eq] at hallocated
        omega
      split
      · rename_i hcoherent
        exact ⟨fun _ => ⟨Nat.le_of_not_lt hbounded, htokens, hcoherent⟩, fun _ => rfl⟩
      · rename_i hcoherent
        simp only [reduceCtorEq, false_iff]
        exact fun hvalid => hcoherent hvalid.coherent

/-- A coherent snapshot has no active token, or the one of its generation. -/
theorem Valid.token {snapshot : AppLifecycleSnapshot} (h : Valid snapshot) :
    snapshot.activeToken = none ∨ snapshot.activeToken = some snapshot.generation := by
  have hcoherent := h.coherent
  cases hphase : snapshot.phase with
  | stopped | failed =>
      left
      have htoken : snapshot.activeToken.isNone = true := by
        simp only [Rust.coherent, hphase, Bool.and_eq_true] at hcoherent
        exact hcoherent.1.1.1.2
      exact Option.isNone_iff_eq_none.mp htoken
  | starting =>
      right
      simp only [Rust.coherent, hphase, Bool.and_eq_true, decide_eq_true_eq] at hcoherent
      exact hcoherent.1.1.2
  | online | offline | stopping =>
      right
      simp only [Rust.coherent, hphase, Bool.and_eq_true, decide_eq_true_eq] at hcoherent
      exact hcoherent.1.1.1.2

/-- The generations a machine allocates, and the one still in force. -/
def ledger (snapshot : AppLifecycleSnapshot) : Tokens.Ledger :=
  { issued := snapshot.generation, active := snapshot.activeToken }

theorem Applied.moves {before after : AppLifecycleSnapshot} {event : LifecycleEvent}
    (h : Applied before event after) : (ledger before).Moves (ledger after) := by
  cases h with
  | startRequested => exact .issued
  | startSucceeded => exact .kept
  | startFailed => exact .revoked
  | connectivityChanged => exact .kept
  | runtimeFailed => exact .revoked
  | stopRequested => exact .issued
  | stopSucceeded => exact .revoked
  | stopFailed => exact .revoked
  | reconcileRequested => exact .issued

theorem step_moves (before : AppLifecycleSnapshot) (event : LifecycleEvent) :
    (ledger before).Moves (ledger (step before event)) := by
  rcases dispatch_answered before event with ⟨-, happlied⟩ | ⟨-, hsame, -⟩
  · exact happlied.moves
  · rw [step, hsame]
    exact .kept

/-- A generation just allocated is the active token of a coherent snapshot. -/
theorem Valid.allocated_next {before after : AppLifecycleSnapshot}
    (hroom : before.generation < maxSafeGeneration)
    (hgeneration : after.generation = before.generation + 1)
    (hactive : after.activeToken = some (before.generation + 1))
    (hcoherent : Rust.coherent after = true) : Valid after := by
  refine ⟨hgeneration ▸ hroom, fun token htoken => ?_, hcoherent⟩
  obtain rfl := Option.some.inj (hactive.symm.trans htoken)
  exact ⟨Nat.succ_pos _, Nat.le_of_eq hgeneration.symm⟩

/-- A snapshot without authority. -/
theorem Valid.revoked {after : AppLifecycleSnapshot}
    (hbounded : after.generation ≤ maxSafeGeneration)
    (hactive : after.activeToken = none) (hcoherent : Rust.coherent after = true) :
    Valid after := by
  refine ⟨hbounded, fun token htoken => ?_, hcoherent⟩
  rw [hactive] at htoken
  cases htoken

theorem fail_valid {before : AppLifecycleSnapshot} (h : Valid before)
    (failure : LifecycleFailure) : Valid (fail before failure) :=
  Valid.revoked h.bounded rfl rfl

theorem Valid.serving {snapshot : AppLifecycleSnapshot} (h : Valid snapshot)
    (hserving : Js.Serving snapshot) :
    snapshot.activeToken = some snapshot.generation ∧ snapshot.desiredRunning = true ∧
      snapshot.failure = none ∧
      snapshot.operation = (if snapshot.phase = .starting then .start else .none) := by
  have hcoherent := h.coherent
  rcases hserving with hphase | hphase | hphase <;>
    simp_all [Rust.coherent]

/-- What an applied event leaves is coherent again. -/
theorem Applied.valid {before after : AppLifecycleSnapshot} {event : LifecycleEvent}
    (h : Applied before event after) (hvalid : Valid before) : Valid after := by
  cases h with
  | startRequested hphase hroom =>
      exact Valid.allocated_next hroom rfl rfl (by simp [Rust.coherent])
  | startSucceeded token hactive hphase =>
      obtain ⟨htoken, hdesired, hfailure, -⟩ := hvalid.serving (Or.inl hphase)
      refine ⟨hvalid.bounded, hvalid.allocated, ?_⟩
      cases before.online <;> simp [Rust.coherent, htoken, hdesired, hfailure]
  | startFailed => exact fail_valid hvalid _
  | connectivityChanged token online hactive hserving =>
      obtain ⟨htoken, hdesired, hfailure, hoperation⟩ := hvalid.serving hserving
      refine ⟨hvalid.bounded, hvalid.allocated, ?_⟩
      rcases hserving with hphase | hphase | hphase <;> cases online <;>
        simp_all [Rust.coherent, connectivityTarget]
  | runtimeFailed => exact fail_valid hvalid _
  | stopRequested hserving hroom =>
      exact Valid.allocated_next hroom rfl rfl (by simp [Rust.coherent])
  | stopSucceeded => exact Valid.revoked hvalid.bounded rfl rfl
  | stopFailed => exact fail_valid hvalid _
  | reconcileRequested hphase hroom =>
      exact Valid.allocated_next hroom rfl rfl (by simp [Rust.coherent])

theorem machine_append (earlier later : List LifecycleEvent) :
    machine (earlier ++ later) = Run.final step (machine earlier) later :=
  Run.final_append _ _ _

theorem initial_valid : Valid initialSnapshot :=
  Valid.revoked (Nat.zero_le _) rfl rfl

theorem step_valid {before : AppLifecycleSnapshot} (h : Valid before) (event : LifecycleEvent) :
    Valid (step before event) := by
  rcases dispatch_answered before event with ⟨-, happlied⟩ | ⟨-, hsame, -⟩
  · exact happlied.valid h
  · rw [step, hsame]
    exact h

theorem run_valid {start : AppLifecycleSnapshot} (h : Valid start) (events : List LifecycleEvent) :
    Valid (Run.final step start events) := by
  induction events generalizing start with
  | nil => exact h
  | cons event events ih => exact ih (step_valid h event)

theorem machine_valid (events : List LifecycleEvent) : Valid (machine events) :=
  run_valid initial_valid events

/-- Every snapshot a new machine reaches, by any events under any tokens, passes
`validate` within the generation bound, with no active token or that of its
generation; the next event never lowers the generation, and changes nothing
unless it is applied. -/
theorem reached_snapshots_are_valid (events : List LifecycleEvent) :
    validate (machine events) = .ok () ∧
      (machine events).generation ≤ maxSafeGeneration ∧
      ((machine events).activeToken = none ∨
        (machine events).activeToken = some (machine events).generation) ∧
      ∀ event, (machine events).generation ≤ (machine (events ++ [event])).generation ∧
        ((dispatch (machine events) event).2 ≠ .applied →
          machine (events ++ [event]) = machine events) := by
  have hvalid := machine_valid events
  refine ⟨(validate_iff _).mpr hvalid, hvalid.bounded, hvalid.token, fun event => ?_⟩
  have hnext : machine (events ++ [event]) = step (machine events) event :=
    machine_append events [event]
  rw [hnext]
  exact ⟨(step_moves _ event).issued_le, dispatch_unapplied⟩

/-- Revoked tokens, and no others, are stale. -/
theorem tokenRelation_revoked {snapshot : AppLifecycleSnapshot} {token : Nat}
    (h : (ledger snapshot).Revoked token) : tokenRelation snapshot token = .stale := by
  obtain ⟨hpositive, hle, hinactive⟩ := h
  simp only [ledger] at hle hinactive
  simp [tokenRelation, Nat.ne_of_gt hpositive, hinactive, hle]

theorem revoked_of_stale {snapshot : AppLifecycleSnapshot} {token : Nat}
    (h : tokenRelation snapshot token = .stale) : (ledger snapshot).Revoked token := by
  simp only [tokenRelation] at h
  split at h
  · cases h
  · rename_i hpositive
    split at h
    · cases h
    · rename_i hinactive
      split at h
      · rename_i hle
        exact ⟨Nat.pos_of_ne_zero hpositive, hle, hinactive⟩
      · cases h

theorem tokenRelation_unallocated {snapshot : AppLifecycleSnapshot} (h : Valid snapshot)
    {token : Nat} (htoken : token = 0 ∨ snapshot.generation < token) :
    tokenRelation snapshot token = .invalid := by
  rcases htoken with rfl | hbeyond
  · rfl
  · have hinactive : snapshot.activeToken ≠ some token := by
      intro hactive
      have hallocated := h.allocated token hactive
      omega
    have hpositive : token ≠ 0 := by omega
    simp [tokenRelation, hpositive, hinactive, Nat.not_le_of_lt hbeyond]

/-- A token that was revoked at some point of a run stays so: every later event
under it is stale and changes nothing. A token never allocated is rejected, and
changes nothing either. -/
theorem revoked_tokens_stay_dead (earlier later : List LifecycleEvent) (event : LifecycleEvent)
    (token : Nat) (htoken : event.token = some token) :
    (0 < token → token ≤ (machine earlier).generation →
      (machine earlier).activeToken ≠ some token →
      dispatch (machine (earlier ++ later)) event = (machine (earlier ++ later), .stale)) ∧
    (token = 0 ∨ (machine earlier).generation < token →
      dispatch (machine earlier) event = (machine earlier, .rejected)) := by
  refine ⟨fun hpositive hle hinactive => ?_, fun hunallocated => ?_⟩
  · have hrevoked : (ledger (machine earlier)).Revoked token := ⟨hpositive, hle, hinactive⟩
    have hlater := Tokens.revoked_run step_moves hrevoked later
    rw [← machine_append] at hlater
    exact dispatch_stale htoken (tokenRelation_revoked hlater)
  · exact dispatch_invalid htoken
      (tokenRelation_unallocated (machine_valid earlier) hunallocated)

/-- The token of a start that a stop overtook, and a token still to be allocated. -/
theorem overtaken_start_stays_dead :
    dispatch (machine ([.startRequested, .stopRequested] ++ [.stopSucceeded 2, .startRequested]))
        (.startSucceeded 1) =
      (machine [.startRequested, .stopRequested, .stopSucceeded 2, .startRequested], .stale) ∧
    dispatch (machine [.startRequested]) (.startSucceeded 2) =
      (machine [.startRequested], .rejected) :=
  ⟨(revoked_tokens_stay_dead [.startRequested, .stopRequested]
      [.stopSucceeded 2, .startRequested] (.startSucceeded 1) 1 rfl).1 (by decide) (by decide)
      (by decide),
    (revoked_tokens_stay_dead [.startRequested] [] (.startSucceeded 2) 2 rfl).2 (by decide)⟩

end ZedSync.Rust
