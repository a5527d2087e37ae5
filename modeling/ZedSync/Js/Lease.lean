import Mathlib.Data.Rat.Floor
import ZedSync.Lib.Run

/-!
`SyncLease` (`sdk/src/lease.mjs`) between the turns of the event loop: its
fields, the timers it armed, and the calls it waits for. A handle is known by
the number of its grant, since the client returns another one each time. What
happened to the grants is kept in `history`, newest first.
-/

namespace ZedSync.Js

/-- Cap on a single blocking acquire attempt. -/
def attemptWaitMs : ℚ := 30000

/-- Floor for the fast retry after a transient renew failure. -/
def retryFloorMs : ℚ := 250

def defaultLeaseTtlMs : ℚ := 30000

/-- The options a `SyncLease` was constructed with. No limit is one that the
failures never reach, such as an infinite one. -/
structure LeaseOptions where
  ttlMs : ℚ
  renewIntervalMs : ℚ
  renewFailureLimit : Option ℚ
  interval_pos : 0 < renewIntervalMs
  interval_lt : renewIntervalMs < ttlMs

/-- The constructor: its defaults, and the range it accepts. -/
def LeaseOptions.construct (ttlMs renewIntervalMs : Option ℚ)
    (renewFailureLimit : Option (Option ℚ)) : Option LeaseOptions :=
  let ttl := ttlMs.getD defaultLeaseTtlMs
  let interval := renewIntervalMs.getD ⌊ttl / 3⌋
  if h : 0 < interval ∧ interval < ttl then
    some { ttlMs := ttl, renewIntervalMs := interval,
           renewFailureLimit := renewFailureLimit.getD (some 3),
           interval_pos := h.1, interval_lt := h.2 }
  else none

/-- The options of a constructor that is given none of them. -/
def LeaseOptions.default : LeaseOptions :=
  { ttlMs := 30000, renewIntervalMs := 10000, renewFailureLimit := some 3,
    interval_pos := by norm_num, interval_lt := by norm_num }

/-- The defaults pass the constructor's own check. -/
theorem LeaseOptions.construct_default :
    LeaseOptions.construct none none none = some LeaseOptions.default := by
  have hinterval : (⌊defaultLeaseTtlMs / 3⌋ : ℚ) = 10000 := by
    norm_num [defaultLeaseTtlMs]
  simp only [construct, Option.getD_none, hinterval]
  rw [dif_pos (by norm_num [defaultLeaseTtlMs])]
  rfl

def LeaseOptions.limitReached (options : LeaseOptions) (failures : Nat) : Bool :=
  options.renewFailureLimit.any (· ≤ (failures : ℚ))

/-- The delay before the retry of a failed renewal. -/
def LeaseOptions.retryMs (options : LeaseOptions) : ℚ :=
  max retryFloorMs ⌊options.renewIntervalMs / 2⌋

/-- A handle of the lock client. -/
structure Grant where
  serial : Nat
  fencingToken : Nat
  deriving DecidableEq, Repr

structure LeaseTimer where
  id : Nat
  due : ℚ
  deriving DecidableEq, Repr

/-- Where a call of `acquire` or `tryAcquire` is suspended. -/
inductive Acquisition where
  | locking (started : ℚ) (deadline : Option ℚ) (attemptStarted : ℚ)
  | pacing (started : ℚ) (deadline : Option ℚ)
  | trying
  deriving DecidableEq, Repr

/-- How a call of `acquire` or `tryAcquire` settled. -/
inductive AcquireResult where
  | held
  | refused
  | timedOut (waitedMs : ℚ)
  | alreadyInProgress
  | clientFailed
  deriving DecidableEq, Repr

/-- What happened to a grant. A loss is `proven` when the error or the expiry
shows it, and is left to the number of failures otherwise. -/
inductive LeaseEntry where
  | granted (serial : Nat)
  | renewStarted (serial : Nat)
  | renewResolved (serial : Nat)
  | renewRejected (serial : Nat)
  | released (serial : Nat)
  | lost (serial : Nat) (proven : Bool)
  deriving DecidableEq, Repr

structure SyncLease where
  handle : Option Grant := none
  timer : Option Nat := none
  failures : Nat := 0
  acquiring : Bool := false
  /-- The timers that neither fired nor were cleared. -/
  armed : List LeaseTimer := []
  acquisitions : List Acquisition := []
  /-- The grants whose renewal, or release, did not settle yet. -/
  renews : List Nat := []
  releases : List Nat := []
  timers : Nat := 0
  grants : Nat := 0
  /-- The `maxWaitTime` of each `lock` call, and the settled acquisitions. -/
  lockCalls : List ℚ := []
  results : List AcquireResult := []
  history : List LeaseEntry := []
  deriving DecidableEq, Repr

/-- A call of the application. `clock` gives the readings of `Date.now()`
during the turn, in their order. -/
inductive LeaseCall where
  | acquire (maxWaitMs : Option ℚ) (clock : Nat → ℚ)
  | tryAcquire
  | release

def LeaseCall.releases : LeaseCall → Bool
  | .release => true
  | .acquire _ _ | .tryAcquire => false

/-- A rejected renewal: whether its message proves another owner, the expiry of
the handle, the reading of `Date.now()` it is compared with, and what
`onRenewError` does meanwhile. -/
structure RenewFailure where
  authorityLost : Bool
  leaseExpiresMs : Option ℚ
  dateNow : ℚ
  calls : List LeaseCall := []
  callbackThrows : Bool := false

namespace SyncLease

def held (lease : SyncLease) : Bool := lease.handle.isSome

def fencingToken (lease : SyncLease) : Option Nat := lease.handle.map (·.fencingToken)

/-- `this._handle === handle`. -/
def owns (lease : SyncLease) (serial : Nat) : Bool :=
  lease.handle.any (·.serial = serial)

def stopHeartbeat (lease : SyncLease) : SyncLease :=
  match lease.timer with
  | none => lease
  | some id => { lease with armed := lease.armed.filter (·.id ≠ id), timer := none }

def schedule (lease : SyncLease) (now ms : ℚ) : SyncLease :=
  let lease := lease.stopHeartbeat
  { lease with
    timer := some lease.timers
    armed := { id := lease.timers, due := now + ms } :: lease.armed
    timers := lease.timers + 1 }

/-- `_adopt` of the handle of the next grant. -/
def adopt (options : LeaseOptions) (lease : SyncLease) (now : ℚ) (fencingToken : Nat) :
    SyncLease :=
  { lease with
    handle := some { serial := lease.grants, fencingToken := fencingToken }
    failures := 0
    grants := lease.grants + 1
    history := .granted lease.grants :: lease.history }.schedule now options.renewIntervalMs

/-- The `finally` of an acquisition, and how its promise settles. -/
def settleAcquire (lease : SyncLease) (index : Nat) (result : AcquireResult) : SyncLease :=
  { lease with
    acquiring := false
    acquisitions := lease.acquisitions.eraseIdx index
    results := result :: lease.results }

/-- The head of the loop of `acquire`: the budget is spent, or the next `lock`
call is made. -/
def attempt (lease : SyncLease) (index : Nat) (started : ℚ) (deadline : Option ℚ)
    (clock : Nat → ℚ) : SyncLease :=
  let budget := deadline.elim attemptWaitMs (· - clock 0)
  if budget ≤ 0 then lease.settleAcquire index (.timedOut (clock 1 - started))
  else
    { lease with
      acquisitions := lease.acquisitions.set index (.locking started deadline (clock 1))
      lockCalls := min budget attemptWaitMs :: lease.lockCalls }

def acquire (lease : SyncLease) (maxWaitMs : Option ℚ) (clock : Nat → ℚ) : SyncLease :=
  if lease.held then { lease with results := .held :: lease.results }
  else if lease.acquiring then { lease with results := .alreadyInProgress :: lease.results }
  else
    let started := clock 0
    let deadline := maxWaitMs.map (started + ·)
    let lease :=
      { lease with
        acquiring := true, acquisitions := .pacing started deadline :: lease.acquisitions }
    lease.attempt 0 started deadline fun reading => clock (reading + 1)

/-- `acquire` after a per-attempt timeout: still queued, paced when the client
gave up suspiciously fast. -/
def attemptTimedOut (lease : SyncLease) (index : Nat) (started : ℚ) (deadline : Option ℚ)
    (attemptStarted : ℚ) (aborted : Bool) (clock : Nat → ℚ) : SyncLease :=
  if aborted then lease.settleAcquire index .clientFailed
  else
    let elapsed := clock 0 - attemptStarted
    let pause := deadline.elim (retryFloorMs - elapsed) fun deadline =>
      min (retryFloorMs - elapsed) (max 0 (deadline - clock 1))
    if elapsed < retryFloorMs ∧ 0 < pause then
      { lease with acquisitions := lease.acquisitions.set index (.pacing started deadline) }
    else lease.attempt index started deadline fun reading => clock (reading + 2)

def tryAcquire (lease : SyncLease) : SyncLease :=
  if lease.held then { lease with results := .held :: lease.results }
  else if lease.acquiring then { lease with results := .alreadyInProgress :: lease.results }
  else { lease with acquiring := true, acquisitions := .trying :: lease.acquisitions }

/-- `release` up to the release of the handle it awaits. -/
def release (lease : SyncLease) : SyncLease :=
  match lease.handle with
  | none => lease.stopHeartbeat
  | some handle =>
      { lease with
        handle := none
        releases := handle.serial :: lease.releases
        history := .released handle.serial :: lease.history }.stopHeartbeat

def call (lease : SyncLease) : LeaseCall → SyncLease
  | .acquire maxWaitMs clock => lease.acquire maxWaitMs clock
  | .tryAcquire => lease.tryAcquire
  | .release => lease.release

/-- `_beat` up to the renewal it awaits. -/
def beat (lease : SyncLease) : SyncLease :=
  match lease.handle with
  | none => lease
  | some handle =>
      { lease with
        renews := handle.serial :: lease.renews
        history := .renewStarted handle.serial :: lease.history }

/-- `_markLost`; what `onLost` does comes after it. -/
def markLost (lease : SyncLease) (proven : Bool) : SyncLease :=
  match lease.handle with
  | none => lease
  | some handle =>
      { lease with
        handle := none
        history := .lost handle.serial proven :: lease.history }.stopHeartbeat

/-- `_beat` after the renewal: re-arm only if this beat still owns the live
grant. -/
def renewResolved (options : LeaseOptions) (lease : SyncLease) (now : ℚ) (serial : Nat) :
    SyncLease :=
  if lease.owns serial then
    { lease with failures := 0 }.schedule now options.renewIntervalMs
  else lease

/-- `_beat` after a failed renewal. An error thrown by `onRenewError` leaves it
there. -/
def renewRejected (options : LeaseOptions) (lease : SyncLease) (now : ℚ) (serial : Nat)
    (failure : RenewFailure) : SyncLease :=
  if lease.owns serial then
    let lease := failure.calls.foldl call { lease with failures := lease.failures + 1 }
    if failure.callbackThrows then lease
    else
      let expired := lease.held && failure.leaseExpiresMs.any (· ≤ failure.dateNow)
      let proven := failure.authorityLost || expired
      if proven || options.limitReached lease.failures then lease.markLost proven
      else lease.schedule now options.retryMs
  else lease

/-- What the event loop runs next. -/
inductive Event where
  | call (made : LeaseCall)
  | lockResolves (index : Nat) (now : ℚ) (fencingToken : Nat)
  | lockTimesOut (index : Nat) (aborted : Bool) (clock : Nat → ℚ)
  | lockFails (index : Nat)
  | pauseEnds (index : Nat) (clock : Nat → ℚ)
  | tryLockResolves (index : Nat) (now : ℚ) (fencingToken : Option Nat)
  | tryLockFails (index : Nat)
  | timerFires (id : Nat)
  | renewResolves (serial : Nat) (now : ℚ)
  | renewRejects (serial : Nat) (now : ℚ) (failure : RenewFailure)
  | releaseSettles (serial : Nat)

/-- One turn; an event that nothing waits for does nothing. -/
def step (options : LeaseOptions) (lease : SyncLease) : Event → SyncLease
  | .call made => lease.call made
  | .lockResolves index now fencingToken =>
      match lease.acquisitions[index]? with
      | some (.locking _ _ _) =>
          (lease.adopt options now fencingToken).settleAcquire index .held
      | _ => lease
  | .lockTimesOut index aborted clock =>
      match lease.acquisitions[index]? with
      | some (.locking started deadline attemptStarted) =>
          lease.attemptTimedOut index started deadline attemptStarted aborted clock
      | _ => lease
  | .lockFails index =>
      match lease.acquisitions[index]? with
      | some (.locking _ _ _) => lease.settleAcquire index .clientFailed
      | _ => lease
  | .pauseEnds index clock =>
      match lease.acquisitions[index]? with
      | some (.pacing started deadline) => lease.attempt index started deadline clock
      | _ => lease
  | .tryLockResolves index now fencingToken =>
      match lease.acquisitions[index]?, fencingToken with
      | some .trying, some fencingToken =>
          (lease.adopt options now fencingToken).settleAcquire index .held
      | some .trying, none => lease.settleAcquire index .refused
      | _, _ => lease
  | .tryLockFails index =>
      match lease.acquisitions[index]? with
      | some .trying => lease.settleAcquire index .clientFailed
      | _ => lease
  | .timerFires id =>
      if lease.armed.any (·.id = id) then
        { lease with armed := lease.armed.filter (·.id ≠ id) }.beat
      else lease
  | .renewResolves serial now =>
      if serial ∈ lease.renews then
        { lease with
          renews := lease.renews.erase serial
          history := .renewResolved serial :: lease.history }.renewResolved options now serial
      else lease
  | .renewRejects serial now failure =>
      if serial ∈ lease.renews then
        { lease with
          renews := lease.renews.erase serial
          history := .renewRejected serial :: lease.history }.renewRejected options now serial
            failure
      else lease
  | .releaseSettles serial => { lease with releases := lease.releases.erase serial }

/-- No other timer than the one `_timer` names is armed. -/
def Tracks (timer : Option Nat) (armed : List LeaseTimer) : Prop :=
  armed = [] ∨ ∃ due : LeaseTimer, armed = [due] ∧ timer = some due.id

/-- The heartbeat is the one `_timer` names, and one acquisition at most is in
progress, with no grant beside it. -/
structure Tracked (lease : SyncLease) : Prop where
  timer : Tracks lease.timer lease.armed
  acquisition : (lease.acquiring = false ∧ lease.acquisitions = []) ∨
    (lease.acquiring = true ∧ lease.handle = none ∧
      ∃ acquisition, lease.acquisitions = [acquisition])

theorem Tracks.length {timer : Option Nat} {armed : List LeaseTimer} (h : Tracks timer armed) :
    armed.length ≤ 1 := by
  rcases h with rfl | ⟨due, rfl, -⟩
  · simp
  · simp

theorem Tracks.fired {timer : Option Nat} {armed : List LeaseTimer} (h : Tracks timer armed)
    (id : Nat) : Tracks timer (armed.filter (·.id ≠ id)) := by
  rcases h with rfl | ⟨due, rfl, htimer⟩
  · exact Or.inl rfl
  · by_cases hid : due.id = id
    · exact Or.inl (by simp [hid])
    · exact Or.inr ⟨due, by simp [hid], htimer⟩

theorem stopHeartbeat_eq {lease : SyncLease} (h : Tracks lease.timer lease.armed) :
    lease.stopHeartbeat = { lease with timer := none, armed := [] } := by
  obtain harmed | ⟨due, harmed, htimer⟩ := h
  · unfold stopHeartbeat
    split
    · rename_i htimer
      rw [← harmed, ← htimer]
    · simp [harmed]
  · simp [stopHeartbeat, htimer, harmed]

theorem schedule_eq {lease : SyncLease} (h : Tracks lease.timer lease.armed) (now ms : ℚ) :
    lease.schedule now ms =
      { lease with
        timer := some lease.timers
        armed := [{ id := lease.timers, due := now + ms }]
        timers := lease.timers + 1 } := by
  simp [schedule, stopHeartbeat_eq h]

section Calls

variable {lease : SyncLease}

theorem release_eq (h : Tracks lease.timer lease.armed) :
    lease.release =
      { lease with
        handle := none, timer := none, armed := []
        releases := (lease.handle.map (·.serial)).toList ++ lease.releases
        history := (lease.handle.map fun handle => .released handle.serial).toList ++
          lease.history } := by
  unfold release
  split
  · rename_i hhandle
    rw [stopHeartbeat_eq h]
    simp [hhandle]
  · rename_i handle hhandle
    rw [stopHeartbeat_eq (by exact h)]
    simp [hhandle]

/-- The fields that belong to the grants, and not to an acquisition. -/
structure SameGrants (before after : SyncLease) : Prop where
  handle : after.handle = before.handle
  timer : after.timer = before.timer
  failures : after.failures = before.failures
  armed : after.armed = before.armed
  renews : after.renews = before.renews
  releases : after.releases = before.releases
  grants : after.grants = before.grants
  history : after.history = before.history

theorem settleAcquire_same (index : Nat) (result : AcquireResult) :
    SameGrants lease (lease.settleAcquire index result) :=
  ⟨rfl, rfl, rfl, rfl, rfl, rfl, rfl, rfl⟩

theorem attempt_same (index : Nat) (started : ℚ) (deadline : Option ℚ) (clock : Nat → ℚ) :
    SameGrants lease (lease.attempt index started deadline clock) := by
  unfold attempt
  dsimp only
  split
  · exact settleAcquire_same _ _
  · exact ⟨rfl, rfl, rfl, rfl, rfl, rfl, rfl, rfl⟩

theorem acquire_same (maxWaitMs : Option ℚ) (clock : Nat → ℚ) :
    SameGrants lease (lease.acquire maxWaitMs clock) := by
  unfold acquire
  split
  · exact ⟨rfl, rfl, rfl, rfl, rfl, rfl, rfl, rfl⟩
  · split
    · exact ⟨rfl, rfl, rfl, rfl, rfl, rfl, rfl, rfl⟩
    · let started : SyncLease :=
        { lease with
          acquiring := true
          acquisitions := .pacing (clock 0) (maxWaitMs.map (clock 0 + ·)) ::
            lease.acquisitions }
      have hsame : SameGrants started (started.attempt 0 (clock 0)
          (maxWaitMs.map (clock 0 + ·)) fun reading => clock (reading + 1)) :=
        attempt_same _ _ _ _
      exact ⟨hsame.handle, hsame.timer, hsame.failures, hsame.armed, hsame.renews,
        hsame.releases, hsame.grants, hsame.history⟩

theorem tryAcquire_same : SameGrants lease lease.tryAcquire := by
  unfold tryAcquire
  split
  · exact ⟨rfl, rfl, rfl, rfl, rfl, rfl, rfl, rfl⟩
  · split
    · exact ⟨rfl, rfl, rfl, rfl, rfl, rfl, rfl, rfl⟩
    · exact ⟨rfl, rfl, rfl, rfl, rfl, rfl, rfl, rfl⟩

end Calls

theorem Tracked.held_idle {lease : SyncLease} (h : Tracked lease) (hheld : lease.held = true) :
    lease.acquiring = false ∧ lease.acquisitions = [] := by
  rcases h.acquisition with hidle | ⟨-, hnone, -⟩
  · exact hidle
  · simp [held, hnone] at hheld

/-- The call that is suspended at an index is the one in progress. -/
theorem Tracked.suspended {lease : SyncLease} (h : Tracked lease) {index : Nat}
    {acquisition : Acquisition} (hat : lease.acquisitions[index]? = some acquisition) :
    index = 0 ∧ lease.acquisitions = [acquisition] ∧ lease.acquiring = true ∧
      lease.handle = none := by
  rcases h.acquisition with ⟨-, hnone⟩ | ⟨hacquiring, hhandle, only, honly⟩
  · simp [hnone] at hat
  · rw [honly] at hat
    cases index with
    | zero =>
        rw [List.getElem?_cons_zero] at hat
        exact ⟨rfl, by rw [honly, Option.some.inj hat], hacquiring, hhandle⟩
    | succ index => simp at hat

/-- What `attempt` leaves of the call in progress. -/
theorem attempt_acquisition {lease : SyncLease} {acquisition : Acquisition}
    (hacquiring : lease.acquiring = true) (hhandle : lease.handle = none)
    (hone : lease.acquisitions = [acquisition]) (started : ℚ) (deadline : Option ℚ)
    (clock : Nat → ℚ) :
    let next := lease.attempt 0 started deadline clock
    (next.acquiring = false ∧ next.acquisitions = []) ∨
      (next.acquiring = true ∧ lease.handle = none ∧ ∃ other, next.acquisitions = [other]) := by
  unfold attempt
  dsimp only
  split
  · exact Or.inl ⟨rfl, by simp [settleAcquire, hone]⟩
  · refine Or.inr ⟨hacquiring, hhandle, .locking started deadline (clock 1), ?_⟩
    simp only [hone, List.set_cons_zero]

/-- A lease that is not held and not acquired has no handle and no call in progress. -/
theorem Tracked.idle {lease : SyncLease} (h : Tracked lease) (hheld : ¬ lease.held = true)
    (hacquiring : ¬ lease.acquiring = true) :
    lease.handle = none ∧ lease.acquisitions = [] := by
  refine ⟨by simpa [held] using hheld, ?_⟩
  rcases h.acquisition with hidle | hbusy
  · exact hidle.2
  · exact absurd hbusy.1 hacquiring

theorem Tracked.acquire {lease : SyncLease} (h : Tracked lease) (maxWaitMs : Option ℚ)
    (clock : Nat → ℚ) : Tracked (lease.acquire maxWaitMs clock) := by
  have hsame : SameGrants lease (lease.acquire maxWaitMs clock) := acquire_same _ _
  refine ⟨by rw [hsame.timer, hsame.armed]; exact h.timer, ?_⟩
  rw [hsame.handle]
  unfold SyncLease.acquire
  split
  · exact h.acquisition
  · split
    · exact h.acquisition
    · rename_i hheld hacquiring
      obtain ⟨hnone, hidle⟩ := h.idle hheld hacquiring
      let started : SyncLease :=
        { lease with
          acquiring := true
          acquisitions := .pacing (clock 0) (maxWaitMs.map (clock 0 + ·)) ::
            lease.acquisitions }
      have hone : started.acquisitions = [.pacing (clock 0) (maxWaitMs.map (clock 0 + ·))] :=
        congrArg _ hidle
      exact attempt_acquisition (show started.acquiring = true from rfl) hnone hone _ _ _

theorem Tracked.tryAcquire {lease : SyncLease} (h : Tracked lease) :
    Tracked lease.tryAcquire := by
  have hsame : SameGrants lease lease.tryAcquire := tryAcquire_same
  refine ⟨by rw [hsame.timer, hsame.armed]; exact h.timer, ?_⟩
  rw [hsame.handle]
  unfold SyncLease.tryAcquire
  split
  · exact h.acquisition
  · split
    · exact h.acquisition
    · rename_i hheld hacquiring
      obtain ⟨hnone, hidle⟩ := h.idle hheld hacquiring
      exact Or.inr ⟨rfl, hnone, _, by rw [hidle]⟩

theorem Tracked.release {lease : SyncLease} (h : Tracked lease) : Tracked lease.release := by
  rw [release_eq h.timer]
  refine ⟨Or.inl rfl, ?_⟩
  rcases h.acquisition with hidle | ⟨hacquiring, -, hone⟩
  · exact Or.inl hidle
  · exact Or.inr ⟨hacquiring, rfl, hone⟩

theorem Tracked.call {lease : SyncLease} (h : Tracked lease) (made : LeaseCall) :
    Tracked (lease.call made) := by
  cases made with
  | acquire maxWaitMs clock => exact h.acquire maxWaitMs clock
  | tryAcquire => exact h.tryAcquire
  | release => exact h.release

theorem Tracked.calls {lease : SyncLease} (h : Tracked lease) (calls : List LeaseCall) :
    Tracked (calls.foldl SyncLease.call lease) := by
  induction calls generalizing lease with
  | nil => exact h
  | cons made calls ih => exact ih (h.call made)

theorem Tracked.schedule {lease : SyncLease} (h : Tracked lease) (now ms : ℚ) :
    Tracked (lease.schedule now ms) := by
  rw [schedule_eq h.timer]
  exact ⟨Or.inr ⟨_, rfl, rfl⟩, h.acquisition⟩

theorem Tracked.beat {lease : SyncLease} (h : Tracked lease) : Tracked lease.beat := by
  unfold SyncLease.beat
  split
  · exact h
  · exact ⟨h.timer, h.acquisition⟩

theorem Tracked.markLost {lease : SyncLease} (h : Tracked lease) (proven : Bool) :
    Tracked (lease.markLost proven) := by
  unfold SyncLease.markLost
  split
  · exact h
  · rename_i handle hhandle
    rw [stopHeartbeat_eq (by exact h.timer)]
    exact ⟨Or.inl rfl, Or.inl (h.held_idle (by simp [held, hhandle]))⟩

theorem adopt_eq {lease : SyncLease} (h : Tracks lease.timer lease.armed)
    (options : LeaseOptions) (now : ℚ) (fencingToken : Nat) :
    lease.adopt options now fencingToken =
      { lease with
        handle := some { serial := lease.grants, fencingToken := fencingToken }
        failures := 0
        grants := lease.grants + 1
        history := .granted lease.grants :: lease.history
        timer := some lease.timers
        armed := [{ id := lease.timers, due := now + options.renewIntervalMs }]
        timers := lease.timers + 1 } := by
  unfold adopt
  rw [schedule_eq (by exact h)]

/-- The call is one that may bring a grant. -/
def Event.acquires : Event → Bool
  | .call (.acquire _ _) | .call .tryAcquire => true
  | _ => false

/-- What a turn can be. -/
inductive Turn (options : LeaseOptions) (lease : SyncLease) : Event → SyncLease → Prop
  | acquisition {event : Event} {next : SyncLease} (hsame : SameGrants lease next)
      (hnext : (next.acquiring = false ∧ next.acquisitions = []) ∨
        (next.acquiring = true ∧ lease.handle = none ∧ ∃ other, next.acquisitions = [other]))
      (hstarts : event.acquires = false → next.acquiring = true →
        lease.acquiring = true) : Turn options lease event next
  | adopted {event : Event} (now : ℚ) (fencingToken : Nat) (results : List AcquireResult)
      (hacquiring : lease.acquiring = true) (hidle : lease.handle = none) :
      Turn options lease event
        { lease.adopt options now fencingToken with
          acquiring := false, acquisitions := [], results := results }
  | released : Turn options lease (.call .release) lease.release
  | fired (id : Nat) (hfired : lease.armed.any (·.id = id) = true) :
      Turn options lease (.timerFires id)
        { lease with armed := lease.armed.filter (·.id ≠ id) }.beat
  | resolved (serial : Nat) (now : ℚ) (hmem : serial ∈ lease.renews) :
      Turn options lease (.renewResolves serial now)
        ({ lease with
            renews := lease.renews.erase serial
            history := .renewResolved serial :: lease.history }.renewResolved options now serial)
  | rejected (serial : Nat) (now : ℚ) (failure : RenewFailure) (hmem : serial ∈ lease.renews) :
      Turn options lease (.renewRejects serial now failure)
        ({ lease with
            renews := lease.renews.erase serial
            history := .renewRejected serial :: lease.history }.renewRejected options now serial
              failure)
  | settled (serial : Nat) :
      Turn options lease (.releaseSettles serial)
        { lease with releases := lease.releases.erase serial }

theorem step_turn {options : LeaseOptions} {lease : SyncLease} (h : Tracked lease)
    (event : Event) : Turn options lease event (step options lease event) := by
  have hkept : Turn options lease event lease :=
    .acquisition ⟨rfl, rfl, rfl, rfl, rfl, rfl, rfl, rfl⟩ h.acquisition fun _ hnow => hnow
  have hends : ∀ {index : Nat} {acquisition : Acquisition} (result : AcquireResult),
      lease.acquisitions[index]? = some acquisition →
      Turn options lease event (lease.settleAcquire index result) := by
    intro index acquisition result hat
    obtain ⟨rfl, hone, -, -⟩ := h.suspended hat
    exact .acquisition (settleAcquire_same _ _) (Or.inl ⟨rfl, by simp [settleAcquire, hone]⟩)
      fun _ hnow => by simp [settleAcquire] at hnow
  have hretries : ∀ {index : Nat} {acquisition : Acquisition} (started : ℚ)
      (deadline : Option ℚ) (clock : Nat → ℚ), lease.acquisitions[index]? = some acquisition →
      Turn options lease event (lease.attempt index started deadline clock) := by
    intro index acquisition started deadline clock hat
    obtain ⟨rfl, hone, hacquiring, hhandle⟩ := h.suspended hat
    exact .acquisition (attempt_same _ _ _ _)
      (attempt_acquisition hacquiring hhandle hone _ _ _) fun _ _ => hacquiring
  have hadopts : ∀ {index : Nat} {acquisition : Acquisition} (now : ℚ) (fencingToken : Nat),
      lease.acquisitions[index]? = some acquisition →
      Turn options lease event
        ((lease.adopt options now fencingToken).settleAcquire index .held) := by
    intro index acquisition now fencingToken hat
    obtain ⟨rfl, hone, hacquiring, hhandle⟩ := h.suspended hat
    have hsettle : (lease.adopt options now fencingToken).settleAcquire 0 .held =
        { lease.adopt options now fencingToken with
          acquiring := false, acquisitions := [], results := .held :: lease.results } := by
      simp [settleAcquire, adopt_eq h.timer, hone]
    rw [hsettle]
    exact .adopted now fencingToken _ hacquiring hhandle
  cases event with
  | call made =>
      cases made with
      | acquire maxWaitMs clock =>
          have hnext := (h.acquire maxWaitMs clock).acquisition
          have hsame : SameGrants lease (lease.acquire maxWaitMs clock) := acquire_same _ _
          rw [hsame.handle] at hnext
          exact .acquisition hsame hnext fun hcall => by cases hcall
      | tryAcquire =>
          have hnext := h.tryAcquire.acquisition
          have hsame : SameGrants lease lease.tryAcquire := tryAcquire_same
          rw [hsame.handle] at hnext
          exact .acquisition hsame hnext fun hcall => by cases hcall
      | release => exact .released
  | lockResolves index now fencingToken =>
      dsimp only [step]
      split
      · rename_i hat
        exact hadopts now fencingToken hat
      · exact hkept
  | lockTimesOut index aborted clock =>
      dsimp only [step]
      split
      · rename_i started deadline attemptStarted hat
        unfold attemptTimedOut
        dsimp only
        split
        · exact hends _ hat
        · split
          · obtain ⟨rfl, hone, hacquiring, hhandle⟩ := h.suspended hat
            exact .acquisition ⟨rfl, rfl, rfl, rfl, rfl, rfl, rfl, rfl⟩
              (Or.inr ⟨hacquiring, hhandle, .pacing started deadline, by
                simp only [hone, List.set_cons_zero]⟩)
              fun _ _ => hacquiring
          · exact hretries _ _ _ hat
      · exact hkept
  | lockFails index =>
      dsimp only [step]
      split
      · rename_i hat
        exact hends _ hat
      · exact hkept
  | pauseEnds index clock =>
      dsimp only [step]
      split
      · rename_i hat
        exact hretries _ _ _ hat
      · exact hkept
  | tryLockResolves index now fencingToken =>
      dsimp only [step]
      split
      · rename_i hat
        exact hadopts now _ hat
      · rename_i hat
        exact hends _ hat
      · exact hkept
  | tryLockFails index =>
      dsimp only [step]
      split
      · rename_i hat
        exact hends _ hat
      · exact hkept
  | timerFires id =>
      dsimp only [step]
      split
      · rename_i hfired
        exact .fired id hfired
      · exact hkept
  | renewResolves serial now =>
      dsimp only [step]
      split
      · rename_i hmem
        exact .resolved serial now hmem
      · exact hkept
  | renewRejects serial now failure =>
      dsimp only [step]
      split
      · rename_i hmem
        exact .rejected serial now failure hmem
      · exact hkept
  | releaseSettles serial => exact .settled serial

theorem Tracked.renewResolved {lease : SyncLease} (h : Tracked lease) (options : LeaseOptions)
    (now : ℚ) (serial : Nat) : Tracked (lease.renewResolved options now serial) := by
  unfold SyncLease.renewResolved
  split
  · exact Tracked.schedule (by exact ⟨h.timer, h.acquisition⟩) _ _
  · exact h

theorem Tracked.renewRejected {lease : SyncLease} (h : Tracked lease) (options : LeaseOptions)
    (now : ℚ) (serial : Nat) (failure : RenewFailure) :
    Tracked (lease.renewRejected options now serial failure) := by
  unfold SyncLease.renewRejected
  split
  · have hcounted : Tracked { lease with failures := lease.failures + 1 } :=
      ⟨h.timer, h.acquisition⟩
    have hcalls := hcounted.calls failure.calls
    dsimp only
    split
    · exact hcalls
    · split
      · exact hcalls.markLost _
      · exact hcalls.schedule _ _
  · exact h

theorem Tracked.turn {options : LeaseOptions} {lease next : SyncLease} {event : Event}
    (h : Tracked lease) (hturn : Turn options lease event next) : Tracked next := by
  cases hturn with
  | acquisition hsame hnext hstarts =>
      refine ⟨by rw [hsame.timer, hsame.armed]; exact h.timer, ?_⟩
      rw [hsame.handle]
      exact hnext
  | adopted now fencingToken results hacquiring hidle =>
      rw [adopt_eq h.timer]
      exact ⟨Or.inr ⟨_, rfl, rfl⟩, Or.inl ⟨rfl, rfl⟩⟩
  | released => exact h.release
  | fired id hfired => exact Tracked.beat ⟨h.timer.fired id, h.acquisition⟩
  | resolved serial now hmem =>
      exact Tracked.renewResolved (by exact ⟨h.timer, h.acquisition⟩) _ _ _
  | rejected serial now failure hmem =>
      exact Tracked.renewRejected (by exact ⟨h.timer, h.acquisition⟩) _ _ _ _
  | settled serial => exact ⟨h.timer, h.acquisition⟩

theorem Tracked.step {options : LeaseOptions} {lease : SyncLease} (h : Tracked lease)
    (event : Event) : Tracked (step options lease event) :=
  h.turn (step_turn h event)

theorem tracked_initial : Tracked {} := ⟨Or.inl rfl, Or.inl ⟨rfl, rfl⟩⟩

section Callback

/-- What calls of the application do to the grants: a release drops the current
one with its heartbeat. -/
structure AfterCalls (before : SyncLease) (released : Bool) (after : SyncLease) : Prop where
  renews : after.renews = before.renews
  failures : after.failures = before.failures
  grants : after.grants = before.grants
  handle : after.handle = if released then none else before.handle
  armed : after.armed = if released then [] else before.armed

theorem SameGrants.afterCalls {before after : SyncLease} (h : SameGrants before after) :
    AfterCalls before false after :=
  ⟨h.renews, h.failures, h.grants, h.handle, h.armed⟩

theorem Tracked.afterCall {lease : SyncLease} (h : Tracked lease) (made : LeaseCall) :
    AfterCalls lease made.releases (lease.call made) := by
  cases made with
  | acquire maxWaitMs clock => exact (acquire_same _ _).afterCalls
  | tryAcquire => exact tryAcquire_same.afterCalls
  | release =>
      have heq : lease.call .release = lease.release := rfl
      rw [heq, release_eq h.timer]
      exact ⟨rfl, rfl, rfl, rfl, rfl⟩

theorem AfterCalls.disarmed {before after : SyncLease} {released : Bool}
    (h : AfterCalls before released after) (hempty : before.armed = []) : after.armed = [] := by
  rw [h.armed, hempty, ite_self]

theorem AfterCalls.trans {before middle after : SyncLease} {first second : Bool}
    (h : AfterCalls before first middle) (hnext : AfterCalls middle second after) :
    AfterCalls before (first || second) after := by
  refine ⟨hnext.renews.trans h.renews, hnext.failures.trans h.failures,
    hnext.grants.trans h.grants, hnext.handle.trans ?_, hnext.armed.trans ?_⟩
  · rw [h.handle]
    cases first <;> simp
  · rw [h.armed]
    cases first <;> simp

theorem Tracked.afterCalls {lease : SyncLease} (h : Tracked lease) (calls : List LeaseCall) :
    AfterCalls lease (calls.any (·.releases)) (calls.foldl SyncLease.call lease) := by
  induction calls generalizing lease with
  | nil => exact ⟨rfl, rfl, rfl, rfl, rfl⟩
  | cons made calls ih =>
      rw [List.any_cons, List.foldl_cons]
      exact (h.afterCall made).trans (ih (h.call made))

end Callback

end SyncLease

end ZedSync.Js
