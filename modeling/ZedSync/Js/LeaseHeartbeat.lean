import ZedSync.Js.Lease

/-!
The heartbeat of a `SyncLease` over every order of calls, lock answers, timer
firings and settled renewals. A renewal may settle in any later state; what it
does then is decided by the grant it was started for.
-/

namespace ZedSync.Js

namespace SyncLease

/-- The grants that were released or declared lost. -/
def droppedGrants : List LeaseEntry → List Nat
  | [] => []
  | .released serial :: before | .lost serial _ :: before => serial :: droppedGrants before
  | _ :: before => droppedGrants before

/-- How often the renewal of a grant failed since it last succeeded. -/
def failureStreak (serial : Nat) : List LeaseEntry → Nat
  | [] => 0
  | .renewRejected other :: before =>
      if other = serial then failureStreak serial before + 1 else failureStreak serial before
  | .renewResolved other :: before =>
      if other = serial then 0 else failureStreak serial before
  | _ :: before => failureStreak serial before

/-- A renewal starts for a grant that was not dropped; a grant is declared lost
once, not after its release, and without the failures of another one. -/
def Fits (options : LeaseOptions) (before : List LeaseEntry) : LeaseEntry → Prop
  | .renewStarted serial => serial ∉ droppedGrants before
  | .lost serial proven =>
      serial ∉ droppedGrants before ∧
        (proven = true ∨ options.limitReached (failureStreak serial before) = true)
  | .granted _ | .renewResolved _ | .renewRejected _ | .released _ => True

/-- A timer is armed only while a handle is held. -/
def Beats (lease : SyncLease) : Prop := lease.armed ≠ [] → lease.held = true

/-- The heartbeat is sound. -/
structure Sound (options : LeaseOptions) (lease : SyncLease) : Prop where
  one_timer : lease.armed.length ≤ 1
  timer_held : Beats lease
  one_renew : lease.renews.Nodup
  history : Run.Chronicle (Fits options) lease.history

/-- The current grant has no renewal in flight. -/
def Rests (lease : SyncLease) : Prop := ∀ grant ∈ lease.handle, grant.serial ∉ lease.renews

/-- What the fields of the lease record of the history of its grants. -/
structure Recorded (options : LeaseOptions) (lease : SyncLease) : Prop where
  unused : ∀ serial, lease.grants ≤ serial →
    serial ∉ lease.renews ∧ serial ∉ droppedGrants lease.history ∧
      failureStreak serial lease.history = 0
  counted : ∀ grant ∈ lease.handle, grant.serial < lease.grants
  live : ∀ grant ∈ lease.handle, grant.serial ∉ droppedGrants lease.history
  failures : ∀ grant ∈ lease.handle, lease.failures = failureStreak grant.serial lease.history
  rests : lease.armed ≠ [] → Rests lease
  renews : lease.renews.Nodup
  history : Run.Chronicle (Fits options) lease.history

section Grants

variable {options : LeaseOptions} {lease next : SyncLease}

theorem Recorded.same (h : Recorded options lease) (hsame : SameGrants lease next) :
    Recorded options next := by
  obtain ⟨hhandle, -, hfailures, harmed, hrenews, -, hgrants, hhistory⟩ := hsame
  constructor
  · rw [hgrants, hrenews, hhistory]
    exact h.unused
  · rw [hhandle, hgrants]
    exact h.counted
  · rw [hhandle, hhistory]
    exact h.live
  · rw [hhandle, hfailures, hhistory]
    exact h.failures
  · unfold Rests
    rw [harmed, hhandle, hrenews]
    exact h.rests
  · rw [hrenews]
    exact h.renews
  · rw [hhistory]
    exact h.history

/-- The serials to come are of no grant so far. -/
theorem Recorded.ne_of_unused (h : Recorded options lease) {grant : Grant}
    (hgrant : lease.handle = some grant) {serial : Nat} (hserial : lease.grants ≤ serial) :
    serial ≠ grant.serial := by
  rintro rfl
  exact absurd (h.counted grant hgrant) (Nat.not_lt.mpr hserial)

/-- The current grant is released, or declared lost. -/
theorem Recorded.drop (h : Recorded options lease) {grant : Grant}
    (hgrant : lease.handle = some grant) (entry : LeaseEntry)
    (hentry : droppedGrants (entry :: lease.history) =
      grant.serial :: droppedGrants lease.history)
    (hstreak : ∀ serial, failureStreak serial (entry :: lease.history) =
      failureStreak serial lease.history)
    (hfits : Fits options lease.history entry) (timer : Option Nat) (releases : List Nat) :
    Recorded options
      { lease with
        handle := none, timer := timer, armed := [], releases := releases
        history := entry :: lease.history } := by
  constructor
  · intro serial hserial
    obtain ⟨hrenew, hdropped, hzero⟩ := h.unused serial hserial
    have hne : serial ≠ grant.serial := h.ne_of_unused hgrant hserial
    refine ⟨hrenew, ?_, (hstreak serial).trans hzero⟩
    rw [hentry]
    simp [hne, hdropped]
  · intro other hother
    cases hother
  · intro other hother
    cases hother
  · intro other hother
    cases hother
  · exact fun harmed => absurd rfl harmed
  · exact h.renews
  · exact ⟨hfits, h.history⟩

theorem Recorded.release (h : Recorded options lease) (htracked : Tracked lease) :
    Recorded options lease.release := by
  rw [release_eq htracked.timer]
  cases hhandle : lease.handle with
  | none =>
      refine ⟨h.unused, ?_, ?_, ?_, fun harmed => absurd rfl harmed, h.renews, h.history⟩
      all_goals
        intro grant hgrant
        cases hgrant
  | some grant =>
      exact h.drop hhandle (.released grant.serial) rfl (fun _ => rfl) trivial _ _

theorem Recorded.markLost (h : Recorded options lease) (htracked : Tracked lease)
    {proven : Bool}
    (hreason : proven = true ∨ options.limitReached lease.failures = true) :
    Recorded options (lease.markLost proven) := by
  unfold SyncLease.markLost
  split
  · exact h
  · rename_i grant hgrant
    rw [stopHeartbeat_eq (by exact htracked.timer)]
    refine h.drop hgrant (.lost grant.serial proven) rfl (fun _ => rfl) ⟨h.live grant hgrant, ?_⟩
      _ _
    rw [← h.failures grant hgrant]
    exact hreason

theorem Recorded.call (h : Recorded options lease) (htracked : Tracked lease)
    (made : LeaseCall) : Recorded options (lease.call made) := by
  cases made with
  | acquire maxWaitMs clock => exact h.same (acquire_same _ _)
  | tryAcquire => exact h.same tryAcquire_same
  | release => exact h.release htracked

theorem Recorded.calls (h : Recorded options lease) (htracked : Tracked lease)
    (calls : List LeaseCall) : Recorded options (calls.foldl SyncLease.call lease) := by
  induction calls generalizing lease with
  | nil => exact h
  | cons made calls ih => exact ih (h.call htracked made) (htracked.call made)

theorem Recorded.schedule (h : Recorded options lease) (htracked : Tracked lease)
    (hrests : Rests lease) (now ms : ℚ) : Recorded options (lease.schedule now ms) := by
  rw [schedule_eq htracked.timer]
  exact ⟨h.unused, h.counted, h.live, h.failures, fun _ => hrests, h.renews, h.history⟩

theorem Recorded.adopt (h : Recorded options lease) (htracked : Tracked lease) (now : ℚ)
    (fencingToken : Nat) : Recorded options (lease.adopt options now fencingToken) := by
  rw [adopt_eq htracked.timer]
  obtain ⟨hrenew, hdropped, hzero⟩ := h.unused lease.grants (Nat.le_refl _)
  constructor
  · intro serial hserial
    exact h.unused serial (Nat.le_of_succ_le hserial)
  · rintro grant ⟨⟩
    exact Nat.lt_succ_self _
  · rintro grant ⟨⟩
    exact hdropped
  · rintro grant ⟨⟩
    exact hzero.symm
  · rintro - grant ⟨⟩
    exact hrenew
  · exact h.renews
  · exact ⟨trivial, h.history⟩

/-- The heartbeat timer fires, and the renewal of the current grant starts. -/
theorem Recorded.fire (h : Recorded options lease) (htracked : Tracked lease) (id : Nat)
    (hfired : lease.armed.any (·.id = id) = true) :
    Recorded options { lease with armed := lease.armed.filter (·.id ≠ id) }.beat := by
  obtain ⟨hempty, hrests⟩ : lease.armed.filter (·.id ≠ id) = [] ∧ Rests lease := by
    rcases htracked.timer with hnone | ⟨due, hone, -⟩
    · simp [hnone] at hfired
    · have hid : due.id = id := by simpa [hone] using hfired
      exact ⟨by simp [hone, hid], h.rests (by simp [hone])⟩
  unfold beat
  dsimp only
  rw [hempty]
  split
  · exact ⟨h.unused, h.counted, h.live, h.failures, fun harmed => absurd rfl harmed, h.renews,
      h.history⟩
  · rename_i grant hgrant
    refine ⟨?_, h.counted, h.live, h.failures, fun harmed => absurd rfl harmed, ?_, ?_⟩
    · intro serial hserial
      obtain ⟨hrenew, hdropped, hzero⟩ := h.unused serial hserial
      have hne : serial ≠ grant.serial := h.ne_of_unused hgrant hserial
      exact ⟨by simp [hne, hrenew], hdropped, hzero⟩
    · exact List.nodup_cons.mpr ⟨hrests grant hgrant, h.renews⟩
    · exact ⟨h.live grant hgrant, h.history⟩

/-- A renewal settled, with the failures of the current grant as its own renewals
give them. -/
theorem Recorded.settle (h : Recorded options lease) {serial : Nat} {entry : LeaseEntry}
    (hentry : entry = .renewResolved serial ∨ entry = .renewRejected serial) (failures : Nat)
    (hfailures : ∀ grant ∈ lease.handle,
      failures = failureStreak grant.serial (entry :: lease.history))
    (hmem : serial ∈ lease.renews) :
    Recorded options
      { lease with
        renews := lease.renews.erase serial
        history := entry :: lease.history
        failures := failures } := by
  have hdropped : droppedGrants (entry :: lease.history) = droppedGrants lease.history := by
    rcases hentry with rfl | rfl <;> rfl
  constructor
  · intro other hother
    obtain ⟨hrenew, hlive, hzero⟩ := h.unused other hother
    have hne : serial ≠ other := by
      rintro rfl
      exact hrenew hmem
    refine ⟨fun herased => hrenew (List.mem_of_mem_erase herased), ?_, ?_⟩
    · rw [hdropped]
      exact hlive
    · rcases hentry with rfl | rfl <;> simp [failureStreak, hne, hzero]
  · exact h.counted
  · rw [hdropped]
    exact h.live
  · exact hfailures
  · exact fun harmed grant hgrant herased =>
      h.rests harmed grant hgrant (List.mem_of_mem_erase herased)
  · exact h.renews.erase serial
  · refine ⟨?_, h.history⟩
    rcases hentry with rfl | rfl <;> trivial

theorem Recorded.settle_stale (h : Recorded options lease) {serial : Nat} {entry : LeaseEntry}
    (hentry : entry = .renewResolved serial ∨ entry = .renewRejected serial)
    (hmem : serial ∈ lease.renews) (hstale : lease.owns serial = false) :
    Recorded options
      { lease with
        renews := lease.renews.erase serial
        history := entry :: lease.history } := by
  refine h.settle hentry lease.failures ?_ hmem
  intro grant hgrant
  have hne : serial ≠ grant.serial := by
    rintro rfl
    simp [owns, Option.mem_def.mp hgrant] at hstale
  rw [h.failures grant hgrant]
  rcases hentry with rfl | rfl <;> simp [failureStreak, hne]

theorem serial_of_owns {serial : Nat} (howns : lease.owns serial = true) {grant : Grant}
    (hgrant : grant ∈ lease.handle) : grant.serial = serial := by
  simpa [owns, Option.mem_def.mp hgrant] using howns

theorem held_of_owns {serial : Nat} (howns : lease.owns serial = true) : lease.held = true := by
  cases hhandle : lease.handle with
  | none => simp [owns, hhandle] at howns
  | some grant => simp [held, hhandle]

/-- The renewal of the current grant settled: none of its renewals is left. -/
theorem Recorded.rests_settled (h : Recorded options lease) {serial : Nat}
    (howns : lease.owns serial = true) :
    ∀ grant ∈ lease.handle, grant.serial ∉ lease.renews.erase serial := by
  intro grant hgrant
  rw [serial_of_owns howns hgrant]
  exact h.renews.not_mem_erase

theorem Recorded.renewResolved (h : Recorded options lease) (htracked : Tracked lease)
    (now : ℚ) {serial : Nat} (hmem : serial ∈ lease.renews) :
    Recorded options
      ({ lease with
          renews := lease.renews.erase serial
          history := .renewResolved serial :: lease.history }.renewResolved options now
            serial) := by
  by_cases howns : lease.owns serial = true
  · unfold SyncLease.renewResolved
    rw [if_pos (by exact howns)]
    have hsettled : Recorded options
        { lease with
          renews := lease.renews.erase serial
          history := .renewResolved serial :: lease.history
          failures := 0 } := by
      refine h.settle (Or.inl rfl) _ ?_ hmem
      intro grant hgrant
      simp [failureStreak, serial_of_owns howns hgrant]
    exact hsettled.schedule (by exact ⟨htracked.timer, htracked.acquisition⟩)
      (h.rests_settled howns) _ _
  · unfold SyncLease.renewResolved
    rw [if_neg (by exact howns)]
    exact h.settle_stale (Or.inl rfl) hmem (by simpa using howns)

/-- The lease after the failed renewal of the current grant, when `onRenewError`
is called. -/
theorem Recorded.failed (h : Recorded options lease) {serial : Nat}
    (hmem : serial ∈ lease.renews) (howns : lease.owns serial = true) :
    Recorded options
      { lease with
        renews := lease.renews.erase serial
        history := .renewRejected serial :: lease.history
        failures := lease.failures + 1 } := by
  refine h.settle (Or.inr rfl) _ ?_ hmem
  intro grant hgrant
  have hserial := serial_of_owns howns hgrant
  have hown := h.failures grant hgrant
  rw [hserial] at hown ⊢
  simp [failureStreak, hown]

theorem Recorded.renewRejected (h : Recorded options lease) (htracked : Tracked lease)
    (now : ℚ) {serial : Nat} (failure : RenewFailure) (hmem : serial ∈ lease.renews) :
    Recorded options
      ({ lease with
          renews := lease.renews.erase serial
          history := .renewRejected serial :: lease.history }.renewRejected options now serial
            failure) := by
  by_cases howns : lease.owns serial = true
  · unfold SyncLease.renewRejected
    rw [if_pos (by exact howns)]
    have hfailed := h.failed hmem howns
    have htracked : Tracked
        { lease with
          renews := lease.renews.erase serial
          history := .renewRejected serial :: lease.history
          failures := lease.failures + 1 } := ⟨htracked.timer, htracked.acquisition⟩
    have hcalled := hfailed.calls htracked failure.calls
    have hafter := htracked.calls failure.calls
    have hgrants := htracked.afterCalls failure.calls
    dsimp only
    split
    · exact hcalled
    · split
      · rename_i hlost
        exact hcalled.markLost hafter (by simpa using hlost)
      · refine hcalled.schedule hafter ?_ _ _
        unfold Rests
        rw [hgrants.renews, hgrants.handle]
        intro grant hgrant
        split at hgrant
        · cases hgrant
        · exact h.rests_settled howns grant hgrant
  · unfold SyncLease.renewRejected
    rw [if_neg (by exact howns)]
    exact h.settle_stale (Or.inr rfl) hmem (by simpa using howns)

theorem Recorded.turn {event : Event} (h : Recorded options lease) (htracked : Tracked lease)
    (hturn : Turn options lease event next) : Recorded options next := by
  cases hturn with
  | acquisition hsame hnext hstarts => exact h.same hsame
  | adopted now fencingToken results hacquiring hidle =>
      exact (h.adopt htracked now fencingToken).same
        ⟨rfl, rfl, rfl, rfl, rfl, rfl, rfl, rfl⟩
  | released => exact h.release htracked
  | fired id hfired => exact h.fire htracked id hfired
  | resolved serial now hmem => exact h.renewResolved htracked now hmem
  | rejected serial now failure hmem => exact h.renewRejected htracked now failure hmem
  | settled serial =>
      exact ⟨h.unused, h.counted, h.live, h.failures, h.rests, h.renews, h.history⟩

end Grants

/-- No `onRenewError` releases the lease on a failure that the beat takes for a
transient one, unless it throws. -/
def Spares (options : LeaseOptions) (lease : SyncLease) : Event → Prop
  | .renewRejects serial _ failure =>
      serial ∈ lease.renews → lease.owns serial = true →
        failure.calls.any (·.releases) = true →
          failure.callbackThrows = true ∨ failure.authorityLost = true ∨
            options.limitReached (lease.failures + 1) = true
  | _ => True

section Timer

variable {options : LeaseOptions} {lease next : SyncLease}

theorem Beats.same (h : Beats lease) (hsame : SameGrants lease next) : Beats next := by
  unfold Beats held
  rw [hsame.armed, hsame.handle]
  exact h

theorem beats_schedule (htracked : Tracked lease) (now ms : ℚ) :
    Beats (lease.schedule now ms) ↔ lease.held = true := by
  rw [schedule_eq htracked.timer]
  exact ⟨fun h => h (List.cons_ne_nil _ _), fun h _ => h⟩

theorem beats_disarmed (h : lease.armed = []) : Beats lease := fun harmed => absurd h harmed

theorem markLost_armed (htracked : Tracked lease) (hempty : lease.armed = [])
    (proven : Bool) : (lease.markLost proven).armed = [] := by
  unfold markLost
  split
  · exact hempty
  · rw [stopHeartbeat_eq (by exact htracked.timer)]

/-- The renewal of the current grant is in flight only while no timer is armed. -/
theorem Recorded.disarmed (h : Recorded options lease) {serial : Nat}
    (hmem : serial ∈ lease.renews) (howns : lease.owns serial = true) : lease.armed = [] := by
  by_contra harmed
  obtain ⟨grant, hgrant⟩ : ∃ grant, lease.handle = some grant := by
    cases hhandle : lease.handle with
    | none => simp [owns, hhandle] at howns
    | some grant => exact ⟨grant, rfl⟩
  refine h.rests harmed grant hgrant ?_
  rw [serial_of_owns howns hgrant]
  exact hmem

/-- A failed renewal of the current grant leaves a timer without a grant exactly
where `onRenewError` released the lease and the beat goes on to retry. -/
theorem beats_renewRejected (h : Recorded options lease) (htracked : Tracked lease) (now : ℚ)
    {serial : Nat} (failure : RenewFailure) (hmem : serial ∈ lease.renews)
    (howns : lease.owns serial = true) :
    Beats
        ({ lease with
            renews := lease.renews.erase serial
            history := .renewRejected serial :: lease.history }.renewRejected options now serial
              failure) ↔
      (failure.calls.any (·.releases) = true →
        failure.callbackThrows = true ∨ failure.authorityLost = true ∨
          options.limitReached (lease.failures + 1) = true) := by
  have htracked : Tracked
      { lease with
        renews := lease.renews.erase serial
        history := .renewRejected serial :: lease.history
        failures := lease.failures + 1 } := ⟨htracked.timer, htracked.acquisition⟩
  have hafter := htracked.calls failure.calls
  have hgrants := htracked.afterCalls failure.calls
  have hempty := hgrants.disarmed (h.disarmed hmem howns)
  unfold renewRejected
  rw [if_pos (by exact howns)]
  dsimp only
  generalize List.foldl SyncLease.call _ failure.calls = called at hafter hgrants hempty ⊢
  by_cases hthrows : failure.callbackThrows = true
  · rw [if_pos hthrows]
    exact iff_of_true (beats_disarmed hempty) fun _ => Or.inl hthrows
  · rw [if_neg hthrows]
    by_cases hreleases : failure.calls.any (·.releases) = true
    · have hheld : called.held = false := by
        unfold held
        rw [hgrants.handle, if_pos hreleases]
        rfl
      rw [hheld, hgrants.failures]
      split
      · rename_i hlost
        refine iff_of_true (beats_disarmed (markLost_armed hafter hempty _)) fun _ => ?_
        exact Or.inr (by simpa using hlost)
      · rename_i hretries
        refine iff_of_false ?_ ?_
        · rw [beats_schedule hafter, hheld]
          exact Bool.false_ne_true
        · intro hends
          have hlost := (hends hreleases).resolve_left hthrows
          exact hretries (by simpa using hlost)
    · have hheld : called.held = true := by
        unfold held
        rw [hgrants.handle, if_neg hreleases]
        exact held_of_owns howns
      refine iff_of_true ?_ fun hnow => absurd hnow hreleases
      split
      · exact beats_disarmed (markLost_armed hafter hempty _)
      · exact (beats_schedule hafter _ _).mpr hheld

/-- Every turn other than a failed renewal keeps the timer with the grant. -/
theorem Beats.turn {event : Event} (hbeats : Beats lease) (htracked : Tracked lease)
    (hevent : ∀ serial now failure, event ≠ .renewRejects serial now failure)
    (hturn : Turn options lease event next) : Beats next := by
  cases hturn with
  | acquisition hsame hnext hstarts => exact hbeats.same hsame
  | adopted now fencingToken results hacquiring hidle =>
      rw [adopt_eq htracked.timer]
      exact fun _ => rfl
  | released =>
      rw [release_eq htracked.timer]
      exact beats_disarmed rfl
  | fired id hfired =>
      unfold beat
      split
      · exact fun harmed => hbeats fun hnone => harmed (by simp [hnone])
      · exact fun harmed => hbeats fun hnone => harmed (by simp [hnone])
  | resolved serial now hmem =>
      unfold renewResolved
      split
      · rename_i howns
        exact (beats_schedule (by exact ⟨htracked.timer, htracked.acquisition⟩) _ _).mpr
          (held_of_owns howns)
      · exact hbeats
  | rejected serial now failure hmem => exact absurd rfl (hevent serial now failure)
  | settled serial => exact hbeats

theorem beats_step_iff (h : Recorded options lease) (htracked : Tracked lease)
    (hbeats : Beats lease) (event : Event) :
    Beats (step options lease event) ↔ Spares options lease event := by
  by_cases hevent : ∃ serial now failure, event = .renewRejects serial now failure
  · obtain ⟨serial, now, failure, rfl⟩ := hevent
    simp only [Spares, step]
    by_cases hmem : serial ∈ lease.renews
    · rw [if_pos hmem]
      by_cases howns : lease.owns serial = true
      · rw [beats_renewRejected h htracked now failure hmem howns]
        exact ⟨fun hends _ _ => hends, fun hends => hends hmem howns⟩
      · unfold renewRejected
        rw [if_neg (by exact howns)]
        exact iff_of_true hbeats fun _ hnow => absurd hnow howns
    · rw [if_neg hmem]
      exact iff_of_true hbeats fun hnow => absurd hnow hmem
  · have hother : ∀ serial now failure, event ≠ .renewRejects serial now failure :=
      fun serial now failure heq => hevent ⟨serial, now, failure, heq⟩
    refine iff_of_true (hbeats.turn htracked hother (step_turn htracked event)) ?_
    cases event with
    | renewRejects serial now failure => exact absurd rfl (hother serial now failure)
    | _ => trivial

end Timer

theorem recorded_initial (options : LeaseOptions) : Recorded options {} := by
  refine ⟨fun serial _ => ⟨List.not_mem_nil, List.not_mem_nil, rfl⟩, ?_, ?_, ?_,
    fun harmed => absurd rfl harmed, List.nodup_nil, trivial⟩
  all_goals
    intro grant hgrant
    cases hgrant

/-- The heartbeat is sound in every state of a run exactly where no
`onRenewError` of the run releases the lease and leaves the beat to retry. -/
theorem heartbeat_sound_iff (options : LeaseOptions) (events : List Event) :
    Run.Along (step options) (fun lease event => Sound options (step options lease event)) {}
        events ↔
      Run.Along (step options) (Spares options) {} events := by
  refine Run.along_good_iff (J := fun lease => Recorded options lease ∧ Tracked lease) ?_ ?_
    events ⟨recorded_initial options, tracked_initial⟩ ?_
  · rintro lease event ⟨hrecorded, htracked⟩
    have hturn : Turn options lease event (step options lease event) :=
      step_turn htracked event
    exact ⟨hrecorded.turn htracked hturn, htracked.turn hturn⟩
  · rintro lease event ⟨hrecorded, htracked⟩ hsound
    rw [← beats_step_iff hrecorded htracked hsound.timer_held event]
    have hturn : Turn options lease event (step options lease event) :=
      step_turn htracked event
    have hnext := hrecorded.turn htracked hturn
    exact ⟨fun hnow => hnow.timer_held, fun hbeats =>
      ⟨(htracked.turn hturn).timer.length, hbeats, hnext.renews, hnext.history⟩⟩
  · exact ⟨Nat.zero_le _, beats_disarmed rfl, List.nodup_nil, trivial⟩

/-- `onRenewError` releases the lease on the first failed renewal. -/
theorem released_lease_keeps_a_timer :
    ¬ Sound LeaseOptions.default
      (Run.final (step LeaseOptions.default) {}
        [.call .tryAcquire, .tryLockResolves 0 0 (some 7), .timerFires 0,
          .renewRejects 0 10000
            { authorityLost := false, leaseExpiresMs := none, dateNow := 10000,
              calls := [.release] }]) := by
  intro hsound
  have hheld := hsound.timer_held (by decide)
  exact absurd hheld (by decide)

end SyncLease

end ZedSync.Js
