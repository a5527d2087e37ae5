import Mathlib.Algebra.Order.Archimedean.Basic
import Mathlib.Data.NNRat.Defs
import Mathlib.Tactic.Linarith
import Mathlib.Tactic.Ring
import ZedSync.Js.Lease

/-!
How long a `SyncLease` reports itself held. The timeline starts with a call of
`acquire` at time zero; timers fire exactly on time, and a pattern says how each
renewal ends. Nothing in the lease computes the bound its `ttlMs` promises: it
follows, or does not, from the cadence of the heartbeat.
-/

namespace ZedSync.Js

namespace SyncLease

/-- How a renewal ends: it succeeds after a time, fails at once, or never settles. -/
inductive RenewOutcome where
  | succeeds (duration : NNRat)
  | fails (authorityLost : Bool) (leaseExpiresMs : Option ℚ) (callbackThrows : Bool)
  | hangs

/-- The lease after one of the events of a timeline. -/
structure Moment where
  now : ℚ
  lease : SyncLease
  /-- The start of the last acquisition or renewal that succeeded. -/
  lastStart : ℚ
  /-- The renewals that settled. -/
  renewals : Nat

section Timeline

variable (options : LeaseOptions) (pattern : Nat → RenewOutcome)

/-- When the next event is due: the renewal in flight settles, which started
with the last event, or a timer fires. -/
def Moment.next (moment : Moment) : Option ℚ :=
  match moment.lease.renews, moment.lease.armed with
  | _ :: _, _ =>
      match pattern moment.renewals with
      | .succeeds duration => some (moment.now + duration)
      | .fails _ _ _ => some moment.now
      | .hangs => none
  | [], timer :: _ => some timer.due
  | [], [] => none

def Moment.advance (moment : Moment) : Moment :=
  match moment.lease.renews, moment.lease.armed with
  | serial :: _, _ =>
      match pattern moment.renewals with
      | .succeeds duration =>
          { now := moment.now + duration
            lease := step options moment.lease (.renewResolves serial (moment.now + duration))
            lastStart := moment.now
            renewals := moment.renewals + 1 }
      | .fails authorityLost leaseExpiresMs callbackThrows =>
          { moment with
            lease := step options moment.lease
              (.renewRejects serial moment.now
                { authorityLost := authorityLost, leaseExpiresMs := leaseExpiresMs,
                  dateNow := moment.now, callbackThrows := callbackThrows })
            renewals := moment.renewals + 1 }
      | .hangs => moment
  | [], timer :: _ =>
      { moment with now := timer.due, lease := step options moment.lease (.timerFires timer.id) }
  | [], [] => moment

/-- The timeline: `acquire` is called at time zero and granted after `wait`. -/
def moment (wait : NNRat) (fencingToken : Nat) : Nat → Moment
  | 0 =>
      { now := wait
        lease := Run.final (step options) {}
          [.call (.acquire none fun _ => 0), .lockResolves 0 wait fencingToken]
        lastStart := 0
        renewals := 0 }
  | index + 1 => (moment wait fencingToken index).advance options pattern

/-- The time is not before the last event, and before the next one. -/
def Moment.Lasts (moment : Moment) (time : ℚ) : Prop :=
  moment.now ≤ time ∧ ∀ next ∈ moment.next pattern, time < next

/-- Once `ttlMs` has elapsed since the last successful acquisition or renewal
started, the lease is not reported held. -/
def EndsWithTtl (wait : NNRat) (fencingToken : Nat) : Prop :=
  ∀ index time, (moment options pattern wait fencingToken index).Lasts pattern time →
    (moment options pattern wait fencingToken index).lastStart + options.ttlMs ≤ time →
      (moment options pattern wait fencingToken index).lease.held = false ∧
        (moment options pattern wait fencingToken index).lease.fencingToken = none

end Timeline

/-- What has passed when a renewal is due: the start of the last success, how
long that took, and the failures since. -/
structure Cadence where
  lastStart : ℚ
  lasted : ℚ
  failures : Nat

/-- The time from the start of the last success to the next renewal. -/
def Cadence.gap (options : LeaseOptions) (cadence : Cadence) : ℚ :=
  cadence.lasted + options.renewIntervalMs + cadence.failures * options.retryMs

def Cadence.due (options : LeaseOptions) (cadence : Cadence) : ℚ :=
  cadence.lastStart + cadence.gap options

section Cadences

variable (options : LeaseOptions) (pattern : Nat → RenewOutcome)

/-- The cadence at each renewal, as long as every renewal before settled and
left the grant with the lease. -/
def cadence (wait : NNRat) : Nat → Option Cadence
  | 0 => some { lastStart := 0, lasted := wait, failures := 0 }
  | index + 1 =>
      (cadence wait index).bind fun last =>
        match pattern index with
        | .succeeds duration =>
            some { lastStart := last.due options, lasted := duration, failures := 0 }
        | .fails authorityLost leaseExpiresMs callbackThrows =>
            if callbackThrows || authorityLost || leaseExpiresMs.any (· ≤ last.due options) ||
                options.limitReached (last.failures + 1) then none
            else some { last with failures := last.failures + 1 }
        | .hangs => none

/-- Every renewal that is made settles, without an error of `onRenewError`, and is
due, or done where it succeeds, within `ttlMs` of the start of the last success. -/
def RenewsInTime (wait : NNRat) : Prop :=
  ∀ index last, cadence options pattern wait index = some last →
    match pattern index with
    | .succeeds duration => last.gap options + duration ≤ options.ttlMs
    | .fails _ _ callbackThrows =>
        callbackThrows = false ∧ last.gap options ≤ options.ttlMs
    | .hangs => False

end Cadences

theorem retryMs_pos (options : LeaseOptions) : 0 < options.retryMs :=
  lt_of_lt_of_le (by norm_num [retryFloorMs]) (le_max_left _ _)

/-- The heartbeat waits for a renewal. -/
structure Waits (options : LeaseOptions) (last : Cadence) (index : Nat) (moment : Moment) :
    Prop where
  tracked : Tracked moment.lease
  held : ∃ grant, moment.lease.handle = some grant
  renews : moment.lease.renews = []
  armed : ∃ timer : LeaseTimer,
    moment.lease.armed = [timer] ∧ timer.due = last.due options
  failures : moment.lease.failures = last.failures
  lastStart : moment.lastStart = last.lastStart
  renewals : moment.renewals = index
  before : moment.now < last.due options

/-- The renewal is in flight. -/
structure Flies (options : LeaseOptions) (last : Cadence) (index : Nat) (moment : Moment) :
    Prop where
  tracked : Tracked moment.lease
  held : ∃ grant, moment.lease.handle = some grant ∧ moment.lease.renews = [grant.serial]
  armed : moment.lease.armed = []
  failures : moment.lease.failures = last.failures
  lastStart : moment.lastStart = last.lastStart
  renewals : moment.renewals = index
  now : moment.now = last.due options

/-- Nothing is due any more. -/
def Moment.Quiet (moment : Moment) : Prop :=
  moment.lease.renews = [] ∧ moment.lease.armed = []

section Steps

variable {options : LeaseOptions} {pattern : Nat → RenewOutcome} {last : Cadence} {index : Nat}
  {moment : Moment}

theorem Waits.advance (h : Waits options last index moment) (pattern : Nat → RenewOutcome) :
    Flies options last index (moment.advance options pattern) := by
  obtain ⟨htracked, ⟨grant, hgrant⟩, hrenews, ⟨timer, harmed, hdue⟩, hfailures, hlast, hrenewals,
    -⟩ := h
  have hadvance : moment.advance options pattern =
      { moment with
        now := timer.due
        lease := step options moment.lease (.timerFires timer.id) } := by
    simp [Moment.advance, hrenews, harmed]
  have hstep : step options moment.lease (.timerFires timer.id) =
      { moment.lease with
        armed := []
        renews := [grant.serial]
        history := .renewStarted grant.serial :: moment.lease.history } := by
    simp [step, beat, harmed, hgrant, hrenews]
  have hnext : Tracked (step options moment.lease (.timerFires timer.id)) := htracked.step _
  rw [hstep] at hnext
  rw [hadvance, hstep]
  exact ⟨hnext, ⟨grant, hgrant, rfl⟩, rfl, hfailures, hlast, hrenewals, hdue⟩

theorem Flies.succeeds (h : Flies options last index moment) {duration : NNRat}
    (hpattern : pattern index = .succeeds duration) :
    Waits options { lastStart := last.due options, lasted := duration, failures := 0 }
      (index + 1) (moment.advance options pattern) := by
  obtain ⟨htracked, ⟨grant, hgrant, hrenews⟩, harmed, -, -, hrenewals, hnow⟩ := h
  have hadvance : moment.advance options pattern =
      { now := moment.now + duration
        lease := step options moment.lease
          (.renewResolves grant.serial (moment.now + duration))
        lastStart := moment.now
        renewals := moment.renewals + 1 } := by
    simp [Moment.advance, hrenews, hrenewals, hpattern]
  have hstep : step options moment.lease (.renewResolves grant.serial (moment.now + duration)) =
      { moment.lease with
        renews := []
        history := .renewResolved grant.serial :: moment.lease.history
        failures := 0
        timer := some moment.lease.timers
        armed := [{ id := moment.lease.timers,
                    due := moment.now + duration + options.renewIntervalMs }]
        timers := moment.lease.timers + 1 } := by
    have howns : moment.lease.owns grant.serial = true := by simp [owns, hgrant]
    simp only [step, hrenews, List.mem_singleton, if_true, List.erase_cons_head, renewResolved]
    rw [if_pos (by exact howns), schedule_eq (by exact htracked.timer)]
  have hnext : Tracked
      (step options moment.lease (.renewResolves grant.serial (moment.now + duration))) :=
    htracked.step _
  rw [hstep] at hnext
  rw [hadvance, hstep]
  refine ⟨hnext, ⟨grant, hgrant⟩, rfl, ⟨_, rfl, ?_⟩, rfl, hnow, by rw [hrenewals], ?_⟩
  · simp only [Cadence.due, Cadence.gap] at hnow ⊢
    rw [hnow]
    ring
  · have hpos := options.interval_pos
    simp only [Cadence.due, Cadence.gap] at hnow ⊢
    rw [hnow]
    simp only [Nat.cast_zero, zero_mul]
    linarith

/-- The lease after a renewal that failed at once. -/
theorem Flies.rejects (h : Flies options last index moment) {authorityLost : Bool}
    {leaseExpiresMs : Option ℚ} {callbackThrows : Bool}
    (hpattern : pattern index = .fails authorityLost leaseExpiresMs callbackThrows) :
    ∃ grant, moment.lease.handle = some grant ∧
      moment.advance options pattern =
        { moment with
          renewals := moment.renewals + 1
          lease :=
            let failed : SyncLease :=
              { moment.lease with
                renews := []
                history := .renewRejected grant.serial :: moment.lease.history
                failures := last.failures + 1 }
            let proven := authorityLost || leaseExpiresMs.any (· ≤ last.due options)
            if callbackThrows then failed
            else if proven || options.limitReached (last.failures + 1) then
              failed.markLost proven
            else failed.schedule (last.due options) options.retryMs } := by
  obtain ⟨htracked, ⟨grant, hgrant, hrenews⟩, harmed, hfailures, -, hrenewals, hnow⟩ := h
  refine ⟨grant, hgrant, ?_⟩
  simp [Moment.advance, hrenews, hrenewals, hpattern, step, renewRejected, owns, SyncLease.held,
    hgrant, hfailures, hnow]

theorem Flies.retries (h : Flies options last index moment) {authorityLost : Bool}
    {leaseExpiresMs : Option ℚ} {callbackThrows : Bool}
    (hpattern : pattern index = .fails authorityLost leaseExpiresMs callbackThrows)
    (hthrows : callbackThrows = false)
    (hends : (authorityLost || leaseExpiresMs.any (· ≤ last.due options) ||
      options.limitReached (last.failures + 1)) = false) :
    Waits options { last with failures := last.failures + 1 } (index + 1)
      (moment.advance options pattern) := by
  obtain ⟨grant, hgrant, hadvance⟩ := h.rejects hpattern
  obtain ⟨htracked, -, harmed, -, hlast, hrenewals, hnow⟩ := h
  have hretry := retryMs_pos options
  rw [hadvance]
  simp only [hthrows, hends, Bool.false_eq_true, if_false]
  rw [schedule_eq (by exact htracked.timer)]
  have hdue : last.due options + options.retryMs =
      Cadence.due options { last with failures := last.failures + 1 } := by
    simp only [Cadence.due, Cadence.gap]
    push_cast
    ring
  refine ⟨⟨Or.inr ⟨_, rfl, rfl⟩, htracked.acquisition⟩, ⟨grant, hgrant⟩, rfl, ⟨_, rfl, hdue⟩, rfl,
    hlast, by rw [hrenewals], ?_⟩
  rw [hnow, ← hdue]
  linarith

/-- Where the failure ends the grant, nothing is held or due after it. -/
theorem Flies.ends (h : Flies options last index moment) {authorityLost : Bool}
    {leaseExpiresMs : Option ℚ} {callbackThrows : Bool}
    (hpattern : pattern index = .fails authorityLost leaseExpiresMs callbackThrows)
    (hthrows : callbackThrows = false)
    (hends : (authorityLost || leaseExpiresMs.any (· ≤ last.due options) ||
      options.limitReached (last.failures + 1)) = true) :
    (moment.advance options pattern).Quiet ∧
      (moment.advance options pattern).lease.handle = none := by
  obtain ⟨grant, hgrant, hadvance⟩ := h.rejects hpattern
  rw [hadvance]
  simp only [hthrows, hends, Bool.false_eq_true, if_false, if_true]
  unfold markLost
  simp only [hgrant]
  rw [stopHeartbeat_eq (by exact h.tracked.timer)]
  exact ⟨⟨rfl, rfl⟩, rfl⟩

/-- Where `onRenewError` throws, the lease stays held and nothing is due. -/
theorem Flies.stays (h : Flies options last index moment) {authorityLost : Bool}
    {leaseExpiresMs : Option ℚ}
    (hpattern : pattern index = .fails authorityLost leaseExpiresMs true) :
    (moment.advance options pattern).Quiet ∧
      (moment.advance options pattern).lease.held = true := by
  obtain ⟨grant, hgrant, hadvance⟩ := h.rejects hpattern
  rw [hadvance]
  simp only [if_true]
  exact ⟨⟨rfl, h.armed⟩, by simp [SyncLease.held, hgrant]⟩

theorem Moment.Quiet.advance (h : moment.Quiet) : moment.advance options pattern = moment := by
  simp [Moment.advance, h.1, h.2]

theorem Moment.Quiet.next (h : moment.Quiet) : moment.next pattern = none := by
  simp [Moment.next, h.1, h.2]

theorem Waits.next (h : Waits options last index moment) :
    moment.next pattern = some (last.due options) := by
  obtain ⟨timer, harmed, hdue⟩ := h.armed
  simp [Moment.next, h.renews, harmed, hdue]

theorem Flies.next (h : Flies options last index moment) (pattern : Nat → RenewOutcome) :
    moment.next pattern =
      match pattern index with
      | .succeeds duration => some (last.due options + duration)
      | .fails _ _ _ => some (last.due options)
      | .hangs => none := by
  obtain ⟨grant, -, hrenews⟩ := h.held
  simp only [Moment.next, hrenews, h.renewals, h.now]

theorem waits_adopted (options : LeaseOptions) (pattern : Nat → RenewOutcome) (wait : NNRat)
    (fencingToken : Nat) :
    Waits options { lastStart := 0, lasted := wait, failures := 0 } 0
      (SyncLease.moment options pattern wait fencingToken 0) := by
  have hlease : (SyncLease.moment options pattern wait fencingToken 0).lease =
      { handle := some { serial := 0, fencingToken := fencingToken }
        timer := some 0
        armed := [{ id := 0, due := wait + options.renewIntervalMs }]
        timers := 1, grants := 1, lockCalls := [attemptWaitMs], results := [.held]
        history := [.granted 0] } := by
    have hbudget : ¬ attemptWaitMs ≤ 0 := by norm_num [attemptWaitMs]
    simp [SyncLease.moment, step, call, acquire, held, attempt, hbudget, adopt, schedule,
      stopHeartbeat, settleAcquire]
  have hpos := options.interval_pos
  refine ⟨?_, ?_, ?_, ?_, ?_, rfl, rfl, ?_⟩
  · exact Run.preserved (fun _ event h => h.step event) _ tracked_initial
  · exact ⟨_, by rw [hlease]⟩
  · rw [hlease]
  · exact ⟨_, by rw [hlease], by simp [Cadence.due, Cadence.gap]⟩
  · rw [hlease]
  · simp only [SyncLease.moment, Cadence.due, Cadence.gap, Nat.cast_zero, zero_mul]
    linarith

end Steps

section Timelines

variable {options : LeaseOptions} {pattern : Nat → RenewOutcome} {wait : NNRat}
  (fencingToken : Nat)

/-- Two moments to a renewal: the timer is armed, then the renewal is in flight. -/
theorem waits_moment (index : Nat) {last : Cadence}
    (hlast : cadence options pattern wait index = some last) :
    Waits options last index (moment options pattern wait fencingToken (2 * index)) := by
  induction index generalizing last with
  | zero =>
      cases hlast
      exact waits_adopted options pattern wait fencingToken
  | succ index ih =>
      obtain ⟨before, hbefore, hnext⟩ := Option.bind_eq_some_iff.mp hlast
      have hflies := (ih hbefore).advance pattern
      cases hpattern : pattern index with
      | succeeds duration =>
          simp only [hpattern, Option.some.injEq] at hnext
          rw [← hnext]
          exact hflies.succeeds hpattern
      | fails authorityLost leaseExpiresMs callbackThrows =>
          simp only [hpattern, Option.ite_none_left_eq_some, Option.some.injEq] at hnext
          obtain ⟨hgoes, rfl⟩ := hnext
          have hthrows : callbackThrows = false := by
            by_contra hthrows
            simp [hthrows] at hgoes
          exact hflies.retries hpattern hthrows (by simpa [hthrows] using hgoes)
      | hangs => simp [hpattern] at hnext

theorem flies_moment (index : Nat) {last : Cadence}
    (hlast : cadence options pattern wait index = some last) :
    Flies options last index (moment options pattern wait fencingToken (2 * index + 1)) :=
  (waits_moment fencingToken index hlast).advance pattern

/-- A moment that lasts while the lease is held lasts until the time to live at most. -/
theorem next_due_of_ends (h : EndsWithTtl options pattern wait fencingToken) (index : Nat)
    (hheld : (moment options pattern wait fencingToken index).lease.held = true)
    (hlasts : ∀ next ∈ (moment options pattern wait fencingToken index).next pattern,
      (moment options pattern wait fencingToken index).now < next) :
    ∃ next ∈ (moment options pattern wait fencingToken index).next pattern,
      next ≤ (moment options pattern wait fencingToken index).lastStart + options.ttlMs := by
  by_contra hnone
  have hlater : ∀ next ∈ (moment options pattern wait fencingToken index).next pattern,
      (moment options pattern wait fencingToken index).lastStart + options.ttlMs < next := by
    intro next hnext
    by_contra hle
    exact hnone ⟨next, hnext, not_lt.mp hle⟩
  have hends := h index
    (max (moment options pattern wait fencingToken index).now
      ((moment options pattern wait fencingToken index).lastStart + options.ttlMs))
    ⟨le_max_left _ _, fun next hnext => max_lt (hlasts next hnext) (hlater next hnext)⟩
    (le_max_right _ _)
  rw [hheld] at hends
  exact absurd hends.1 (by simp)

/-- A lease that is held with nothing due outlives its time to live. -/
theorem next_ne_none_of_ends (h : EndsWithTtl options pattern wait fencingToken) (index : Nat)
    (hheld : (moment options pattern wait fencingToken index).lease.held = true) :
    (moment options pattern wait fencingToken index).next pattern ≠ none := by
  intro hnone
  obtain ⟨next, hmem, -⟩ := next_due_of_ends fencingToken h index hheld (by
    rw [hnone]
    rintro next ⟨⟩)
  rw [hnone] at hmem
  cases hmem

theorem Waits.lease_held {last : Cadence} {index : Nat} {moment : Moment}
    (h : Waits options last index moment) : moment.lease.held = true := by
  obtain ⟨grant, hgrant⟩ := h.held
  simp [SyncLease.held, hgrant]

theorem Flies.lease_held {last : Cadence} {index : Nat} {moment : Moment}
    (h : Flies options last index moment) : moment.lease.held = true := by
  obtain ⟨grant, hgrant, -⟩ := h.held
  simp [SyncLease.held, hgrant]

theorem renewsInTime_of_ends (h : EndsWithTtl options pattern wait fencingToken) :
    RenewsInTime options pattern wait := by
  intro index last hlast
  have hwaits := waits_moment fencingToken index hlast
  have hflies := flies_moment fencingToken index hlast
  have hgap : last.gap options ≤ options.ttlMs := by
    obtain ⟨next, hnext, hle⟩ := next_due_of_ends fencingToken h _ hwaits.lease_held (by
      rw [hwaits.next]
      rintro next ⟨⟩
      exact hwaits.before)
    rw [hwaits.next, Option.mem_some_iff] at hnext
    rw [← hnext, hwaits.lastStart, Cadence.due] at hle
    linarith
  have hnext := hflies.next pattern
  cases hpattern : pattern index with
  | succeeds duration =>
      simp only [hpattern] at hnext ⊢
      by_contra hlate
      have hpos : last.due options < last.due options + duration := by
        linarith [not_le.mp hlate]
      obtain ⟨next, hmem, hle⟩ := next_due_of_ends fencingToken h _ hflies.lease_held (by
        rw [hnext, hflies.now]
        rintro next ⟨⟩
        exact hpos)
      rw [hnext, Option.mem_some_iff] at hmem
      rw [← hmem, hflies.lastStart, Cadence.due] at hle
      linarith [not_le.mp hlate]
  | fails authorityLost leaseExpiresMs callbackThrows =>
      refine ⟨?_, hgap⟩
      by_contra hthrows
      rw [Bool.not_eq_false] at hthrows
      rw [hthrows] at hpattern
      -- The callback's error ends the beat: the lease stays held with nothing due.
      obtain ⟨hquiet, hheld⟩ := hflies.stays hpattern
      exact next_ne_none_of_ends fencingToken h (2 * index + 2) hheld hquiet.next
  | hangs =>
      simp only [hpattern] at hnext
      exact next_ne_none_of_ends fencingToken h _ hflies.lease_held hnext

/-- After a renewal the next one comes, or nothing is due: the renewal hangs, or its
failure ends the beat, by what the callback throws or with the grant. -/
theorem cadence_or_quiet {index : Nat} {last : Cadence}
    (hlast : cadence options pattern wait index = some last) :
    (∃ next, cadence options pattern wait (index + 1) = some next) ∨
      pattern index = .hangs ∨
      ((moment options pattern wait fencingToken (2 * index + 2)).Quiet ∧
        ((∃ authorityLost leaseExpiresMs,
            pattern index = .fails authorityLost leaseExpiresMs true) ∨
          (moment options pattern wait fencingToken (2 * index + 2)).lease.handle = none)) := by
  have hflies := flies_moment fencingToken index hlast
  cases hpattern : pattern index with
  | succeeds duration =>
      refine Or.inl ⟨{ lastStart := last.due options, lasted := duration, failures := 0 }, ?_⟩
      simp [cadence, hlast, hpattern]
  | fails authorityLost leaseExpiresMs callbackThrows =>
      cases callbackThrows with
      | true =>
          exact Or.inr (Or.inr ⟨(hflies.stays hpattern).1, Or.inl ⟨_, _, rfl⟩⟩)
      | false =>
          by_cases hends : (authorityLost || leaseExpiresMs.any (· ≤ last.due options) ||
              options.limitReached (last.failures + 1)) = true
          · obtain ⟨hquiet, hnone⟩ := hflies.ends hpattern rfl hends
            exact Or.inr (Or.inr ⟨hquiet, Or.inr hnone⟩)
          · refine Or.inl ⟨{ last with failures := last.failures + 1 }, ?_⟩
            simp only [cadence, hlast, Option.bind_some, hpattern, Bool.false_or]
            rw [if_neg hends]
  | hangs => exact Or.inr (Or.inl rfl)

/-- Where every renewal is in time, the grant is held with a renewal to come, or it
is gone. -/
theorem RenewsInTime.reaches (h : RenewsInTime options pattern wait) (index : Nat) :
    (∃ last, cadence options pattern wait index = some last) ∨
      ((moment options pattern wait fencingToken (2 * index)).Quiet ∧
        (moment options pattern wait fencingToken (2 * index)).lease.handle = none) := by
  induction index with
  | zero => exact Or.inl ⟨_, rfl⟩
  | succ index ih =>
      rcases ih with ⟨last, hlast⟩ | ⟨hquiet, hnone⟩
      · have htime := h index last hlast
        rcases cadence_or_quiet fencingToken hlast with
          hnext | hhangs | ⟨hquiet, ⟨authorityLost, leaseExpiresMs, hthrows⟩ | hnone⟩
        · exact Or.inl hnext
        · simp [hhangs] at htime
        · simp [hthrows] at htime
        · exact Or.inr ⟨hquiet, hnone⟩
      · have hnext : moment options pattern wait fencingToken (2 * (index + 1)) =
            moment options pattern wait fencingToken (2 * index) :=
          (congrArg _ hquiet.advance).trans hquiet.advance
        rw [hnext]
        exact Or.inr ⟨hquiet, hnone⟩

/-- A renewal that is in time is due within the time to live. -/
theorem RenewsInTime.gap_le (h : RenewsInTime options pattern wait) {index : Nat}
    {last : Cadence} (hlast : cadence options pattern wait index = some last) :
    last.gap options ≤ options.ttlMs := by
  have htime := h index last hlast
  cases hpattern : pattern index with
  | succeeds duration =>
      simp only [hpattern] at htime
      have hpos : (0 : ℚ) ≤ duration := duration.2
      linarith
  | fails authorityLost leaseExpiresMs callbackThrows =>
      simp only [hpattern] at htime
      exact htime.2
  | hangs => simp [hpattern] at htime

theorem ends_of_renewsInTime (h : RenewsInTime options pattern wait) :
    EndsWithTtl options pattern wait fencingToken := by
  intro index time hlasts httl
  have hmoment : index = 2 * (index / 2) ∨ index = 2 * (index / 2) + 1 := by omega
  generalize index / 2 = half at hmoment
  rcases h.reaches fencingToken half with ⟨last, hlast⟩ | ⟨hquiet, hnone⟩
  · exfalso
    have htime := h half last hlast
    have hgap := h.gap_le hlast
    rcases hmoment with rfl | rfl
    · have hwaits := waits_moment fencingToken half hlast
      have hbefore := hlasts.2 _ (by rw [hwaits.next]; rfl)
      rw [hwaits.lastStart] at httl
      simp only [Cadence.due] at hbefore
      linarith
    · have hflies := flies_moment fencingToken half hlast
      have hnext := hflies.next pattern
      rw [hflies.lastStart] at httl
      cases hpattern : pattern half with
      | succeeds duration =>
          simp only [hpattern] at hnext htime
          have hbefore := hlasts.2 _ hnext
          simp only [Cadence.due] at hbefore
          linarith
      | fails authorityLost leaseExpiresMs callbackThrows =>
          simp only [hpattern] at hnext
          have hbefore := hlasts.2 _ hnext
          have hafter := hlasts.1
          rw [hflies.now] at hafter
          linarith
      | hangs => simp [hpattern] at htime
  · have hgone : (moment options pattern wait fencingToken index).lease.handle = none := by
      rcases hmoment with rfl | rfl
      · exact hnone
      · have hnext : moment options pattern wait fencingToken (2 * half + 1) =
            moment options pattern wait fencingToken (2 * half) := hquiet.advance
        rw [hnext]
        exact hnone
    exact ⟨by simp [SyncLease.held, hgone], by simp [SyncLease.fencingToken, hgone]⟩

/-- The lease is never reported held past its time to live exactly where every
renewal that is made settles, and is due, or done where it succeeds, in time. -/
theorem ends_with_ttl_iff (options : LeaseOptions) (pattern : Nat → RenewOutcome)
    (wait : NNRat) (fencingToken : Nat) :
    EndsWithTtl options pattern wait fencingToken ↔ RenewsInTime options pattern wait :=
  ⟨renewsInTime_of_ends fencingToken, ends_of_renewsInTime fencingToken⟩

/-- The first renewal never settles. -/
theorem hanging_renewal_keeps_the_lease :
    ¬ EndsWithTtl LeaseOptions.default (fun _ => .hangs) 0 7 :=
  fun hends => renewsInTime_of_ends 7 hends 0 _ rfl

section Covers

/-- The shortest time between two renewals. -/
def pace (options : LeaseOptions) : ℚ := min options.renewIntervalMs options.retryMs

theorem pace_pos (options : LeaseOptions) : 0 < pace options :=
  lt_min options.interval_pos (retryMs_pos options)

theorem due_pace {index : Nat} {last next : Cadence}
    (hlast : cadence options pattern wait index = some last)
    (hnext : cadence options pattern wait (index + 1) = some next) :
    last.due options + pace options ≤ next.due options := by
  have hinterval : pace options ≤ options.renewIntervalMs := min_le_left _ _
  have hretry : pace options ≤ options.retryMs := min_le_right _ _
  simp only [cadence, hlast, Option.bind_some] at hnext
  cases hpattern : pattern index with
  | succeeds duration =>
      have hpos : (0 : ℚ) ≤ duration := duration.2
      simp only [hpattern, Option.some.injEq] at hnext
      rw [← hnext]
      simp only [Cadence.due, Cadence.gap, Nat.cast_zero, zero_mul]
      linarith
  | fails authorityLost leaseExpiresMs callbackThrows =>
      simp only [hpattern, Option.ite_none_left_eq_some, Option.some.injEq] at hnext
      rw [← hnext.2]
      simp only [Cadence.due, Cadence.gap]
      push_cast
      linarith
  | hangs => simp [hpattern] at hnext

theorem le_due (index : Nat) {last : Cadence}
    (hlast : cadence options pattern wait index = some last) :
    index * pace options ≤ last.due options := by
  induction index generalizing last with
  | zero =>
      cases hlast
      have hpos := options.interval_pos
      have hwait : (0 : ℚ) ≤ wait := wait.2
      simp only [Cadence.due, Cadence.gap, Nat.cast_zero, zero_mul]
      linarith
  | succ index ih =>
      obtain ⟨before, hbefore, -⟩ := Option.bind_eq_some_iff.mp hlast
      have hle := ih hbefore
      have hstep := due_pace hbefore hlast
      push_cast
      linarith

/-- The timeline goes through its renewals, or comes to a moment after which
nothing is due. -/
theorem cadence_or_last (options : LeaseOptions) (pattern : Nat → RenewOutcome) (wait : NNRat)
    (index : Nat) :
    (∃ last, cadence options pattern wait index = some last) ∨
      ∃ final, (moment options pattern wait fencingToken final).next pattern = none := by
  induction index with
  | zero => exact Or.inl ⟨_, rfl⟩
  | succ index ih =>
      rcases ih with ⟨last, hlast⟩ | hfinal
      · rcases cadence_or_quiet fencingToken hlast with hnext | hhangs | ⟨hquiet, -⟩
        · exact Or.inl hnext
        · refine Or.inr ⟨2 * index + 1, ?_⟩
          rw [(flies_moment fencingToken index hlast).next]
          simp [hhangs]
        · exact Or.inr ⟨2 * index + 2, hquiet.next⟩
      · exact Or.inr hfinal

theorem advance_now {moment : Moment} {next : ℚ} (hnext : next ∈ moment.next pattern) :
    (moment.advance options pattern).now = next := by
  cases hrenews : moment.lease.renews with
  | cons serial rest =>
      cases hpattern : pattern moment.renewals with
      | succeeds duration =>
          simpa [Moment.next, Moment.advance, hrenews, hpattern] using hnext
      | fails authorityLost leaseExpiresMs callbackThrows =>
          simpa [Moment.next, Moment.advance, hrenews, hpattern] using hnext
      | hangs => simp [Moment.next, hrenews, hpattern] at hnext
  | nil =>
      cases harmed : moment.lease.armed with
      | cons timer rest => simpa [Moment.next, Moment.advance, hrenews, harmed] using hnext
      | nil => simp [Moment.next, hrenews, harmed] at hnext

/-- Every time from the grant on belongs to a moment of the timeline. -/
theorem lasts_at (options : LeaseOptions) (pattern : Nat → RenewOutcome) (wait : NNRat)
    (time : ℚ) (hwait : wait ≤ time) :
    ∃ index, (moment options pattern wait fencingToken index).Lasts pattern time := by
  have hlater : ∃ index, ∀ next ∈ (moment options pattern wait fencingToken index).next pattern,
      time < next := by
    obtain ⟨count, hcount⟩ := exists_nat_gt (time / pace options)
    rcases cadence_or_last fencingToken options pattern wait count with
      ⟨last, hlast⟩ | ⟨final, hfinal⟩
    · refine ⟨2 * count, ?_⟩
      rw [(waits_moment fencingToken count hlast).next]
      rintro next ⟨⟩
      exact lt_of_lt_of_le ((div_lt_iff₀ (pace_pos options)).mp hcount) (le_due count hlast)
    · refine ⟨final, ?_⟩
      rw [hfinal]
      rintro next ⟨⟩
  classical
  -- The first such moment: the one before it was over by then.
  refine ⟨Nat.find hlater, ?_, Nat.find_spec hlater⟩
  cases hfirst : Nat.find hlater with
  | zero => exact hwait
  | succ index =>
      have hover := Nat.find_min hlater (m := index) (by omega)
      obtain ⟨next, hnext, hle⟩ : ∃ next ∈
          (moment options pattern wait fencingToken index).next pattern, next ≤ time := by
        by_contra hnone
        refine hover fun next hnext => ?_
        by_contra hlt
        exact hnone ⟨next, hnext, not_lt.mp hlt⟩
      have hnow : (moment options pattern wait fencingToken (index + 1)).now = next :=
        advance_now hnext
      rw [hnow]
      exact hle

end Covers

end Timelines

end SyncLease

end ZedSync.Js
