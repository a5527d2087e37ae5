import Mathlib.Algebra.Order.Floor.Semiring
import Mathlib.Algebra.Order.Ring.Rat
import Mathlib.Tactic.Linarith
import ZedSync.Js.Lease

/-!
One `acquire` of `sdk/src/lease.mjs` in time. The readings of `Date.now()` never go back
and the timer of a pause never fires early, by construction: each reading is the last one
and some gap, and the first after a pause is past its end. The lock client answers every
call as it likes, after any delay, and the rest of the application runs in between. Each
attempt that times out moves the loop on by the pacing floor or to the deadline, which
bounds the calls.
-/

namespace ZedSync.Js

namespace SyncLease

/-- A turn that is none of the acquisition's. -/
inductive Meanwhile where
  | call (made : LeaseCall)
  | timerFires (id : Nat)
  | renewResolves (serial : Nat) (now : ℚ)
  | renewRejects (serial : Nat) (now : ℚ) (failure : RenewFailure)
  | releaseSettles (serial : Nat)

def Meanwhile.event : Meanwhile → Event
  | .call made => .call made
  | .timerFires id => .timerFires id
  | .renewResolves serial now => .renewResolves serial now
  | .renewRejects serial now failure => .renewRejects serial now failure
  | .releaseSettles serial => .releaseSettles serial

/-- How a `lock` call settles: a handle, a `LockTimeoutError`, by which time the caller's
signal may be aborted, or another error. -/
inductive LockAnswer where
  | granted (fencingToken : Nat)
  | timesOut (aborted : Bool)
  | fails

/-- What ends one wait of the acquisition: turns of others, the answer of a `lock` call it
may be waiting for, and the gaps before the readings of the clock that follow. -/
structure LockTurn where
  meanwhile : List Meanwhile
  answer : LockAnswer
  gaps : Nat → ℚ≥0

/-- The readings after a time. -/
def reading (time : ℚ) (gaps : Nat → ℚ≥0) : Nat → ℚ
  | 0 => time + gaps 0
  | n + 1 => reading time gaps n + gaps (n + 1)

theorem reading_zero_le (time : ℚ) (gaps : Nat → ℚ≥0) : time ≤ reading time gaps 0 := by
  have hgap : (0 : ℚ) ≤ gaps 0 := (gaps 0).coe_nonneg
  simp only [reading]
  linarith

theorem reading_le_succ (time : ℚ) (gaps : Nat → ℚ≥0) (n : Nat) :
    reading time gaps n ≤ reading time gaps (n + 1) := by
  have hgap : (0 : ℚ) ≤ gaps (n + 1) := (gaps (n + 1)).coe_nonneg
  simp only [reading]
  linarith

/-- The pause after an attempt that timed out, as `attemptTimedOut` computes it. -/
def pauseMs (deadline : Option ℚ) (elapsed now : ℚ) : ℚ :=
  deadline.elim (retryFloorMs - elapsed) fun deadline =>
    min (retryFloorMs - elapsed) (max 0 (deadline - now))

/-- A pause ends past the pacing floor or past the deadline. -/
theorem pauseMs_reaches {begun first now : ℚ} (hle : first ≤ now) (deadline : ℚ) :
    begun + retryFloorMs ≤ now + pauseMs (some deadline) (first - begun) now ∨
      deadline ≤ now + pauseMs (some deadline) (first - begun) now := by
  simp only [pauseMs, Option.elim_some]
  rcases min_choice (retryFloorMs - (first - begun)) (max 0 (deadline - now)) with hfloor | hlast
  · left
    rw [hfloor]
    linarith
  · right
    rw [hlast]
    have hmax := le_max_right 0 (deadline - now)
    linarith

/-- Where there is no pause, the floor or the deadline is reached already. -/
theorem reached_of_no_pause {begun first now deadline : ℚ} (hle : first ≤ now)
    (h : ¬ (first - begun < retryFloorMs ∧ 0 < pauseMs (some deadline) (first - begun) now)) :
    begun + retryFloorMs ≤ now ∨ deadline ≤ now := by
  by_cases hslow : retryFloorMs ≤ first - begun
  · left
    linarith
  · right
    have hnone := fun hpos => h ⟨not_le.mp hslow, hpos⟩
    simp only [pauseMs, Option.elim_some, lt_min_iff, lt_max_iff] at hnone
    by_contra hearly
    exact hnone ⟨by linarith, Or.inr (by linarith)⟩

/-- An attempt that timed out while the caller still waits. -/
theorem attemptTimedOut_eq (lease : SyncLease) (index : Nat) (started : ℚ) (deadline : Option ℚ)
    (attemptStarted : ℚ) (clock : Nat → ℚ) :
    lease.attemptTimedOut index started deadline attemptStarted false clock =
      if clock 0 - attemptStarted < retryFloorMs ∧
          0 < pauseMs deadline (clock 0 - attemptStarted) (clock 1) then
        { lease with acquisitions := lease.acquisitions.set index (.pacing started deadline) }
      else lease.attempt index started deadline fun reading => clock (reading + 2) := rfl

/-- A lease in time: the last reading, the earliest end of a pause, and the readings that
the budgets of the `lock` calls were computed with, newest first. -/
structure Timeline where
  lease : SyncLease
  now : ℚ
  wake : ℚ
  budgeted : List ℚ

/-- The readings with one more where a step made a `lock` call. -/
def budgetedAfter (before after : SyncLease) (head : ℚ) (budgeted : List ℚ) : List ℚ :=
  if before.lockCalls.length < after.lockCalls.length then head :: budgeted else budgeted

/-- `acquire`, up to its first wait. -/
def Timeline.begin (lease : SyncLease) (maxWaitMs now : ℚ) (gaps : Nat → ℚ≥0) : Timeline :=
  let clock := reading now gaps
  let next := lease.acquire (some maxWaitMs) clock
  { lease := next, now := clock 2, wake := clock 2
    budgeted := budgetedAfter lease next (clock 1) [] }

/-- The acquisition from one wait to the next. -/
def Timeline.turn (options : LeaseOptions) (line : Timeline) (turn : LockTurn) : Timeline :=
  let lease := (turn.meanwhile.map Meanwhile.event).foldl (step options) line.lease
  match lease.acquisitions with
  | [.locking _ deadline attemptStarted] =>
      let clock := reading line.now turn.gaps
      match turn.answer with
      | .granted fencingToken =>
          { line with lease := step options lease (.lockResolves 0 (clock 0) fencingToken) }
      | .timesOut aborted =>
          let next := step options lease (.lockTimesOut 0 aborted clock)
          { lease := next, now := clock 3
            wake := clock 1 + pauseMs deadline (clock 0 - attemptStarted) (clock 1)
            budgeted := budgetedAfter lease next (clock 2) line.budgeted }
      | .fails => { line with lease := step options lease (.lockFails 0) }
  | [.pacing _ _] =>
      let clock := reading (max line.now line.wake) turn.gaps
      let next := step options lease (.pauseEnds 0 clock)
      { lease := next, now := clock 1, wake := line.wake
        budgeted := budgetedAfter lease next (clock 0) line.budgeted }
  | _ => { line with lease := lease }

/-- The acquisition after so many waits. -/
def Timeline.after (options : LeaseOptions) (start : Timeline) (client : Nat → LockTurn) :
    Nat → Timeline
  | 0 => start
  | n + 1 => (Timeline.after options start client n).turn options (client n)

/-- No acquisition is in progress. -/
def Free (lease : SyncLease) : Prop := lease.acquiring = false ∧ lease.acquisitions = []

/-- An acquisition waits, with no grant beside it. -/
structure Awaits (lease : SyncLease) (acquisition : Acquisition) : Prop where
  acquiring : lease.acquiring = true
  ungranted : lease.handle = none
  waiting : lease.acquisitions = [acquisition]

/-- What a waiting acquisition depends on is the same. -/
structure SameWait (before after : SyncLease) : Prop where
  acquiring : after.acquiring = before.acquiring
  handle : after.handle = before.handle
  acquisitions : after.acquisitions = before.acquisitions
  lockCalls : after.lockCalls = before.lockCalls

theorem SameWait.trans {first second third : SyncLease} (h : SameWait first second)
    (hnext : SameWait second third) : SameWait first third :=
  ⟨hnext.acquiring.trans h.acquiring, hnext.handle.trans h.handle,
    hnext.acquisitions.trans h.acquisitions, hnext.lockCalls.trans h.lockCalls⟩

theorem Awaits.same {before after : SyncLease} {acquisition : Acquisition}
    (h : before.Awaits acquisition) (hsame : SameWait before after) : after.Awaits acquisition :=
  ⟨hsame.acquiring.trans h.acquiring, hsame.handle.trans h.ungranted,
    hsame.acquisitions.trans h.waiting⟩

theorem stopHeartbeat_sameWait (lease : SyncLease) : SameWait lease lease.stopHeartbeat := by
  unfold stopHeartbeat
  split
  · exact ⟨rfl, rfl, rfl, rfl⟩
  · exact ⟨rfl, rfl, rfl, rfl⟩

/-- Turns of others leave a waiting acquisition and its `lock` calls as they are. -/
theorem Awaits.other {lease : SyncLease} {acquisition : Acquisition}
    (h : lease.Awaits acquisition) (options : LeaseOptions) (other : Meanwhile) :
    SameWait lease (step options lease other.event) := by
  obtain ⟨hacquiring, hnone, -⟩ := h
  cases other with
  | call made =>
      cases made with
      | acquire maxWaitMs clock =>
          have hrefused : lease.acquire maxWaitMs clock =
              { lease with results := .alreadyInProgress :: lease.results } := by
            simp [acquire, held, hnone, hacquiring]
          simp only [Meanwhile.event, step, call, hrefused]
          exact ⟨rfl, rfl, rfl, rfl⟩
      | tryAcquire =>
          have hrefused : lease.tryAcquire =
              { lease with results := .alreadyInProgress :: lease.results } := by
            simp [tryAcquire, held, hnone, hacquiring]
          simp only [Meanwhile.event, step, call, hrefused]
          exact ⟨rfl, rfl, rfl, rfl⟩
      | release =>
          have hreleased : lease.release = lease.stopHeartbeat := by
            simp [release, hnone]
          simp only [Meanwhile.event, step, call, hreleased]
          exact stopHeartbeat_sameWait lease
  | timerFires id =>
      simp only [Meanwhile.event, step]
      split
      · simp only [beat, hnone]
        exact ⟨rfl, hnone.symm, rfl, rfl⟩
      · exact ⟨rfl, rfl, rfl, rfl⟩
  | renewResolves serial now =>
      simp only [Meanwhile.event, step]
      split
      · simp only [renewResolved, owns, hnone, Option.any_none, Bool.false_eq_true, if_false]
        exact ⟨rfl, hnone.symm, rfl, rfl⟩
      · exact ⟨rfl, rfl, rfl, rfl⟩
  | renewRejects serial now failure =>
      simp only [Meanwhile.event, step]
      split
      · simp only [renewRejected, owns, hnone, Option.any_none, Bool.false_eq_true, if_false]
        exact ⟨rfl, hnone.symm, rfl, rfl⟩
      · exact ⟨rfl, rfl, rfl, rfl⟩
  | releaseSettles serial => exact ⟨rfl, rfl, rfl, rfl⟩

theorem Awaits.others {lease : SyncLease} {acquisition : Acquisition}
    (h : lease.Awaits acquisition) (options : LeaseOptions) (others : List Meanwhile) :
    SameWait lease ((others.map Meanwhile.event).foldl (step options) lease) := by
  induction others generalizing lease with
  | nil => exact ⟨rfl, rfl, rfl, rfl⟩
  | cons other others ih =>
      have hfirst := h.other options other
      exact hfirst.trans (ih (h.same hfirst))

theorem adopt_acquisition (options : LeaseOptions) (lease : SyncLease) (now : ℚ)
    (fencingToken : Nat) :
    (lease.adopt options now fencingToken).acquisitions = lease.acquisitions ∧
      (lease.adopt options now fencingToken).lockCalls = lease.lockCalls ∧
      (lease.adopt options now fencingToken).handle.isSome = true := by
  let granted : SyncLease :=
    { lease with
      handle := some { serial := lease.grants, fencingToken := fencingToken }
      failures := 0
      grants := lease.grants + 1
      history := .granted lease.grants :: lease.history }
  have hsame : SameWait granted granted.stopHeartbeat := stopHeartbeat_sameWait granted
  refine ⟨hsame.acquisitions, hsame.lockCalls, ?_⟩
  change granted.stopHeartbeat.handle.isSome = true
  rw [hsame.handle]
  rfl

/-- The most `lock` calls an acquisition makes. -/
def callBound (maxWaitMs : ℚ) : Nat := ⌈maxWaitMs / retryFloorMs⌉₊

section Acquisition

variable (maxWaitMs started : ℚ) (calls : List ℚ)

/-- The calls made since the start, each within the budget left at the reading before it. -/
def Made (lockCalls budgeted : List ℚ) (count : Nat) : Prop :=
  ∃ made, lockCalls = made ++ calls ∧ made.length = count ∧
    List.Forall₂ (fun wait head => wait ≤ started + maxWaitMs - head) made budgeted

/-- The acquisition has settled: it holds the lease and says so, or does neither, and
leaves the way free for another. -/
structure Ended (line : Timeline) : Prop where
  free : line.lease.Free
  made : ∃ count, count ≤ callBound maxWaitMs ∧
    Made maxWaitMs started calls line.lease.lockCalls line.budgeted count
  result : ∃ result results, line.lease.results = result :: results ∧
    ((result = .held ∧ line.lease.held = true) ∨ (result ≠ .held ∧ line.lease.held = false))

/-- Where an acquisition is, with a bound on the waits it still has. -/
inductive Phase : Nat → Timeline → Prop where
  | locking {line : Timeline} (count : Nat) (attemptStarted : ℚ)
      (hwaits : line.lease.Awaits
        (.locking started (some (started + maxWaitMs)) attemptStarted))
      (hmade : Made maxWaitMs started calls line.lease.lockCalls line.budgeted (count + 1))
      (hcount : count + 1 ≤ callBound maxWaitMs)
      (hpaced : started + retryFloorMs * count ≤ attemptStarted)
      (hnow : attemptStarted ≤ line.now) :
      Phase (2 * (callBound maxWaitMs - count)) line
  | pacing {line : Timeline} (count : Nat)
      (hwaits : line.lease.Awaits (.pacing started (some (started + maxWaitMs))))
      (hmade : Made maxWaitMs started calls line.lease.lockCalls line.budgeted count)
      (hcount : count ≤ callBound maxWaitMs)
      (hwake : started + retryFloorMs * count ≤ line.wake ∨
        started + maxWaitMs ≤ line.wake) :
      Phase (2 * (callBound maxWaitMs - count) + 1) line
  | ended {line : Timeline} (hended : Ended maxWaitMs started calls line) : Phase 0 line

variable {maxWaitMs started : ℚ} {calls : List ℚ}

/-- A call before the deadline, paced after so many, is within the bound. -/
theorem count_lt_callBound {count : Nat} {head : ℚ} (hpaced : started + retryFloorMs * count ≤ head)
    (hbefore : head < started + maxWaitMs) : count + 1 ≤ callBound maxWaitMs := by
  have hfloor : (0 : ℚ) < retryFloorMs := by norm_num [retryFloorMs]
  have hlt : (count : ℚ) < maxWaitMs / retryFloorMs := by
    rw [lt_div_iff₀ hfloor]
    linarith
  exact Nat.succ_le_of_lt (Nat.lt_ceil.mpr hlt)

/-- A rejection leaves the lease free and not held. -/
theorem Awaits.rejected {lease : SyncLease} {acquisition : Acquisition}
    (h : lease.Awaits acquisition) {budgeted : List ℚ} {count : Nat}
    (hmade : Made maxWaitMs started calls lease.lockCalls budgeted count)
    (hcount : count ≤ callBound maxWaitMs) {result : AcquireResult} (hresult : result ≠ .held)
    (now wake : ℚ) :
    Ended maxWaitMs started calls
      { lease := lease.settleAcquire 0 result, now := now, wake := wake
        budgeted := budgeted } where
  free := ⟨rfl, by simp [settleAcquire, h.waiting]⟩
  made := ⟨count, hcount, hmade⟩
  result := ⟨_, _, rfl, Or.inr ⟨hresult, by simp [held, settleAcquire, h.ungranted]⟩⟩

/-- The head of the loop: the deadline ends the acquisition, or it makes its next call. -/
theorem Awaits.attempt {lease : SyncLease} {acquisition : Acquisition}
    (h : lease.Awaits acquisition) (clock : Nat → ℚ) {budgeted : List ℚ} {count : Nat}
    (hmade : Made maxWaitMs started calls lease.lockCalls budgeted count)
    (hcount : count ≤ callBound maxWaitMs)
    (hhead : started + retryFloorMs * count ≤ clock 0 ∨ started + maxWaitMs ≤ clock 0)
    (hclock : clock 0 ≤ clock 1) {now : ℚ} (hnow : clock 1 ≤ now) (wake : ℚ) :
    let next := lease.attempt 0 started (some (started + maxWaitMs)) clock
    ∃ left, left ≤ 2 * (callBound maxWaitMs - count) ∧
      Phase maxWaitMs started calls left
        { lease := next, now := now, wake := wake
          budgeted := budgetedAfter lease next (clock 0) budgeted } := by
  intro next
  by_cases hspent : started + maxWaitMs - clock 0 ≤ 0
  · have hnext : next = lease.settleAcquire 0 (.timedOut (clock 1 - started)) := by
      simp [next, SyncLease.attempt, hspent]
    have hbudgeted : budgetedAfter lease next (clock 0) budgeted = budgeted := by
      simp [hnext, budgetedAfter, settleAcquire]
    rw [hbudgeted, hnext]
    exact ⟨0, Nat.zero_le _, .ended (h.rejected hmade hcount (by simp) now wake)⟩
  · have hnext : next =
        { lease with
          acquisitions := [.locking started (some (started + maxWaitMs)) (clock 1)]
          lockCalls := min (started + maxWaitMs - clock 0) attemptWaitMs :: lease.lockCalls } := by
      simp [next, SyncLease.attempt, hspent, h.waiting]
    have hpaced : started + retryFloorMs * count ≤ clock 0 := by
      rcases hhead with hpaced | hpast
      · exact hpaced
      · exact absurd (sub_nonpos.mpr hpast) hspent
    have hbound : count + 1 ≤ callBound maxWaitMs := by
      apply count_lt_callBound hpaced
      linarith
    obtain ⟨made, hcalls, hlength, hbudgets⟩ := hmade
    refine ⟨2 * (callBound maxWaitMs - count), le_rfl,
      .locking count (clock 1) ?_ ?_ hbound (hpaced.trans hclock) hnow⟩
    · rw [hnext]
      exact ⟨h.acquiring, h.ungranted, rfl⟩
    · refine ⟨min (started + maxWaitMs - clock 0) attemptWaitMs :: made, ?_, ?_, ?_⟩
      · rw [hnext, hcalls, List.cons_append]
      · rw [List.length_cons, hlength]
      · rw [hnext]
        simp only [budgetedAfter, List.length_cons, Nat.lt_succ_self, if_true]
        exact .cons (min_le_left _ _) hbudgets

/-- An attempt that timed out: the caller gave up, the loop pauses, or it goes on. A pause
ends past the pacing floor or past the deadline, and without one the loop is there. -/
theorem Awaits.timedOut {lease : SyncLease} {attemptStarted : ℚ}
    (h : lease.Awaits (.locking started (some (started + maxWaitMs)) attemptStarted))
    {budgeted : List ℚ} {count : Nat}
    (hmade : Made maxWaitMs started calls lease.lockCalls budgeted (count + 1))
    (hcount : count + 1 ≤ callBound maxWaitMs)
    (hpaced : started + retryFloorMs * count ≤ attemptStarted) (aborted : Bool) (time : ℚ)
    (gaps : Nat → ℚ≥0) :
    let clock := reading time gaps
    let next := lease.attemptTimedOut 0 started (some (started + maxWaitMs)) attemptStarted
      aborted clock
    let pause := pauseMs (some (started + maxWaitMs)) (clock 0 - attemptStarted) (clock 1)
    ∃ left, left < 2 * (callBound maxWaitMs - count) ∧
      Phase maxWaitMs started calls left
        { lease := next, now := clock 3, wake := clock 1 + pause
          budgeted := budgetedAfter lease next (clock 2) budgeted } := by
  intro clock next pause
  have hfirst : clock 0 ≤ clock 1 := reading_le_succ time gaps 0
  have hsecond : clock 1 ≤ clock 2 := reading_le_succ time gaps 1
  have hthird : clock 2 ≤ clock 3 := reading_le_succ time gaps 2
  cases aborted with
  | true =>
      have hnext : next = lease.settleAcquire 0 .clientFailed := by
        simp [next, attemptTimedOut]
      have hbudgeted : budgetedAfter lease next (clock 2) budgeted = budgeted := by
        simp [hnext, budgetedAfter, settleAcquire]
      rw [hbudgeted, hnext]
      exact ⟨0, by omega, .ended (h.rejected hmade hcount (by simp) _ _)⟩
  | false =>
      have hstep : started + retryFloorMs * (count + 1 : Nat) ≤ attemptStarted + retryFloorMs := by
        push_cast
        linarith
      by_cases hpause : clock 0 - attemptStarted < retryFloorMs ∧ 0 < pause
      · have hnext : next =
            { lease with acquisitions := [.pacing started (some (started + maxWaitMs))] } := by
          simp only [next, attemptTimedOut_eq]
          rw [if_pos hpause, h.waiting, List.set_cons_zero]
        have hbudgeted : budgetedAfter lease next (clock 2) budgeted = budgeted := by
          simp [hnext, budgetedAfter]
        rw [hbudgeted, hnext]
        refine ⟨2 * (callBound maxWaitMs - (count + 1)) + 1, by omega,
          .pacing (count + 1) ⟨h.acquiring, h.ungranted, rfl⟩ hmade hcount ?_⟩
        exact (pauseMs_reaches hfirst _).imp_left hstep.trans
      · have hnext : next = lease.attempt 0 started (some (started + maxWaitMs))
            fun reading => clock (reading + 2) := by
          simp only [next, attemptTimedOut_eq]
          rw [if_neg hpause]
        have hhead : started + retryFloorMs * (count + 1 : Nat) ≤ clock 2 ∨
            started + maxWaitMs ≤ clock 2 := by
          exact (reached_of_no_pause hfirst hpause).imp
            (fun hfloor => (hstep.trans hfloor).trans hsecond) fun hlast => hlast.trans hsecond
        obtain ⟨left, hleft, hphase⟩ := h.attempt (fun reading => clock (reading + 2)) hmade
          hcount hhead hthird (le_refl (clock 3)) (clock 1 + pause)
        rw [hnext]
        exact ⟨left, by omega, hphase⟩

/-- A wait ends: the acquisition has fewer of them left. -/
theorem Phase.turn {left : Nat} {line : Timeline} (h : Phase maxWaitMs started calls left line)
    (hleft : 0 < left) (options : LeaseOptions) (turn : LockTurn) :
    ∃ rest, rest < left ∧ Phase maxWaitMs started calls rest (line.turn options turn) := by
  cases h with
  | locking count attemptStarted hwaits hmade hcount hpaced hnow =>
      have hsame := hwaits.others options turn.meanwhile
      have hwaits' := hwaits.same hsame
      rw [← hsame.lockCalls] at hmade
      simp only [Timeline.turn]
      generalize (turn.meanwhile.map Meanwhile.event).foldl (step options) line.lease = lease
        at hsame hwaits' hmade
      simp only [hwaits'.waiting]
      cases turn.answer with
      | granted fencingToken =>
          obtain ⟨hacquisitions, hcalls, hgranted⟩ := adopt_acquisition options lease
            (reading line.now turn.gaps 0) fencingToken
          refine ⟨0, hleft, .ended ⟨?_, ⟨count + 1, hcount, ?_⟩, ?_⟩⟩
          · simp [step, hwaits'.waiting, Free, settleAcquire, hacquisitions]
          · simpa [step, hwaits'.waiting, settleAcquire, hcalls] using hmade
          · simp only [step, hwaits'.waiting, List.getElem?_cons_zero]
            exact ⟨_, _, rfl, Or.inl ⟨rfl, hgranted⟩⟩
      | timesOut aborted =>
          obtain ⟨rest, hrest, hphase⟩ := hwaits'.timedOut hmade hcount hpaced aborted
            line.now turn.gaps
          simp only [step, hwaits'.waiting, List.getElem?_cons_zero]
          exact ⟨rest, hrest, hphase⟩
      | fails =>
          simp only [step, hwaits'.waiting, List.getElem?_cons_zero]
          exact ⟨0, hleft, .ended (hwaits'.rejected hmade hcount (by simp) _ _)⟩
  | pacing count hwaits hmade hcount hwake =>
      have hsame := hwaits.others options turn.meanwhile
      have hwaits' := hwaits.same hsame
      rw [← hsame.lockCalls] at hmade
      simp only [Timeline.turn]
      generalize (turn.meanwhile.map Meanwhile.event).foldl (step options) line.lease = lease
        at hsame hwaits' hmade
      simp only [hwaits'.waiting]
      have hafter : line.wake ≤ reading (max line.now line.wake) turn.gaps 0 :=
        (le_max_right line.now line.wake).trans (reading_zero_le _ _)
      have hhead := hwake.imp (fun hpaced => hpaced.trans hafter) fun hpast => hpast.trans hafter
      obtain ⟨rest, hrest, hphase⟩ := hwaits'.attempt
        (reading (max line.now line.wake) turn.gaps) hmade hcount hhead (reading_le_succ _ _ 0)
        le_rfl line.wake
      simp only [step, hwaits'.waiting, List.getElem?_cons_zero]
      exact ⟨rest, by omega, hphase⟩
  | ended hended => exact absurd hleft (Nat.lt_irrefl 0)

/-- A turn after the first is a turn of the run that starts there. -/
theorem after_succ (options : LeaseOptions) (start : Timeline) (client : Nat → LockTurn)
    (n : Nat) :
    Timeline.after options (start.turn options (client 0)) (fun k => client (k + 1)) n =
      Timeline.after options start client (n + 1) := by
  induction n with
  | zero => rfl
  | succ n ih =>
      rw [Timeline.after, ih]
      rfl

theorem Phase.acquiring {left : Nat} {line : Timeline}
    (h : Phase maxWaitMs started calls left line) (hleft : 0 < left) :
    line.lease.acquiring = true := by
  cases h with
  | locking count attemptStarted hwaits hmade hcount hpaced hnow => exact hwaits.acquiring
  | pacing count hwaits hmade hcount hwake => exact hwaits.acquiring
  | ended hended => exact absurd hleft (Nat.lt_irrefl 0)

theorem Phase.ended_of_zero {left : Nat} {line : Timeline}
    (h : Phase maxWaitMs started calls left line) (hzero : left = 0) :
    Ended maxWaitMs started calls line := by
  cases h with
  | locking count attemptStarted hwaits hmade hcount hpaced hnow => omega
  | pacing count hwaits hmade hcount hwake => omega
  | ended hended => exact hended

/-- Every acquisition ends within its bound of waits. -/
theorem Phase.ends {left : Nat} {line : Timeline} (h : Phase maxWaitMs started calls left line)
    (options : LeaseOptions) (client : Nat → LockTurn) :
    ∃ n, n ≤ left ∧ Ended maxWaitMs started calls (line.after options client n) ∧
      ∀ m, m < n → (line.after options client m).lease.acquiring = true := by
  induction left using Nat.strong_induction_on generalizing line client with
  | _ left ih =>
      rcases Nat.eq_zero_or_pos left with hzero | hleft
      · refine ⟨0, Nat.zero_le left, h.ended_of_zero hzero, ?_⟩
        intro m hm
        exact absurd hm (Nat.not_lt_zero m)
      · obtain ⟨rest, hrest, hphase⟩ := h.turn hleft options (client 0)
        obtain ⟨n, hn, hended, hwaiting⟩ := ih rest hrest hphase fun k => client (k + 1)
        refine ⟨n + 1, by omega, ?_, ?_⟩
        · rw [← after_succ]
          exact hended
        · intro m hm
          cases m with
          | zero => exact h.acquiring hleft
          | succ m =>
              rw [← after_succ]
              exact hwaiting m (by omega)

/-- A call on a free lease starts an acquisition. -/
theorem begin_phase {lease : SyncLease} (hheld : lease.held = false) (hfree : lease.Free)
    (maxWaitMs now : ℚ) (gaps : Nat → ℚ≥0) :
    ∃ left, left ≤ 2 * callBound maxWaitMs ∧
      Phase maxWaitMs (reading now gaps 0) lease.lockCalls left
        (Timeline.begin lease maxWaitMs now gaps) := by
  let opened : SyncLease :=
    { lease with
      acquiring := true
      acquisitions := [.pacing (reading now gaps 0) (some (reading now gaps 0 + maxWaitMs))] }
  have hnone : lease.handle = none := by simpa [held] using hheld
  have hwaits : opened.Awaits
      (.pacing (reading now gaps 0) (some (reading now gaps 0 + maxWaitMs))) :=
    ⟨rfl, hnone, rfl⟩
  have hmade : Made maxWaitMs (reading now gaps 0) lease.lockCalls opened.lockCalls [] 0 :=
    ⟨[], rfl, rfl, .nil⟩
  have hhead : reading now gaps 0 + retryFloorMs * (0 : Nat) ≤ reading now gaps 1 := by
    simpa using reading_le_succ now gaps 0
  obtain ⟨left, hleft, hphase⟩ := hwaits.attempt (fun n => reading now gaps (n + 1)) hmade
    (Nat.zero_le _) (Or.inl hhead) (reading_le_succ now gaps 1) le_rfl (reading now gaps 2)
  have hacquire : lease.acquire (some maxWaitMs) (reading now gaps) =
      opened.attempt 0 (reading now gaps 0) (some (reading now gaps 0 + maxWaitMs))
        fun n => reading now gaps (n + 1) := by
    simp [SyncLease.acquire, hheld, hfree.1, hfree.2, opened]
  refine ⟨left, hleft, ?_⟩
  simp only [Timeline.begin, hacquire]
  exact hphase

/-- Every `acquire` with a wait budget ends, in any state the lease can be in. On a free
lease it ends after as many `lock` calls as pacing floors fit the budget, each within the
budget left, and leaves the lease held or free. -/
theorem acquire_ends (options : LeaseOptions) (events : List Event) (maxWaitMs now : ℚ)
    (gaps : Nat → ℚ≥0) (client : Nat → LockTurn) :
    let lease := Run.final (step options) {} events
    let line := Timeline.begin lease maxWaitMs now gaps
    (lease.held = true → line.lease = { lease with results := .held :: lease.results }) ∧
      (lease.held = false → lease.acquiring = true →
        line.lease = { lease with results := .alreadyInProgress :: lease.results }) ∧
      (lease.held = false → lease.acquiring = false →
        ∃ n, n ≤ 2 * callBound maxWaitMs ∧
          Ended maxWaitMs (reading now gaps 0) lease.lockCalls (line.after options client n) ∧
          ∀ m, m < n → (line.after options client m).lease.acquiring = true) := by
  intro lease line
  have htracked : Tracked lease :=
    Run.preserved (fun _ event h => h.step event) events tracked_initial
  refine ⟨?_, ?_, ?_⟩
  · intro hheld
    simp [line, Timeline.begin, SyncLease.acquire, hheld]
  · intro hheld hacquiring
    simp [line, Timeline.begin, SyncLease.acquire, hheld, hacquiring]
  · intro hheld hacquiring
    have hfree : lease.Free := by
      rcases htracked.acquisition with hidle | hbusy
      · exact hidle
      · rw [hbusy.1] at hacquiring
        cases hacquiring
    obtain ⟨left, hleft, hphase⟩ := begin_phase hheld hfree maxWaitMs now gaps
    obtain ⟨n, hn, hended, hwaiting⟩ := hphase.ends options client
    exact ⟨n, hn.trans hleft, hended, hwaiting⟩

end Acquisition

end SyncLease

end ZedSync.Js
