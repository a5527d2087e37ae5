import ZedSync.Dart.Lifecycle
import ZedSync.Rust.Lifecycle

/-!
The lifecycle reducers of the three ports against each other. They are written
with different control flow, over the same snapshots: the Rust reducer is the
one the other two are compared with.
-/

namespace ZedSync

open Js (AppCapabilities)

/-- The token of the event, if it carries one, is an integer every port holds. -/
def LifecycleEvent.TokenSafe (event : LifecycleEvent) : Prop :=
  ∀ token, event.token = some token → token ≤ Js.maxSafeInteger

instance (event : LifecycleEvent) : Decidable event.TokenSafe :=
  match h : event.token with
  | none => .isTrue fun _ htoken => nomatch h.symm.trans htoken
  | some token =>
      decidable_of_iff (token ≤ Js.maxSafeInteger)
        ⟨fun hle _ htoken => Option.some.inj (h.symm.trans htoken) ▸ hle, fun hsafe => hsafe _ h⟩

theorem coherent_eq (snapshot : AppLifecycleSnapshot) :
    Js.coherent snapshot = Rust.coherent snapshot := by
  have hnone {α : Type} [DecidableEq α] (value : Option α) :
      decide (value = none) = value.isNone := by cases value <;> rfl
  cases hphase : snapshot.phase <;>
    simp [Js.coherent, Rust.coherent, hphase, hnone, Bool.and_assoc]

theorem Js.lifecycleInvariant_iff (snapshot : AppLifecycleSnapshot) :
    Js.lifecycleInvariant snapshot = true ↔ Rust.Valid snapshot := by
  simp only [Js.lifecycleInvariant, coherent_eq, decide_eq_true_eq]
  constructor
  · rintro ⟨hbounded, htoken, hcoherent⟩
    refine ⟨hbounded, fun token hactive => ?_, hcoherent⟩
    simp only [hactive, decide_eq_true_eq] at htoken
    exact htoken.2
  · rintro ⟨hbounded, hallocated, hcoherent⟩
    refine ⟨hbounded, ?_, hcoherent⟩
    cases hactive : snapshot.activeToken with
    | none => rfl
    | some token =>
        obtain ⟨hpositive, hle⟩ := hallocated token hactive
        exact decide_eq_true ⟨Nat.le_trans hle hbounded, hpositive, hle⟩

theorem Dart.validates_iff (snapshot : AppLifecycleSnapshot) :
    Dart.validates snapshot = true ↔ Rust.Valid snapshot := by
  simp only [Dart.validates, coherent_eq, decide_eq_true_eq]
  constructor
  · rintro ⟨htoken, hbounded, hcoherent⟩
    refine ⟨hbounded, fun token hactive => ?_, hcoherent⟩
    simp only [hactive, decide_eq_true_eq] at htoken
    exact htoken
  · rintro ⟨hbounded, hallocated, hcoherent⟩
    refine ⟨?_, hbounded, hcoherent⟩
    cases hactive : snapshot.activeToken with
    | none => rfl
    | some token => exact decide_eq_true (hallocated token hactive)

/-- The ports derive the same capabilities of every snapshot, well formed or not. -/
theorem capabilities_agree (snapshot : AppLifecycleSnapshot) :
    Js.appCapabilities snapshot = Rust.capabilities snapshot ∧
      Dart.capabilities snapshot = Rust.capabilities snapshot := by
  have hvalidate := Rust.validate_iff snapshot
  have hjs := Js.lifecycleInvariant_iff snapshot
  have hdart := Dart.validates_iff snapshot
  unfold Js.appCapabilities Dart.capabilities Dart.validatedPhase Rust.capabilities
  by_cases hvalid : Rust.Valid snapshot
  · rw [hvalidate.mpr hvalid, hjs.mpr hvalid, hdart.mpr hvalid]
    cases hphase : snapshot.phase <;> exact ⟨by simp [Rust.closed], by decide⟩
  · have hrefused : Rust.validate snapshot ≠ .ok () := fun h => hvalid (hvalidate.mp h)
    have hthrows : Js.lifecycleInvariant snapshot = false :=
      Bool.eq_false_iff.mpr fun h => hvalid (hjs.mp h)
    have hfails : Dart.validates snapshot = false :=
      Bool.eq_false_iff.mpr fun h => hvalid (hdart.mp h)
    rw [hthrows, hfails]
    cases hresult : Rust.validate snapshot with
    | ok _ => exact absurd hresult hrefused
    | error message => exact ⟨rfl, rfl⟩

section Reducers

variable {before : AppLifecycleSnapshot} {token : Nat}

theorem Js.tokenRelation_eq (hsafe : token ≤ Js.maxSafeInteger) :
    Js.tokenRelation before token = Rust.tokenRelation before token := by
  simp [Js.tokenRelation, Rust.tokenRelation, Nat.not_lt_of_le hsafe]

theorem Dart.tokenRelation_eq :
    Dart.tokenRelation before token = Rust.tokenRelation before token := by
  simp [Dart.tokenRelation, Rust.tokenRelation]

theorem Js.withToken_eq (hsafe : token ≤ Js.maxSafeInteger)
    (current : AppLifecycleSnapshot × TransitionOutcome) :
    Js.withToken before token current = Rust.underToken before token current := by
  cases hrelation : Rust.tokenRelation before token <;>
    simp only [Js.withToken, Rust.underToken, Js.tokenRelation_eq hsafe, hrelation]

end Reducers

/-- Under a token every port holds, the JavaScript switch is the Rust one. -/
theorem Js.reduce_eq (before : AppLifecycleSnapshot) {event : LifecycleEvent}
    (hsafe : event.TokenSafe) : Js.reduce before event = Rust.dispatch before event := by
  cases event with
  | startRequested =>
      simp only [Js.reduce, Rust.dispatch, ← Nat.not_lt, ite_not]
      rfl
  | startSucceeded token => exact Js.withToken_eq (hsafe token rfl) _
  | startFailed token => exact Js.withToken_eq (hsafe token rfl) _
  | connectivityChanged token online =>
      simp only [Js.reduce, Rust.dispatch, Js.withToken_eq (hsafe token rfl)]
      cases hphase : before.phase <;> simp [Rust.connectivityTarget, hphase]
  | runtimeFailed token =>
      simp only [Js.reduce, Rust.dispatch, Js.withToken_eq (hsafe token rfl)]
      cases hphase : before.phase <;> simp [Js.failed, Rust.fail]
  | stopRequested =>
      simp only [Js.reduce, Rust.dispatch]
      cases hphase : before.phase <;> simp [Js.beginStop, Rust.beginStop, Js.maxSafeInteger,
        Rust.maxSafeGeneration]
  | stopSucceeded token => exact Js.withToken_eq (hsafe token rfl) _
  | stopFailed token => exact Js.withToken_eq (hsafe token rfl) _
  | reconcileRequested =>
      simp only [Js.reduce, Rust.dispatch, ite_not]
      rfl

/-- A Rust answer as the Dart branches give it: no snapshot unless it is applied. -/
def Dart.branch (answer : AppLifecycleSnapshot × TransitionOutcome) :
    Option AppLifecycleSnapshot × TransitionOutcome :=
  (if answer.2 = .applied then some answer.1 else none, answer.2)

theorem Dart.withToken_eq (before : AppLifecycleSnapshot) (token : Nat)
    (current : AppLifecycleSnapshot × TransitionOutcome) :
    Dart.withToken before token (Dart.branch current) =
      Dart.branch (Rust.underToken before token current) := by
  simp only [Dart.withToken, Rust.underToken, Dart.tokenRelation_eq]
  cases Rust.tokenRelation before token <;> rfl

theorem Dart.beginStop_eq (before : AppLifecycleSnapshot) (operation : LifecycleOperation) :
    Dart.appliedOrRejected (Dart.beginStop before operation) =
      Dart.branch (Rust.beginStop before operation) := by
  unfold Dart.beginStop Rust.beginStop
  by_cases hfull : before.generation ≥ Rust.maxSafeGeneration
  · have hfull' : before.generation ≥ Js.maxSafeInteger := hfull
    rw [if_pos hfull, if_pos hfull']
    rfl
  · have hfull' : ¬ before.generation ≥ Js.maxSafeInteger := hfull
    rw [if_neg hfull, if_neg hfull']
    rfl

/-- The Dart branches are the Rust reducer. -/
theorem Dart.next_eq (before : AppLifecycleSnapshot) (event : LifecycleEvent) :
    Dart.next before event = Dart.branch (Rust.dispatch before event) := by
  cases event with
  | startRequested =>
      simp only [Dart.next, Rust.dispatch]
      by_cases hphase : before.phase = .stopped
      · by_cases hroom : before.generation < Rust.maxSafeGeneration
        · have hroom' : before.generation < Js.maxSafeInteger := hroom
          simp [hphase, hroom, hroom', Dart.branch, Dart.stoppedSnapshot]
        · have hroom' : ¬ before.generation < Js.maxSafeInteger := hroom
          simp [hphase, hroom, hroom', Dart.branch]
      · simp [hphase, Dart.branch]
  | startSucceeded token =>
      simp only [Dart.next, Rust.dispatch, ← Dart.withToken_eq]
      by_cases hphase : before.phase = .starting <;> simp [hphase, Dart.branch, Dart.copy]
  | startFailed token =>
      simp only [Dart.next, Rust.dispatch, ← Dart.withToken_eq]
      by_cases hphase : before.phase = .starting <;> simp [hphase, Dart.branch, Dart.failed,
        Dart.stoppedSnapshot, Rust.fail]
  | connectivityChanged token online =>
      simp only [Dart.next, Rust.dispatch, ← Dart.withToken_eq]
      congr 1
      by_cases hsame : before.online = online
      · cases hphase : before.phase <;> cases online <;>
          simp_all [Dart.branch, Dart.copy, Rust.connectivityTarget]
      · cases hphase : before.phase <;>
          simp [hsame, Dart.branch, Dart.copy, Rust.connectivityTarget, hphase]
  | runtimeFailed token =>
      simp only [Dart.next, Rust.dispatch, ← Dart.withToken_eq]
      cases hphase : before.phase <;> simp [Dart.branch, Dart.failed, Dart.stoppedSnapshot,
        Rust.fail]
  | stopRequested =>
      simp only [Dart.next, Rust.dispatch, Dart.beginStop_eq]
      cases hphase : before.phase <;> simp [Dart.branch]
  | stopSucceeded token =>
      simp only [Dart.next, Rust.dispatch, ← Dart.withToken_eq]
      by_cases hphase : before.phase = .stopping <;> simp [hphase, Dart.branch,
        Dart.stoppedSnapshot, Rust.initialSnapshot]
  | stopFailed token =>
      simp only [Dart.next, Rust.dispatch, ← Dart.withToken_eq]
      by_cases hphase : before.phase = .stopping <;> simp [hphase, Dart.branch, Dart.failed,
        Dart.stoppedSnapshot, Rust.fail]
  | reconcileRequested =>
      simp only [Dart.next, Rust.dispatch, Dart.beginStop_eq]
      by_cases hphase : before.phase = .failed <;> simp [hphase, Dart.branch]

/-- Committed from a valid snapshot, the JavaScript reducer never throws. -/
theorem Js.dispatch_eq {before : AppLifecycleSnapshot} (hvalid : Rust.Valid before)
    {event : LifecycleEvent} (hsafe : event.TokenSafe) :
    Js.dispatch before event =
      ((Rust.dispatch before event).1, some (Rust.dispatch before event).2) := by
  have hafter := (Js.lifecycleInvariant_iff _).mpr (Rust.step_valid hvalid event)
  simp only [Rust.step] at hafter
  simp only [Js.dispatch, Js.reduce_eq before hsafe, hafter, if_true]
  split
  · rename_i happlied
    rw [happlied]
  · rename_i hunapplied
    rw [Rust.dispatch_unapplied hunapplied]

/-- Committed from a valid snapshot, the Dart reducer never throws. -/
theorem Dart.dispatch_eq {before : AppLifecycleSnapshot} (hvalid : Rust.Valid before)
    (event : LifecycleEvent) :
    Dart.dispatch before event =
      ((Rust.dispatch before event).1, some (Rust.dispatch before event).2) := by
  have hafter := (Dart.validates_iff _).mpr (Rust.step_valid hvalid event)
  simp only [Rust.step] at hafter
  rcases Rust.dispatch_answered before event with ⟨happlied, -⟩ | ⟨hunapplied, hsame, -⟩
  · simp [Dart.dispatch, Dart.next_eq, Dart.branch, happlied, hafter]
  · cases houtcome : (Rust.dispatch before event).2 with
    | applied => exact absurd houtcome hunapplied
    | stuttered | stale | rejected =>
        simp [Dart.dispatch, Dart.next_eq, Dart.branch, houtcome, hsame]

/-- The snapshot of a machine after a sequence of events. -/
def Js.machine (events : List LifecycleEvent) : AppLifecycleSnapshot :=
  Run.final (fun before event => (Js.dispatch before event).1) (Js.initialSnapshot 0) events

def Dart.machine (events : List LifecycleEvent) : AppLifecycleSnapshot :=
  Run.final (fun before event => (Dart.dispatch before event).1) (Dart.stoppedSnapshot 0) events

theorem Js.run_eq {start : AppLifecycleSnapshot} (hvalid : Rust.Valid start)
    (events : List LifecycleEvent) (hsafe : ∀ event ∈ events, event.TokenSafe) :
    Run.final (fun before event => (Js.dispatch before event).1) start events =
      Run.final Rust.step start events := by
  induction events generalizing start with
  | nil => rfl
  | cons event events ih =>
      rw [Run.final_cons, Run.final_cons, Js.dispatch_eq hvalid (hsafe event List.mem_cons_self)]
      exact ih (Rust.step_valid hvalid event)
        fun other hother => hsafe other (List.mem_cons_of_mem _ hother)

theorem Dart.run_eq {start : AppLifecycleSnapshot} (hvalid : Rust.Valid start)
    (events : List LifecycleEvent) :
    Run.final (fun before event => (Dart.dispatch before event).1) start events =
      Run.final Rust.step start events := by
  induction events generalizing start with
  | nil => rfl
  | cons event events ih =>
      rw [Run.final_cons, Run.final_cons, Dart.dispatch_eq hvalid event]
      exact ih (Rust.step_valid hvalid event)

/-- Started fresh and given the same events, the three machines hold the same
snapshot after every event, derive the same capabilities of it, and answer the
next event alike; the validations before the commits never throw. -/
theorem lifecycle_ports_agree (events : List LifecycleEvent) (event : LifecycleEvent)
    (hsafe : ∀ other ∈ event :: events, other.TokenSafe) :
    Js.machine events = Rust.machine events ∧ Dart.machine events = Rust.machine events ∧
      Js.appCapabilities (Js.machine events) = Rust.capabilities (Rust.machine events) ∧
      Dart.capabilities (Dart.machine events) = Rust.capabilities (Rust.machine events) ∧
      Js.dispatch (Js.machine events) event =
        ((Rust.dispatch (Rust.machine events) event).1,
          some (Rust.dispatch (Rust.machine events) event).2) ∧
      Dart.dispatch (Dart.machine events) event =
        ((Rust.dispatch (Rust.machine events) event).1,
          some (Rust.dispatch (Rust.machine events) event).2) := by
  have hjs : Js.machine events = Rust.machine events :=
    Js.run_eq Rust.initial_valid events fun other hother =>
      hsafe other (List.mem_cons_of_mem _ hother)
  have hdart : Dart.machine events = Rust.machine events :=
    Dart.run_eq Rust.initial_valid events
  have hvalid := Rust.machine_valid events
  obtain ⟨hjsCapabilities, hdartCapabilities⟩ := capabilities_agree (Rust.machine events)
  rw [hjs, hdart]
  exact ⟨rfl, rfl, hjsCapabilities, hdartCapabilities,
    Js.dispatch_eq hvalid (hsafe event List.mem_cons_self), Dart.dispatch_eq hvalid event⟩

/-- A session that starts, comes online and fails. -/
theorem failing_session_agrees :
    Js.machine [.startRequested, .connectivityChanged 1 true, .startSucceeded 1] =
        Rust.machine [.startRequested, .connectivityChanged 1 true, .startSucceeded 1] ∧
      (Js.dispatch (Js.machine [.startRequested, .connectivityChanged 1 true, .startSucceeded 1])
        (.runtimeFailed 1)).2 = some .applied :=
  have h := lifecycle_ports_agree
    [.startRequested, .connectivityChanged 1 true, .startSucceeded 1] (.runtimeFailed 1)
    (by decide)
  ⟨h.1, by rw [h.2.2.2.2.1]; decide⟩

end ZedSync
