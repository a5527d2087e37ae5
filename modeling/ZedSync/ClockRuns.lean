import ZedSync.ClockPorts

/-!
Runs of one device-local clock, for any physical times and any remote stamps. In
JavaScript and Dart the stamps a clock returns only go up, and an observation outranks
the remote it takes in. In all three languages a remote that runs too far ahead leaves
no trace: the call is a tick.
-/

namespace ZedSync

/-- What a call does to the clock of a Dart client. -/
def Dart.clockStep (clock : Clock) : ClockCall → Clock
  | .tick now => Dart.tick clock now
  | .observe remote now => Dart.observe clock remote now

theorem Dart.clockStep_eq : Dart.clockStep = ClockCall.apply := by
  funext clock call
  cases call with
  | tick now => exact congrFun (congrFun Dart.tick_eq clock) now
  | observe remote now => exact congrFun (congrFun (congrFun Dart.observe_eq clock) remote) now

/-- The stamps a run of calls returns. -/
def stamps (step : Clock → ClockCall → Clock) (start : Clock) (calls : List ClockCall) :
    List Hlc :=
  (Run.states step start calls).map Clock.stamp

/-- By the comparison `compare`, every stamp is above all returned before it, and above
the remote of its call where that one is not too far ahead. -/
def StampsRise (step : Clock → ClockCall → Clock) (compare : Hlc → Hlc → Int) (start : Clock)
    (calls : List ClockCall) : Prop :=
  (stamps step start calls).Pairwise (fun earlier later => 0 < compare later earlier) ∧
    (stamps step start calls).Nodup ∧
    Run.Along step (fun clock call =>
      match call with
      | .tick _ => True
      | .observe remote now =>
          remote.wallMs ≤ now + maxDriftMs → 0 < compare (step clock call).stamp remote)
      start calls

theorem ClockCall.lt_apply (clock : Clock) (call : ClockCall) :
    clock.stamp < (call.apply clock).stamp := by
  cases call with
  | tick nowMs => exact lt_tick clock nowMs
  | observe remote nowMs => exact lt_observe clock remote nowMs

/-- An observation outranks a remote in range. -/
theorem remote_lt_observe {remote : Hlc} {nowMs : Nat} (hnear : remote.wallMs ≤ nowMs + maxDriftMs)
    (clock : Clock) : remote < (Js.observe clock remote nowMs).stamp := by
  obtain ⟨-, -, hreached, -, hcounter⟩ := observe_cases clock remote nowMs
  apply (Hlc.lt_iff _ _).mpr
  rcases (hreached hnear).lt_or_eq with hlt | heq
  · exact Or.inl hlt
  · refine Or.inr ⟨heq, Or.inl ?_⟩
    have hreads : remote.wallMs ≤ nowMs + maxDriftMs ∧
        (Js.observe clock remote nowMs).wallMs = remote.wallMs := ⟨hnear, heq.symm⟩
    simp only [hreads, and_self, if_true] at hcounter
    change remote.counter < (Js.observe clock remote nowMs).counter
    omega

theorem js_stamps_rise (start : Clock) (calls : List ClockCall) :
    StampsRise ClockCall.apply Js.compareHlc start calls := by
  have hrise : (stamps ClockCall.apply start calls).Pairwise (· < ·) := by
    have hstates : (start :: Run.states ClockCall.apply start calls).Pairwise
        fun earlier later => earlier.stamp < later.stamp :=
      Run.pairwise_states (J := fun _ => True) (fun hab hbc => hab.trans hbc)
        (fun _ _ _ => trivial) (fun clock call _ => call.lt_apply clock) calls trivial
    exact List.pairwise_map.mpr (List.pairwise_cons.mp hstates).2
  refine ⟨?_, hrise.imp fun hlt => hlt.ne, ?_⟩
  · exact hrise.imp fun hlt => (Js.compareHlc_pos_iff _ _).mpr hlt
  · apply Run.along_preserved (J := fun _ => True) (fun _ _ _ => trivial) _ calls trivial
    intro clock call _
    cases call with
    | tick nowMs => trivial
    | observe remote nowMs =>
        intro hnear
        exact (Js.compareHlc_pos_iff _ _).mpr (remote_lt_observe hnear clock)

/-- The clocks of both clients: a new clock, any calls. -/
theorem client_stamps_rise (actor : String) (calls : List ClockCall) :
    StampsRise ClockCall.apply Js.compareHlc (Clock.fresh actor) calls ∧
      StampsRise Dart.clockStep Dart.compareTo (Clock.fresh actor) calls := by
  rw [Dart.clockStep_eq, Dart.compareTo_eq_compareHlc]
  exact ⟨js_stamps_rise _ calls, js_stamps_rise _ calls⟩

/-- A remote too far ahead is not there: the call is a tick. -/
def ClockCall.tamed : ClockCall → ClockCall
  | .tick nowMs => .tick nowMs
  | .observe remote nowMs =>
      if nowMs + maxDriftMs < remote.wallMs then .tick nowMs else .observe remote nowMs

def ClockCall.nowMs : ClockCall → Nat
  | .tick nowMs | .observe _ nowMs => nowMs

def Rust.HlcCall.tamed : Rust.HlcCall → Rust.HlcCall
  | .tick physicalNowMs => .tick physicalNowMs
  | .observe remote physicalNowMs =>
      if physicalNowMs.toNat + maxDriftMs < remote.wallMs.toNat then .tick physicalNowMs
      else .observe remote physicalNowMs

/-- With every remote that is too far ahead made a tick, a run of calls goes through the
same states. So do two runs that differ in such remotes alone. And the wall of a clock
is its first one, or no further ahead than the drift of a physical time it was given. -/
def IgnoresDrift {σ ε : Type} (step : σ → ε → σ) (tamed : ε → ε) (wall : σ → Nat)
    (now : ε → Nat) : Prop :=
  ∀ (start : σ) (calls : List ε),
    Run.states step start (calls.map tamed) = Run.states step start calls ∧
    (∀ others : List ε, others.map tamed = calls.map tamed →
      Run.states step start others = Run.states step start calls ∧
        Run.final step start others = Run.final step start calls) ∧
    (wall (Run.final step start calls) = wall start ∨
      ∃ call ∈ calls, wall (Run.final step start calls) ≤ now call + maxDriftMs)

section IgnoresDrift

variable {σ ε : Type} {step : σ → ε → σ} {tamed : ε → ε} {wall : σ → Nat} {now : ε → Nat}

/-- The wall is that of the start, or of a call. -/
theorem wall_final_cases (hwall : ∀ clock call,
      wall (step clock call) = wall clock ∨ wall (step clock call) ≤ now call + maxDriftMs)
    (start : σ) (calls : List ε) : wall (Run.final step start calls) = wall start ∨
      ∃ call ∈ calls, wall (Run.final step start calls) ≤ now call + maxDriftMs := by
  induction calls generalizing start with
  | nil => exact Or.inl rfl
  | cons call calls ih =>
      rcases ih (step start call) with hrest | ⟨later, hlater, hle⟩
      · rcases hwall start call with hsame | hnow
        · exact Or.inl (hrest.trans hsame)
        · exact Or.inr ⟨call, List.mem_cons_self, hrest.le.trans hnow⟩
      · exact Or.inr ⟨later, List.mem_cons_of_mem _ hlater, hle⟩

/-- It is enough to look at one call. -/
theorem ignoresDrift_of_step (htamed : ∀ clock call, step clock (tamed call) = step clock call)
    (hwall : ∀ clock call,
      wall (step clock call) = wall clock ∨ wall (step clock call) ≤ now call + maxDriftMs) :
    IgnoresDrift step tamed wall now := by
  intro start calls
  have hfinal : ∀ others : List ε,
      Run.final step start (others.map tamed) = Run.final step start others := by
    intro others
    simp only [Run.final, List.foldl_map, htamed]
  refine ⟨Run.states_map htamed start calls, fun others hsame => ⟨?_, ?_⟩,
    wall_final_cases hwall start calls⟩
  · rw [← Run.states_map htamed start others, hsame, Run.states_map htamed]
  · rw [← hfinal others, hsame, hfinal]

end IgnoresDrift

theorem ClockCall.apply_tamed (clock : Clock) (call : ClockCall) :
    call.tamed.apply clock = call.apply clock := by
  cases call with
  | tick nowMs => rfl
  | observe remote nowMs =>
      simp only [ClockCall.tamed]
      split
      · rename_i hfar
        have hnot : ¬ remote.wallMs ≤ nowMs + maxDriftMs := not_le.mpr hfar
        simp only [ClockCall.apply, Js.tick, Js.observe, hnot, decide_false, Bool.false_eq_true,
          if_false, false_and]
        split
        · rename_i hlater
          have hmax : max nowMs clock.wallMs = nowMs := max_eq_left hlater.le
          simp [hmax, hlater.ne']
        · rename_i hbehind
          have hmax : max nowMs clock.wallMs = clock.wallMs := max_eq_right (not_lt.mp hbehind)
          simp [hmax]
      · rfl

theorem ClockCall.apply_wall_cases (clock : Clock) (call : ClockCall) :
    (call.apply clock).wallMs = clock.wallMs ∨
      (call.apply clock).wallMs ≤ call.nowMs + maxDriftMs := by
  cases call with
  | tick nowMs =>
      simp only [ClockCall.apply, Js.tick, ClockCall.nowMs]
      split
      · exact Or.inr (Nat.le_add_right _ _)
      · exact Or.inl rfl
  | observe remote nowMs =>
      obtain ⟨-, -, -, hwall, -⟩ := observe_cases clock remote nowMs
      simp only [ClockCall.apply, ClockCall.nowMs]
      omega

namespace Rust

theorem Hlc.clock_injective : Function.Injective Hlc.clock := by
  intro first second h
  simp only [Hlc.clock, Clock.mk.injEq] at h
  obtain ⟨hactor, hwall, hcounter⟩ := h
  exact Hlc.ext (UInt64.toNat_inj.mp hwall) (UInt32.toNat_inj.mp hcounter) hactor

theorem clockStep_clock (hlc : Hlc) (call : HlcCall) :
    (clockStep hlc call).clock = saturated (call.clockCall.apply hlc.clock) := by
  cases call with
  | tick physicalNowMs => exact tick_clock hlc physicalNowMs
  | observe remote physicalNowMs => exact observe_clock hlc remote physicalNowMs

theorem HlcCall.clockCall_tamed (call : HlcCall) :
    call.tamed.clockCall = call.clockCall.tamed := by
  cases call with
  | tick physicalNowMs => rfl
  | observe remote physicalNowMs =>
      simp only [HlcCall.tamed, HlcCall.clockCall, ClockCall.tamed]
      exact apply_ite HlcCall.clockCall _ _ _

theorem clockStep_tamed (hlc : Hlc) (call : HlcCall) :
    clockStep hlc call.tamed = clockStep hlc call := by
  apply Hlc.clock_injective
  rw [clockStep_clock, clockStep_clock, HlcCall.clockCall_tamed, ClockCall.apply_tamed]

theorem clockStep_wall_cases (hlc : Hlc) (call : HlcCall) :
    (clockStep hlc call).wallMs.toNat = hlc.wallMs.toNat ∨
      (clockStep hlc call).wallMs.toNat ≤ call.clockCall.nowMs + maxDriftMs := by
  have hwall : (clockStep hlc call).wallMs.toNat = (call.clockCall.apply hlc.clock).wallMs :=
    congrArg Clock.wallMs (clockStep_clock hlc call)
  rw [hwall]
  exact call.clockCall.apply_wall_cases hlc.clock

end Rust

/-- From any clock and for any calls. -/
theorem over_drift_remotes_are_ignored :
    IgnoresDrift ClockCall.apply ClockCall.tamed Clock.wallMs ClockCall.nowMs ∧
      IgnoresDrift Dart.clockStep ClockCall.tamed Clock.wallMs ClockCall.nowMs ∧
      IgnoresDrift Rust.clockStep Rust.HlcCall.tamed (fun hlc => hlc.wallMs.toNat)
        (fun call => call.clockCall.nowMs) := by
  have hclient : IgnoresDrift ClockCall.apply ClockCall.tamed Clock.wallMs ClockCall.nowMs :=
    ignoresDrift_of_step (fun clock call => call.apply_tamed clock) fun clock call =>
      call.apply_wall_cases clock
  refine ⟨hclient, ?_, ignoresDrift_of_step Rust.clockStep_tamed Rust.clockStep_wall_cases⟩
  rw [Dart.clockStep_eq]
  exact hclient

end ZedSync
