import Mathlib.Data.List.Basic

/-!
Runs of a deterministic system: a step function, folded over the events of a
run. `Along` says that every event is taken in a state where `P` holds of it.
-/

namespace Run

variable {σ ε : Type} {step : σ → ε → σ}

def final (step : σ → ε → σ) (start : σ) (events : List ε) : σ := events.foldl step start

@[simp] theorem final_nil (start : σ) : final step start [] = start := rfl

@[simp] theorem final_cons (start : σ) (event : ε) (events : List ε) :
    final step start (event :: events) = final step (step start event) events := rfl

theorem final_append (start : σ) (first second : List ε) :
    final step start (first ++ second) = final step (final step start first) second :=
  List.foldl_append

def Along (step : σ → ε → σ) (P : σ → ε → Prop) : σ → List ε → Prop
  | _, [] => True
  | state, event :: events => P state event ∧ Along step P (step state event) events

instance instDecidableAlong {P : σ → ε → Prop} [∀ state event, Decidable (P state event)] :
    ∀ (start : σ) (events : List ε), Decidable (Along step P start events)
  | _, [] => inferInstanceAs (Decidable True)
  | start, event :: events =>
      have : Decidable (Along step P (step start event) events) :=
        instDecidableAlong (step start event) events
      inferInstanceAs (Decidable (P start event ∧ Along step P (step start event) events))

theorem Along.mono {P Q : σ → ε → Prop} (himp : ∀ state event, P state event → Q state event)
    {start : σ} {events : List ε} (h : Along step P start events) :
    Along step Q start events := by
  induction events generalizing start with
  | nil => trivial
  | cons event events ih => exact ⟨himp _ _ h.1, ih h.2⟩

theorem along_append {P : σ → ε → Prop} (start : σ) (first second : List ε) :
    Along step P start (first ++ second) ↔
      Along step P start first ∧ Along step P (final step start first) second := by
  induction first generalizing start with
  | nil => simp [Along]
  | cons event first ih => simp only [List.cons_append, Along, final_cons, ih, and_assoc]

theorem along_congr {P Q : σ → ε → Prop} (hiff : ∀ state event, P state event ↔ Q state event)
    (start : σ) (events : List ε) :
    Along step P start events ↔ Along step Q start events :=
  ⟨Along.mono fun _ _ => (hiff _ _).mp, Along.mono fun _ _ => (hiff _ _).mpr⟩

theorem along_of_forall {P : ε → Prop} {start : σ} {events : List ε}
    (hall : ∀ event ∈ events, P event) : Along step (fun _ event => P event) start events := by
  induction events generalizing start with
  | nil => trivial
  | cons event events ih =>
      exact ⟨hall event List.mem_cons_self,
        ih fun later hmem => hall later (List.mem_cons_of_mem event hmem)⟩

/-- The states a run goes through, one after every event. -/
def states (step : σ → ε → σ) : σ → List ε → List σ
  | _, [] => []
  | state, event :: events => step state event :: states step (step state event) events

/-- Events that a run takes alike may be exchanged. -/
theorem states_map {f : ε → ε} (hsame : ∀ state event, step state (f event) = step state event)
    (start : σ) (events : List ε) :
    states step start (events.map f) = states step start events := by
  induction events generalizing start with
  | nil => rfl
  | cons event events ih => simp only [List.map_cons, states, hsame, ih]

/-- Where every event raises the state, each state of a run is above all before it. -/
theorem pairwise_states {r : σ → σ → Prop} (htrans : ∀ {a b c}, r a b → r b c → r a c)
    {J : σ → Prop} (hinv : ∀ state event, J state → J (step state event))
    (hraise : ∀ state event, J state → r state (step state event))
    {start : σ} (events : List ε) (hinit : J start) :
    (start :: states step start events).Pairwise r := by
  induction events generalizing start with
  | nil => exact List.pairwise_singleton _ _
  | cons event events ih =>
      have hnow := hraise start event hinit
      have hrest := ih (hinv start event hinit)
      refine List.pairwise_cons.mpr ⟨?_, hrest⟩
      intro later hlater
      rcases List.mem_cons.mp hlater with rfl | hmem
      · exact hnow
      · exact htrans hnow ((List.pairwise_cons.mp hrest).1 later hmem)

/-- What every event that satisfies `P` preserves, every such run preserves. -/
theorem induction {P : σ → ε → Prop} {J : σ → Prop}
    (hstep : ∀ state event, J state → P state event → J (step state event))
    {start : σ} {events : List ε} (hinit : J start) (halong : Along step P start events) :
    J (final step start events) := by
  induction events generalizing start with
  | nil => exact hinit
  | cons event events ih => exact ih (hstep start event hinit halong.1) halong.2

/-- An invariant of the events that satisfy `P`, read off at every event. -/
theorem along_of_inv {P Q : σ → ε → Prop} {J : σ → Prop}
    (hstep : ∀ state event, J state → P state event → Q state event ∧ J (step state event))
    {start : σ} {events : List ε} (hinit : J start) (halong : Along step P start events) :
    Along step Q start events := by
  induction events generalizing start with
  | nil => trivial
  | cons event events ih =>
      obtain ⟨hevent, hnext⟩ := hstep start event hinit halong.1
      exact ⟨hevent, ih hnext halong.2⟩

/-- An invariant of every event holds at the end of every run. -/
theorem preserved {J : σ → Prop} (hinv : ∀ state event, J state → J (step state event))
    {start : σ} (events : List ε) (hinit : J start) : J (final step start events) := by
  induction events generalizing start with
  | nil => exact hinit
  | cons event events ih => exact ih (hinv start event hinit)

/-- What holds of every event in the states of an invariant holds along every run. -/
theorem along_preserved {Q : σ → ε → Prop} {J : σ → Prop}
    (hinv : ∀ state event, J state → J (step state event))
    (hevent : ∀ state event, J state → Q state event)
    {start : σ} (events : List ε) (hinit : J start) : Along step Q start events := by
  induction events generalizing start with
  | nil => trivial
  | cons event events ih => exact ⟨hevent start event hinit, ih (hinv start event hinit)⟩

/-- Two conditions that agree in every state of an invariant hold along the same runs. -/
theorem along_iff_of_inv {P Q : σ → ε → Prop} {J : σ → Prop}
    (hinv : ∀ state event, J state → J (step state event))
    (hiff : ∀ state event, J state → (P state event ↔ Q state event))
    {start : σ} (events : List ε) (hinit : J start) :
    Along step P start events ↔ Along step Q start events := by
  induction events generalizing start with
  | nil => exact Iff.rfl
  | cons event events ih => exact and_congr (hiff start event hinit) (ih (hinv start event hinit))

/-- The same, where only the events that satisfy the second condition keep the invariant. -/
theorem along_iff_of_kept {P Q : σ → ε → Prop} {J : σ → Prop}
    (hkeeps : ∀ state event, J state → Q state event → J (step state event))
    (hiff : ∀ state event, J state → (P state event ↔ Q state event))
    {start : σ} (events : List ε) (hinit : J start) :
    Along step P start events ↔ Along step Q start events := by
  induction events generalizing start with
  | nil => exact Iff.rfl
  | cons event events ih =>
      have hnow := hiff start event hinit
      simp only [Along]
      constructor
      · rintro ⟨hevent, hrest⟩
        have hfirst := hnow.mp hevent
        exact ⟨hfirst, (ih (hkeeps start event hinit hfirst)).mp hrest⟩
      · rintro ⟨hevent, hrest⟩
        exact ⟨hnow.mpr hevent, (ih (hkeeps start event hinit hevent)).mpr hrest⟩

/-- Where, in the states of an invariant and on the events that satisfy `K`, a state is
good after an event exactly when it was before and the event satisfies `P`, a run of
such events ends good exactly when it starts good and all its events satisfy `P`. -/
theorem final_iff_of_step {K P : σ → ε → Prop} {J Good : σ → Prop}
    (hinv : ∀ state event, J state → J (step state event))
    (hstep : ∀ state event, J state → K state event →
      (Good (step state event) ↔ Good state ∧ P state event))
    {start : σ} {events : List ε} (hinit : J start) (halong : Along step K start events) :
    Good (final step start events) ↔ Good start ∧ Along step P start events := by
  induction events generalizing start with
  | nil => simp [Along]
  | cons event events ih =>
      rw [final_cons, ih (hinv start event hinit) halong.2, hstep start event hinit halong.1,
        Along, and_assoc]

/-- Where a good state stays good exactly on the events that satisfy `P`, and is never
good again once it is not, a run ends good exactly when all its events satisfy `P`. -/
theorem final_iff_along {P : σ → ε → Prop} {J Good : σ → Prop}
    (hinv : ∀ state event, J state → J (step state event))
    (hlost : ∀ state event, Good (step state event) → Good state)
    (hstep : ∀ state event, J state → Good state → (Good (step state event) ↔ P state event))
    {start : σ} (events : List ε) (hinit : J start) (hgood : Good start) :
    Good (final step start events) ↔ Along step P start events := by
  have hboth : ∀ state event, J state → True →
      (Good (step state event) ↔ Good state ∧ P state event) := by
    intro state event hinvariant _
    constructor
    · intro hnext
      have hbefore := hlost state event hnext
      exact ⟨hbefore, (hstep state event hinvariant hbefore).mp hnext⟩
    · rintro ⟨hbefore, hevent⟩
      exact (hstep state event hinvariant hbefore).mpr hevent
  have hall : Along step (fun _ _ => True) start events := along_of_forall fun _ _ => trivial
  rw [final_iff_of_step hinv hboth hinit hall, and_iff_right hgood]

/-- Where a good state stays good exactly on the events that satisfy `P`, a run goes
through good states only exactly when all its events satisfy `P`. -/
theorem along_good_iff {P : σ → ε → Prop} {J Good : σ → Prop}
    (hinv : ∀ state event, J state → J (step state event))
    (hstep : ∀ state event, J state → Good state → (Good (step state event) ↔ P state event))
    {start : σ} (events : List ε) (hinit : J start) (hgood : Good start) :
    Along step (fun state event => Good (step state event)) start events ↔
      Along step P start events := by
  induction events generalizing start with
  | nil => exact Iff.rfl
  | cons event events ih =>
      have hnow := hstep start event hinit hgood
      simp only [Along]
      constructor
      · rintro ⟨hnext, hrest⟩
        exact ⟨hnow.mp hnext, (ih (hinv start event hinit) hnext).mp hrest⟩
      · rintro ⟨hevent, hrest⟩
        have hnext := hnow.mpr hevent
        exact ⟨hnext, (ih (hinv start event hinit) hnext).mpr hrest⟩

/-- Every entry of a history, newest first, is allowed after the entries before it. -/
def Chronicle (allowed : List ε → ε → Prop) : List ε → Prop
  | [] => True
  | entry :: before => allowed before entry ∧ Chronicle allowed before

end Run
