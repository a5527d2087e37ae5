import Mathlib.Data.List.Induction
import ZedSync.Lib.Run

/-!
A system that keeps one slot for every address. Each event is addressed, and what it
does to the slot of its address depends on that slot alone. Whether it leaves the slots
of the other addresses alone is what the system has to show: along the runs where every
event does, each slot goes its own way, through the events addressed to it.
-/

namespace Family

/-- A system seen slot by slot: an event does to the slot of its address what `act` does. -/
structure Slots (σ ε κ ν : Type) where
  step : σ → ε → σ
  address : ε → κ
  view : σ → κ → ν
  act : ν → ε → ν
  own : ∀ state event, view (step state event) (address event) =
    act (view state (address event)) event

namespace Slots

variable {σ ε κ ν : Type} (slots : Slots σ ε κ ν)

/-- The event, unless it is addressed to `key`, leaves the slot of `key` as it is. -/
def Spares (key : κ) (state : σ) (event : ε) : Prop :=
  slots.address event ≠ key → slots.view (slots.step state event) key = slots.view state key

/-- The event leaves every slot but its own as it is. -/
def StaysHome (state : σ) (event : ε) : Prop := ∀ key, slots.Spares key state event

section Own

variable [DecidableEq κ]

/-- The events of a run that are addressed to `key`. -/
def addressed (key : κ) (events : List ε) : List ε :=
  events.filter (slots.address · = key)

/-- The slot of `key` after the events addressed to it, and no others. -/
def alone (key : κ) (start : σ) (events : List ε) : ν :=
  Run.final slots.act (slots.view start key) (slots.addressed key events)

theorem view_step {key : κ} {state : σ} {event : ε} (h : slots.Spares key state event) :
    slots.view (slots.step state event) key =
      if slots.address event = key then slots.act (slots.view state key) event
      else slots.view state key := by
  split
  · rename_i haddress
    subst haddress
    exact slots.own state event
  · rename_i haddress
    exact h haddress

theorem addressed_snoc (key : κ) (events : List ε) (event : ε) :
    slots.addressed key (events ++ [event]) =
      slots.addressed key events ++ if slots.address event = key then [event] else [] := by
  by_cases haddress : slots.address event = key
  · simp [addressed, haddress]
  · simp [addressed, haddress]

/-- A slot that the other events spare goes through its own events only. -/
theorem view_final {key : κ} {start : σ} {events : List ε}
    (h : Run.Along slots.step (slots.Spares key) start events) :
    slots.view (Run.final slots.step start events) key = slots.alone key start events := by
  induction events generalizing start with
  | nil => rfl
  | cons event events ih =>
      have hrest := ih h.2
      have hnow := slots.view_step h.1
      rw [Run.final_cons, hrest, alone, alone, hnow]
      by_cases haddress : slots.address event = key
      · simp [addressed, haddress]
      · simp [addressed, haddress]

/-- The slots go their own ways through a run, at every point of it, exactly when every
event of the run stays home. -/
theorem apart_iff (start : σ) (events : List ε) :
    (∀ before, before <+: events → ∀ key,
        slots.view (Run.final slots.step start before) key = slots.alone key start before) ↔
      Run.Along slots.step slots.StaysHome start events := by
  induction events using List.reverseRecOn with
  | nil =>
      constructor
      · exact fun _ => trivial
      · intro _ before hbefore key
        obtain rfl := List.prefix_nil.mp hbefore
        rfl
  | append_singleton events event ih =>
      rw [Run.along_append]
      constructor
      · intro hall
        have hbefore := ih.mp fun before hinitial =>
          hall before (hinitial.trans (List.prefix_append events [event]))
        refine ⟨hbefore, fun key haddress => ?_, trivial⟩
        have hlast := hall (events ++ [event]) List.prefix_rfl key
        rw [Run.final_append, alone, addressed_snoc, if_neg haddress, List.append_nil] at hlast
        rw [slots.view_final (hbefore.mono fun _ _ hhome => hhome key)]
        exact hlast
      · rintro ⟨hbefore, hlast, -⟩ before hinitial key
        have hown : Run.Along slots.step (slots.Spares key) start (events ++ [event]) := by
          rw [Run.along_append]
          exact ⟨hbefore.mono fun _ _ hhome => hhome key, hlast key, trivial⟩
        obtain ⟨rest, hsplit⟩ := hinitial
        rw [← hsplit, Run.along_append] at hown
        exact slots.view_final hown.1

end Own

end Slots

end Family
