import ZedSync.LifecyclePorts
import ZedSync.Lib.Notify

/-!
The listeners of the lifecycle machine, in the browser and in the Dart port.
A commit calls a copy of the listeners one after another before the dispatch
returns; what a listener throws is dropped. A listener may dispatch in turn, and
the listeners after it then hear of the newer transition before the older one.
-/

namespace ZedSync

open Notify (Notifier Machine)

/-- The ports whose lifecycle machine has listeners. -/
inductive ListenerPort where
  | js
  | dart
  deriving DecidableEq, Repr

/-- The snapshot that is committed, when the transition is applied. -/
def committed : AppLifecycleSnapshot × Option TransitionOutcome → Option AppLifecycleSnapshot
  | (next, some .applied) => some next
  | (_, some .stuttered) | (_, some .stale) | (_, some .rejected) | (_, none) => none

namespace ListenerPort

def initial : ListenerPort → AppLifecycleSnapshot
  | .js => Js.initialSnapshot 0
  | .dart => Dart.stoppedSnapshot 0

def dispatch : ListenerPort → AppLifecycleSnapshot → LifecycleEvent →
    AppLifecycleSnapshot × Option TransitionOutcome
  | .js => Js.dispatch
  | .dart => Dart.dispatch

variable {κ : Type} [DecidableEq κ]

/-- The browser keeps its listeners in a set, Dart in a list. -/
def add : ListenerPort → List κ → κ → List κ
  | .js, listeners, listener =>
      if listener ∈ listeners then listeners else listeners ++ [listener]
  | .dart, listeners, listener => listeners ++ [listener]

/-- `AppLifecycleMachine`. -/
def machine (port : ListenerPort) : Machine AppLifecycleSnapshot LifecycleEvent κ :=
  { reduce := fun snapshot event => committed (port.dispatch snapshot event)
    add := port.add }

abbrev Observed (κ : Type) := Notifier AppLifecycleSnapshot κ

abbrev Happening (κ : Type) := Notify.Event LifecycleEvent κ

def run (port : ListenerPort) (observed : Observed κ) (events : List (Happening κ)) :
    Observed κ :=
  Run.final (Notifier.step port.machine) observed events

/-- A new lifecycle machine, without listeners. -/
def fresh (port : ListenerPort) : Observed κ := Notifier.initial port.initial

/-- The listener is in the set of listeners, once, before every event of the run. -/
def StaysSubscribed (port : ListenerPort) (listener : κ) (start : Observed κ)
    (events : List (Happening κ)) : Prop :=
  Run.Along (Notifier.step port.machine)
    (fun observed _ => observed.listeners.count listener = 1) start events

/-- No transition is applied while the listener has still to be called for an earlier
one. -/
def NoneOvertakes (port : ListenerPort) (listener : κ) (start : Observed κ)
    (events : List (Happening κ)) : Prop :=
  start.owed listener = [] ∧
    Run.Along (Notifier.step port.machine)
      (fun observed event =>
        observed.Applies port.machine event → observed.owed listener = []) start events

instance (port : ListenerPort) (listener : κ) (start : Observed κ)
    (events : List (Happening κ)) :
    Decidable (port.StaysSubscribed listener start events) :=
  inferInstanceAs (Decidable (Run.Along _ _ _ _))

instance (port : ListenerPort) (listener : κ) (start : Observed κ)
    (events : List (Happening κ)) :
    Decidable (port.NoneOvertakes listener start events) :=
  inferInstanceAs (Decidable (_ ∧ _))

end ListenerPort

open ListenerPort

variable {κ : Type} [DecidableEq κ]

/-- Between the two states the listener was called for every commit, each exactly once
and in the order of the commits, and the last snapshot it received is the current one. -/
def SawInOrder (listener : κ) (start last : Observed κ) : Prop :=
  last.received listener start.log.length =
      List.range' start.commits.length (last.commits.length - start.commits.length) ∧
    ∀ index ∈ (last.received listener start.log.length).getLast?,
      last.commits[index]? = some last.value

instance (listener : κ) (start last : Observed κ) : Decidable (SawInOrder listener start last) :=
  inferInstanceAs (Decidable (_ ∧ ∀ index ∈ (_ : Option Nat), _))

/-- Whatever the listeners do: one that stays subscribed through a run has, once all
notifications have ended, seen the transitions in order exactly when no transition was
applied while it had still to be called for an earlier one. -/
theorem saw_in_order_iff (port : ListenerPort) (listener : κ)
    (before events : List (Happening κ))
    (hstays : port.StaysSubscribed listener (port.run port.fresh before) events)
    (hquiet : (port.run (port.run port.fresh before) events).loops = []) :
    SawInOrder listener (port.run port.fresh before)
        (port.run (port.run port.fresh before) events) ↔
      port.NoneOvertakes listener (port.run port.fresh before) events := by
  have hstart : (port.run port.fresh before : Observed κ).Coherent :=
    Notifier.coherent_final port.machine port.initial before
  have hlast : (port.run (port.run port.fresh before) events : Observed κ).Coherent := by
    rw [run, run, ← Run.final_append]
    exact Notifier.coherent_final port.machine port.initial (before ++ events)
  have horder := Notifier.received_eq_range_iff port.machine listener hstart hstays hquiet
  constructor
  · intro hsaw
    exact horder.mp hsaw.1
  · intro hnone
    have hrange := horder.mpr hnone
    exact ⟨hrange, Notifier.latest_of_range listener hlast hrange⟩

/-- Two listeners. -/
def twoListeners : Observed Nat :=
  ListenerPort.js.run ListenerPort.js.fresh [.subscribe 0, .subscribe 1]

/-- The second asks for the cleanup of a failed start, and is the last to be called. -/
theorem cleanup_seen_after_failure :
    SawInOrder 1 twoListeners
      (ListenerPort.js.run twoListeners
        [.dispatch .startRequested, .returns, .returns, .dispatch (.startFailed 1), .returns,
          .dispatch .reconcileRequested, .returns, .returns, .returns]) := by
  apply (saw_in_order_iff .js 1 [.subscribe 0, .subscribe 1] _ _ _).mpr
  · decide
  · decide
  · decide

/-- The first asks for it as soon as it hears of the failure: the second hears of the
cleanup, then of the failure. -/
theorem cleanup_overtakes_failure :
    ∃ events : List (Happening Nat),
      ListenerPort.js.StaysSubscribed 1 twoListeners events ∧
        (ListenerPort.js.run twoListeners events).loops = [] ∧
          ¬ SawInOrder 1 twoListeners (ListenerPort.js.run twoListeners events) :=
  ⟨[.dispatch .startRequested, .returns, .returns, .dispatch (.startFailed 1),
      .dispatch .reconcileRequested, .returns, .returns, .returns, .returns],
    by decide, by decide, by decide⟩

end ZedSync
