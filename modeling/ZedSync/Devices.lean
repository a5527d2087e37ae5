import ZedSync.ClockRuns
import ZedSync.Lib.Causality

/-!
Any number of devices, each of any of the three runtimes, that give out stamps and
observe those of one another (`src/hlc.rs`, `sdk/src/hlc.mjs`,
`dart/zed_sync/lib/src/hlc.dart`). A stamp may reach a device late, more than once,
or never. What the stamps say of the order of the events, and what their walls are.
-/

namespace ZedSync

inductive Runtime where
  | rust
  | js
  | dart
  deriving DecidableEq, Repr

/-- A device-local clock of one of the runtimes. -/
inductive Device where
  | rust (hlc : Rust.Hlc)
  | js (clock : Clock)
  | dart (clock : Clock)
  deriving Repr

namespace Device

def start (actor : String) : Runtime → Device
  | .rust => .rust { wallMs := 0, counter := 0, actor := actor }
  | .js => .js (Clock.fresh actor)
  | .dart => .dart (Clock.fresh actor)

def call : Device → ClockCall → Device
  | .rust hlc, .tick nowMs => .rust (hlc.tick (UInt64.ofNat nowMs))
  | .rust hlc, .observe remote nowMs =>
      .rust (hlc.observe (Rust.Hlc.ofStamp remote) (UInt64.ofNat nowMs))
  | .js clock, .tick nowMs => .js (Js.tick clock nowMs)
  | .js clock, .observe remote nowMs => .js (Js.observe clock remote nowMs)
  | .dart clock, .tick nowMs => .dart (Dart.tick clock nowMs)
  | .dart clock, .observe remote nowMs => .dart (Dart.observe clock remote nowMs)

/-- The state of the clock, whatever keeps it. -/
def clock : Device → Clock
  | .rust hlc => hlc.clock
  | .js clock | .dart clock => clock

def stamp (device : Device) : Hlc := device.clock.stamp

theorem start_clock (actor : String) (runtime : Runtime) :
    (start actor runtime).clock = Clock.fresh actor := by
  cases runtime <;> rfl

/-- On the wire and below the last counter the runtimes do the same. -/
theorem call_clock {device : Device} {call : ClockCall} (hcall : call.OnWire)
    (hroom : (call.apply device.clock).counter ≤ maxCounter) :
    (device.call call).clock = call.apply device.clock := by
  cases device with
  | rust hlc =>
      let clocks : Clocks := { rust := hlc, js := hlc.clock, dart := hlc.clock }
      have hrust : (clocks.step call).rust.clock = Rust.saturated (call.apply hlc.clock) :=
        Clocks.step_rust hcall rfl
      have hsame : (Device.call (.rust hlc) call).clock = (clocks.step call).rust.clock := by
        cases call <;> rfl
      rw [hsame, hrust]
      have hmin : min (call.apply hlc.clock).counter maxCounter = (call.apply hlc.clock).counter :=
        min_eq_left hroom
      simp only [Rust.saturated, hmin]
      rfl
  | js clock => cases call <;> rfl
  | dart clock =>
      have hdart := congrFun (congrFun Dart.clockStep_eq clock) call
      cases call <;> exact hdart

end Device

/-- A stamp that arrives is observed, another event is a tick; the input is the physical
time. A stamp too far ahead is not taken in. -/
def deviceClocks : Causality.Clockwork Device Nat Hlc where
  stamp := Device.stamp
  step device nowMs remote :=
    match remote with
    | none => device.call (.tick nowMs)
    | some stamp => device.call (.observe stamp nowMs)
  Takes nowMs stamp := stamp.wallMs ≤ nowMs + maxDriftMs

/-- Later in time, whoever the actors are. -/
def Hlc.Later (earlier later : Hlc) : Prop :=
  earlier.wallMs < later.wallMs ∨
    earlier.wallMs = later.wallMs ∧ earlier.counter < later.counter

theorem Hlc.Later.trans (first second third : Hlc) (h : first.Later second)
    (h' : second.Later third) : first.Later third := by
  unfold Hlc.Later at *
  omega

/-- The three runtimes have the stamps in this order. -/
def Hlc.Ordered (earlier later : Hlc) : Prop :=
  Rust.cmp later earlier = .gt ∧ 0 < Js.compareHlc later earlier ∧
    0 < Dart.compareTo later earlier

theorem Hlc.Later.ordered {earlier later : Hlc} (h : earlier.Later later) :
    earlier.Ordered later := by
  have hlt : earlier < later :=
    (Hlc.lt_iff _ _).mpr (h.imp id fun ⟨hwall, hcounter⟩ => ⟨hwall, Or.inl hcounter⟩)
  have hjs := (Js.compareHlc_pos_iff later earlier).mpr hlt
  refine ⟨?_, hjs, ?_⟩
  · apply (Rust.cmp_gt_iff _ _).mpr
    exact h.imp id fun ⟨hwall, hcounter⟩ => ⟨hwall.symm, Or.inl hcounter⟩
  · rw [Dart.compareTo_eq_compareHlc]
    exact hjs

/-- A call moves its clock on. -/
theorem ClockCall.later_apply (call : ClockCall) (clock : Clock) :
    clock.stamp.Later (call.apply clock).stamp := by
  have hlt := call.lt_apply clock
  rw [Hlc.lt_iff] at hlt
  have hactor : (call.apply clock).stamp.actor = clock.stamp.actor := call.apply_actor clock
  rw [hactor] at hlt
  exact hlt.imp id fun ⟨hwall, hrest⟩ => ⟨hwall, by simpa using hrest⟩

/-- And past a stamp it takes in. -/
theorem later_observe {remote : Hlc} {nowMs : Nat} (hnear : remote.wallMs ≤ nowMs + maxDriftMs)
    (clock : Clock) : remote.Later (Js.observe clock remote nowMs).stamp := by
  obtain ⟨-, -, hreached, -, hcounter⟩ := observe_cases clock remote nowMs
  rcases (hreached hnear).lt_or_eq with hlt | heq
  · exact Or.inl hlt
  · have hreads : remote.wallMs ≤ nowMs + maxDriftMs ∧
        (Js.observe clock remote nowMs).wallMs = remote.wallMs := ⟨hnear, heq.symm⟩
    simp only [hreads, and_self, if_true] at hcounter
    refine Or.inr ⟨heq, ?_⟩
    change remote.counter < (Js.observe clock remote nowMs).counter
    omega

namespace Devices

open Causality

variable {π : Type}

abbrev World (π : Type) := Causality.World π Device Nat Hlc

abbrev Event (π : Type) := Causality.Event π Nat

/-- The call an event is. -/
def callOf (world : World π) (event : Event π) : ClockCall :=
  match world.heard event with
  | none => .tick event.input
  | some stamp => .observe stamp event.input

/-- The physical time is one of the wire, and the history short of the last counter. -/
def Fits (world : World π) (event : Event π) : Prop :=
  event.input + maxDriftMs ≤ 9007199254740991 ∧ world.history.length < maxCounter

/-- What such events keep: names stay, walls are on the wire, and no counter has
outgrown the number of events. -/
structure Bounded (actor : π → String) (world : World π) : Prop where
  name : ∀ place, (world.clock place).clock.actor = actor place
  wall : ∀ place, (world.clock place).clock.wallMs ≤ 9007199254740991
  counter : ∀ place, (world.clock place).clock.counter ≤ world.history.length
  stamps : ∀ entry ∈ world.history, entry.stamp.wallMs ≤ 9007199254740991 ∧
    entry.stamp.counter ≤ world.history.length ∧ entry.stamp.actor = actor entry.place

variable {actor : π → String} {world : World π} {event : Event π}

theorem heard_mem {stamp : Hlc} (h : world.heard event = some stamp) :
    ∃ entry ∈ world.history, entry.stamp = stamp := by
  unfold Causality.World.heard at h
  obtain ⟨index, -, hentry⟩ := Option.bind_eq_some_iff.mp h
  obtain ⟨entry, hget, rfl⟩ := Option.map_eq_some_iff.mp hentry
  exact ⟨entry, List.mem_of_getElem? hget, rfl⟩

theorem Bounded.callOf_onWire (h : Bounded actor world) (hactor : ∀ place, WireActor (actor place))
    (hfits : Fits world event) : (callOf world event).OnWire := by
  obtain ⟨hinput, hroom⟩ := hfits
  unfold callOf
  cases hheard : world.heard event with
  | none => exact hinput
  | some stamp =>
      obtain ⟨entry, hmem, rfl⟩ := heard_mem hheard
      obtain ⟨hwall, hcounter, hname⟩ := h.stamps entry hmem
      refine ⟨hinput, (Hlc.onWire_iff _).mpr ⟨hwall, hcounter.trans hroom.le, ?_⟩⟩
      rw [hname]
      exact hactor entry.place

/-- A call counts on at most one of the counters it sees. -/
theorem Bounded.counter_apply (h : Bounded actor world) (event : Event π) :
    ((callOf world event).apply (world.clock event.place).clock).counter ≤
      world.history.length + 1 := by
  have hown := h.counter event.place
  unfold callOf
  cases hheard : world.heard event with
  | none =>
      simp only [ClockCall.apply, Js.tick]
      split
      · exact Nat.zero_le _
      · exact Nat.succ_le_succ hown
  | some stamp =>
      obtain ⟨entry, hmem, rfl⟩ := heard_mem hheard
      have hremote := (h.stamps entry hmem).2.1
      obtain ⟨-, -, -, -, hcounter⟩ :=
        observe_cases (world.clock event.place).clock entry.stamp event.input
      simp only [ClockCall.apply]
      split_ifs at hcounter <;> omega

/-- The clock of the device after the event. -/
theorem Bounded.moved_clock (h : Bounded actor world) (hactor : ∀ place, WireActor (actor place))
    (hfits : Fits world event) :
    (deviceClocks.moved world event).clock =
      (callOf world event).apply (world.clock event.place).clock := by
  have hmoved : deviceClocks.moved world event =
      (world.clock event.place).call (callOf world event) := by
    unfold Clockwork.moved callOf
    cases world.heard event <;> rfl
  rw [hmoved]
  apply Device.call_clock (h.callOf_onWire hactor hfits)
  have hcounter := h.counter_apply event
  have hroom := hfits.2
  omega

theorem Bounded.happen [DecidableEq π] (h : Bounded actor world)
    (hactor : ∀ place, WireActor (actor place)) (hfits : Fits world event) :
    Bounded actor (deviceClocks.happen world event) := by
  have hclock := h.moved_clock hactor hfits
  have hwall : (deviceClocks.moved world event).clock.wallMs ≤ 9007199254740991 := by
    rw [hclock]
    exact ClockCall.apply_wall (h.callOf_onWire hactor hfits) (h.wall event.place)
  have hcounter : (deviceClocks.moved world event).clock.counter ≤ world.history.length + 1 := by
    rw [hclock]
    exact h.counter_apply event
  have hname : (deviceClocks.moved world event).clock.actor = actor event.place := by
    rw [hclock, ClockCall.apply_actor, h.name]
  have hlength : (deviceClocks.happen world event).history.length = world.history.length + 1 := by
    simp [Clockwork.happen]
  refine ⟨?_, ?_, ?_, ?_⟩
  · intro place
    simp only [Clockwork.happen]
    split
    · rename_i hplace
      rw [hplace]
      exact hname
    · exact h.name place
  · intro place
    simp only [Clockwork.happen]
    split
    · exact hwall
    · exact h.wall place
  · intro place
    rw [hlength]
    simp only [Clockwork.happen]
    split
    · exact hcounter
    · exact (h.counter place).trans (Nat.le_succ _)
  · intro entry hmem
    rw [hlength]
    rcases List.mem_append.mp hmem with hold | hnew
    · obtain ⟨hw, hc, ha⟩ := h.stamps entry hold
      exact ⟨hw, hc.trans (Nat.le_succ _), ha⟩
    · obtain rfl := List.mem_singleton.mp hnew
      exact ⟨hwall, hcounter, hname⟩

theorem Bounded.raises (h : Bounded actor world) (hactor : ∀ place, WireActor (actor place))
    (hfits : Fits world event) : Raises deviceClocks Hlc.Later world event := by
  have hclock := h.moved_clock hactor hfits
  have hstamp : deviceClocks.stamp (deviceClocks.moved world event) =
      ((callOf world event).apply (world.clock event.place).clock).stamp :=
    congrArg Clock.stamp hclock
  refine ⟨?_, ?_⟩
  · rw [hstamp]
    exact ClockCall.later_apply _ _
  · intro stamp hheard htakes
    rw [hstamp]
    simp only [callOf, hheard]
    exact later_observe htakes _

theorem Bounded.follows (h : Bounded actor world) (hactor : ∀ place, WireActor (actor place))
    (hfits : Fits world event) : Follows deviceClocks Hlc.wallMs id world event := by
  have hclock := h.moved_clock hactor hfits
  have hwall : (deviceClocks.stamp (deviceClocks.moved world event)).wallMs =
      ((callOf world event).apply (world.clock event.place).clock).wallMs :=
    congrArg Clock.wallMs hclock
  have hown : (deviceClocks.stamp (world.clock event.place)).wallMs =
      (world.clock event.place).clock.wallMs := rfl
  cases hheard : world.heard event with
  | none =>
      have hcall : callOf world event = .tick event.input := by simp only [callOf, hheard]
      have htick : ((callOf world event).apply (world.clock event.place).clock).wallMs =
          max event.input (world.clock event.place).clock.wallMs := by
        rw [hcall]
        simp only [ClockCall.apply, Js.tick]
        split
        · rename_i hlater
          exact (max_eq_left hlater.le).symm
        · rename_i hnot
          exact (max_eq_right (not_lt.mp hnot)).symm
      have hnone : ∀ stamp, world.heard event ≠ some stamp := by
        intro stamp hsome
        cases hheard.symm.trans hsome
      refine ⟨?_, ?_, fun stamp hsome => absurd hsome (hnone stamp), ?_⟩
      · rw [hwall, htick]
        exact le_max_left _ _
      · rw [hwall, htick, hown]
        exact le_max_right _ _
      · rw [hwall, htick, hown, id_eq]
        omega
  | some stamp =>
      have hcall : callOf world event = .observe stamp event.input := by
        simp only [callOf, hheard]
      obtain ⟨hself, hnow, hnear, hcases, -⟩ :=
        observe_cases (world.clock event.place).clock stamp event.input
      rw [hcall] at hwall
      change _ = (Js.observe _ _ _).wallMs at hwall
      refine ⟨?_, ?_, ?_, ?_⟩
      · rw [hwall]
        exact hnow
      · rw [hwall, hown]
        exact hself
      · intro other hother htakes
        obtain rfl := Option.some.inj (hheard.symm.trans hother)
        rw [hwall]
        exact hnear htakes
      · rw [hwall, hown]
        rcases hcases with hkept | hread | ⟨htakes, hremote⟩
        · exact Or.inr (Or.inl hkept)
        · exact Or.inl hread
        · exact Or.inr (Or.inr ⟨stamp, hheard, htakes, hremote⟩)

/-- Devices of these runtimes and names, at the start. -/
def fresh (runtime : π → Runtime) (actor : π → String) (place : π) : Device :=
  Device.start (actor place) (runtime place)

theorem bounded_fresh (runtime : π → Runtime) (actor : π → String) :
    Bounded actor { clock := fresh runtime actor, history := [] } := by
  refine ⟨?_, ?_, ?_, by simp⟩ <;> intro place <;>
    simp [fresh, Device.start_clock, Clock.fresh]

section Runs

variable [DecidableEq π]

/-- A run of few enough events, whose physical times are of the wire. -/
theorem along_fits (start : World π) (events : List (Event π))
    (hlength : start.history.length + events.length ≤ maxCounter)
    (hreadings : ∀ event ∈ events, event.input + maxDriftMs ≤ 9007199254740991) :
    Run.Along deviceClocks.happen Fits start events := by
  induction events generalizing start with
  | nil => trivial
  | cons event events ih =>
      simp only [List.length_cons] at hlength
      refine ⟨⟨hreadings event List.mem_cons_self, by omega⟩, ?_⟩
      apply ih
      · simp only [Clockwork.happen, List.length_append, List.length_singleton]
        omega
      · exact fun later hlater => hreadings later (List.mem_cons_of_mem _ hlater)

/-- The stamps of a history are of the wire, each is later than all of its past in
every runtime, and devices of different names never share one. -/
structure Causal (actor : π → String) (history : List (Entry π Nat Hlc)) : Prop where
  onWire : ∀ entry ∈ history, entry.stamp.OnWire
  ordered : ∀ (i j : Nat) (earlier later : Entry π Nat Hlc), Before deviceClocks history i j →
    history[i]? = some earlier → history[j]? = some later →
    Hlc.Ordered earlier.stamp later.stamp
  distinct : Function.Injective actor → (history.map Entry.stamp).Nodup

theorem causal_of_ordered {world : World π} (hactor : ∀ place, WireActor (actor place))
    (hlength : world.history.length ≤ maxCounter) (hbounded : Bounded actor world)
    (hordered : Ordered deviceClocks Hlc.Later world) : Causal actor world.history := by
  refine ⟨?_, ?_, ?_⟩
  · intro entry hmem
    obtain ⟨hwall, hcounter, hname⟩ := hbounded.stamps entry hmem
    refine (Hlc.onWire_iff _).mpr ⟨hwall, hcounter.trans hlength, ?_⟩
    rw [hname]
    exact hactor entry.place
  · intro i j earlier later hbefore hearlier hlater
    exact (hordered.before Hlc.Later.trans hbefore hearlier hlater).ordered
  · intro hinjective
    rw [List.Nodup, List.pairwise_map, List.pairwise_iff_getElem]
    intro i j hi hj hlt hsame
    have hearlier := List.getElem?_eq_getElem hi
    have hlater := List.getElem?_eq_getElem hj
    by_cases hplace : world.history[i].place = world.history[j].place
    · have hrise := hordered.rises i j _ _ (leads_of_place hlt hearlier hlater hplace) hearlier
        hlater
      rw [hsame] at hrise
      rcases hrise with hwall | ⟨-, hcounter⟩
      · exact absurd hwall (lt_irrefl _)
      · exact absurd hcounter (lt_irrefl _)
    · have hfirst := (hbounded.stamps _ (List.getElem_mem hi)).2.2
      have hsecond := (hbounded.stamps _ (List.getElem_mem hj)).2.2
      apply hplace
      apply hinjective
      rw [← hfirst, ← hsecond, hsame]

/-- What holds of bounded worlds and fitting events holds along every run of devices. -/
theorem run_along {Q : World π → Event π → Prop} (runtime : π → Runtime) {actor : π → String}
    (hactor : ∀ place, WireActor (actor place)) {events : List (Event π)}
    (hlength : events.length ≤ maxCounter)
    (hreadings : ∀ event ∈ events, event.input + maxDriftMs ≤ 9007199254740991)
    (hevent : ∀ world event, Bounded actor world → Fits world event → Q world event) :
    Run.Along deviceClocks.happen Q { clock := fresh runtime actor, history := [] } events ∧
      Bounded actor (deviceClocks.run (fresh runtime actor) events) := by
  have hfits := along_fits { clock := fresh runtime actor, history := [] } events
    (by simpa using hlength) hreadings
  have hinit := bounded_fresh runtime actor
  refine ⟨?_, ?_⟩
  · exact Run.along_of_inv (J := Bounded actor) (fun world event hbounded hfits =>
      ⟨hevent world event hbounded hfits, hbounded.happen hactor hfits⟩) hinit hfits
  · exact Run.induction (J := Bounded actor)
      (fun _ _ hbounded hfits => hbounded.happen hactor hfits) hinit hfits

/-- In every run of devices, whatever stamps reach them and when, the stamps tell causes
from effects. -/
theorem run_causal (runtime : π → Runtime) (actor : π → String)
    (hactor : ∀ place, WireActor (actor place)) (events : List (Event π))
    (hlength : events.length ≤ maxCounter)
    (hreadings : ∀ event ∈ events, event.input + maxDriftMs ≤ 9007199254740991) :
    Causal actor (deviceClocks.run (fresh runtime actor) events).history := by
  obtain ⟨hraises, hbounded⟩ := run_along runtime hactor hlength hreadings
    fun _ _ hbounded hfits => hbounded.raises hactor hfits
  apply causal_of_ordered hactor _ hbounded (run_ordered Hlc.Later.trans _ hraises)
  rw [Clockwork.run, Clockwork.length_final]
  simpa using hlength

/-- Three devices of the three runtimes. The phone is far behind in time, and writes after
the change of the others has reached it. -/
def relayActor : Runtime → String
  | .rust => "hub"
  | .js => "browser"
  | .dart => "phone"

def relayed : List (Event Runtime) :=
  [{ place := .js, input := 1700, hears := none },
    { place := .rust, input := 900, hears := some 0 },
    { place := .dart, input := 10, hears := some 1 },
    { place := .dart, input := 11, hears := none }]

theorem relayed_causal :
    Causal relayActor (deviceClocks.run (fresh id relayActor) relayed).history :=
  run_causal id relayActor (fun place => by cases place <;> decide) relayed (by decide)
    (by decide)

/-- The wall of every stamp is the latest physical time in its past: devices never run
ahead of the fastest among them. -/
theorem wall_is_latest_reading (runtime : π → Runtime) (actor : π → String)
    (hactor : ∀ place, WireActor (actor place)) (events : List (Event π))
    (hlength : events.length ≤ maxCounter)
    (hreadings : ∀ event ∈ events, event.input + maxDriftMs ≤ 9007199254740991) :
    HighestReading deviceClocks Hlc.wallMs id
      (deviceClocks.run (fresh runtime actor) events).history := by
  obtain ⟨hfollows, -⟩ := run_along runtime hactor hlength hreadings
    fun _ _ hbounded hfits => hbounded.follows hactor hfits
  apply highest_reading _ hfollows
  intro place input
  change (fresh runtime actor place).clock.wallMs ≤ input
  rw [fresh, Device.start_clock]
  exact Nat.zero_le _

theorem relayed_wall_is_latest_reading :
    HighestReading deviceClocks Hlc.wallMs id
      (deviceClocks.run (fresh id relayActor) relayed).history :=
  wall_is_latest_reading id relayActor (fun place => by cases place <;> decide) relayed
    (by decide) (by decide)

end Runs

end Devices

end ZedSync
