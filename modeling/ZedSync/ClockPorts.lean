import ZedSync.Agreement
import ZedSync.Rust.Clock

/-!
The three clocks side by side, under calls and remote stamps that the wire schema
(`protocol/change-event.schema.json`) lets through. They agree until a counter is
to pass the last one of the schema: there Rust stays on it, while JavaScript and
Dart count on, off the wire.
-/

namespace ZedSync

def WireActor (actor : String) : Prop := 1 ≤ actor.length ∧ actor.length ≤ 256

instance (actor : String) : Decidable (WireActor actor) :=
  inferInstanceAs (Decidable (_ ∧ _))

theorem Hlc.onWire_iff (stamp : Hlc) : stamp.OnWire ↔
    stamp.wallMs ≤ 9007199254740991 ∧ stamp.counter ≤ maxCounter ∧ WireActor stamp.actor :=
  ⟨fun h => ⟨h.wall, h.counter, h.actor⟩, fun ⟨hwall, hcounter, hactor⟩ =>
    ⟨hwall, hcounter, hactor⟩⟩

/-- The physical time leaves room for the drift, and a remote is one of the wire. -/
def ClockCall.OnWire : ClockCall → Prop
  | .tick nowMs => nowMs + maxDriftMs ≤ 9007199254740991
  | .observe remote nowMs => nowMs + maxDriftMs ≤ 9007199254740991 ∧ remote.OnWire

instance (call : ClockCall) : Decidable call.OnWire :=
  match call with
  | .tick _ => inferInstanceAs (Decidable (_ ≤ _))
  | .observe remote _ =>
      have : Decidable remote.OnWire := decidable_of_iff _ remote.onWire_iff.symm
      inferInstanceAs (Decidable (_ ≤ _ ∧ remote.OnWire))

instance (call : ClockCall) (clock : Clock) : Decidable (call.OwnRoom clock) :=
  match call with
  | .tick _ => inferInstanceAs (Decidable (_ ∨ _))
  | .observe _ _ => inferInstanceAs (Decidable (_ ∨ _ ∧ _ ∨ _))

instance (call : ClockCall) (clock : Clock) : Decidable (call.RemoteRoom clock) :=
  match call with
  | .tick _ => inferInstanceAs (Decidable True)
  | .observe _ _ => inferInstanceAs (Decidable (_ → _))

/-- One clock of each runtime. -/
structure Clocks where
  rust : Rust.Hlc
  js : Clock
  dart : Clock
  deriving DecidableEq, Repr

namespace Clocks

def fresh (actor : String) : Clocks :=
  { rust := { wallMs := 0, counter := 0, actor := actor }
    js := Clock.fresh actor
    dart := Clock.fresh actor }

/-- The same call on each. -/
def step (clocks : Clocks) : ClockCall → Clocks
  | .tick nowMs =>
      { rust := clocks.rust.tick (UInt64.ofNat nowMs)
        js := Js.tick clocks.js nowMs
        dart := Dart.tick clocks.dart nowMs }
  | .observe remote nowMs =>
      { rust := clocks.rust.observe (Rust.Hlc.ofStamp remote) (UInt64.ofNat nowMs)
        js := Js.observe clocks.js remote nowMs
        dart := Dart.observe clocks.dart remote nowMs }

/-- The three stamps are one, and it satisfies the schema. -/
def Agree (clocks : Clocks) : Prop :=
  clocks.rust.stamp = clocks.js.stamp ∧ clocks.dart.stamp = clocks.js.stamp ∧
    clocks.js.stamp.OnWire

/-- What the calls keep as long as the clocks agree. -/
structure Inv (actor : String) (clocks : Clocks) : Prop where
  rust : clocks.rust.clock = clocks.js
  dart : clocks.dart = clocks.js
  actor : clocks.js.actor = actor
  wall : clocks.js.wallMs ≤ 9007199254740991
  counter : clocks.js.counter ≤ maxCounter

theorem fresh_inv (actor : String) : Inv actor (fresh actor) :=
  ⟨rfl, rfl, rfl, Nat.zero_le _, Nat.zero_le _⟩

end Clocks

/-- What a call does to the clock of the browser. -/
def ClockCall.apply (clock : Clock) : ClockCall → Clock
  | .tick nowMs => Js.tick clock nowMs
  | .observe remote nowMs => Js.observe clock remote nowMs

theorem ClockCall.apply_actor (clock : Clock) (call : ClockCall) :
    (call.apply clock).actor = clock.actor := by
  cases call with
  | tick nowMs => exact tick_actor clock nowMs
  | observe remote nowMs => exact observe_actor clock remote nowMs

theorem ClockCall.apply_wall {clock : Clock} {call : ClockCall} (hcall : call.OnWire)
    (hclock : clock.wallMs ≤ 9007199254740991) : (call.apply clock).wallMs ≤ 9007199254740991 := by
  cases call with
  | tick nowMs =>
      have hnow : nowMs + maxDriftMs ≤ 9007199254740991 := hcall
      simp only [ClockCall.apply, Js.tick]
      split
      · exact (Nat.le_add_right _ _).trans hnow
      · exact hclock
  | observe remote nowMs =>
      have hnow := hcall.1
      obtain ⟨-, -, -, hwall, -⟩ := observe_cases clock remote nowMs
      change (Js.observe clock remote nowMs).wallMs ≤ 9007199254740991
      omega

/-- The counter passes the last one exactly where there is no room for it. -/
theorem ClockCall.apply_counter_iff {clock : Clock} {call : ClockCall} (hcall : call.OnWire)
    (hclock : clock.counter ≤ maxCounter) :
    (call.apply clock).counter ≤ maxCounter ↔ call.OwnRoom clock ∧ call.RemoteRoom clock := by
  cases call with
  | tick nowMs =>
      simp only [ClockCall.apply, Js.tick, ClockCall.OwnRoom, ClockCall.RemoteRoom, and_true]
      split_ifs with hlater
      · simp [hlater]
      · dsimp only
        omega
  | observe remote nowMs =>
      have hremote : remote.counter ≤ maxCounter := hcall.2.counter
      obtain ⟨hself, hnow, hnear, hwall, hcounter⟩ := observe_cases clock remote nowMs
      simp only [ClockCall.apply, ClockCall.OwnRoom, ClockCall.RemoteRoom]
      split_ifs at hcounter <;> omega

namespace Clocks

theorem step_js (clocks : Clocks) (call : ClockCall) :
    (step clocks call).js = call.apply clocks.js := by
  cases call <;> rfl

theorem step_dart (clocks : Clocks) (call : ClockCall) :
    (step clocks call).dart = call.apply clocks.dart := by
  cases call with
  | tick nowMs => exact congrFun (congrFun Dart.tick_eq clocks.dart) nowMs
  | observe remote nowMs =>
      exact congrFun (congrFun (congrFun Dart.observe_eq clocks.dart) remote) nowMs

theorem step_rust {clocks : Clocks} {call : ClockCall} (hcall : call.OnWire)
    (hrust : clocks.rust.clock = clocks.js) :
    (step clocks call).rust.clock = Rust.saturated (call.apply clocks.js) := by
  cases call with
  | tick nowMs =>
      have hnow : (UInt64.ofNat nowMs).toNat = nowMs := by
        apply UInt64.toNat_ofNat_of_lt'
        have hbound : nowMs + maxDriftMs ≤ 9007199254740991 := hcall
        simp only [UInt64.size]
        omega
      rw [step, Rust.tick_clock, hrust, hnow]
      rfl
  | observe remote nowMs =>
      have hnow : (UInt64.ofNat nowMs).toNat = nowMs := by
        apply UInt64.toNat_ofNat_of_lt'
        have hbound := hcall.1
        simp only [UInt64.size]
        omega
      have hremote : (Rust.Hlc.ofStamp remote).stamp = remote := by
        obtain ⟨hwall, hcounter, -⟩ := hcall.2
        have hwall64 : (UInt64.ofNat remote.wallMs).toNat = remote.wallMs := by
          apply UInt64.toNat_ofNat_of_lt'
          simp only [UInt64.size]
          omega
        have hcounter32 : (UInt32.ofNat remote.counter).toNat = remote.counter := by
          apply UInt32.toNat_ofNat_of_lt'
          simp only [UInt32.size]
          omega
        simp only [Rust.Hlc.stamp, Rust.Hlc.ofStamp, hwall64, hcounter32]
      rw [step, Rust.observe_clock, hrust, hnow, hremote]
      rfl

/-- After a call the clocks still agree exactly when no counter stopped it. -/
theorem agree_step_iff {actor : String} {clocks : Clocks} {call : ClockCall}
    (h : Inv actor clocks) (hcall : call.OnWire) :
    Agree (step clocks call) ↔
      WireActor actor ∧ call.OwnRoom clocks.js ∧ call.RemoteRoom clocks.js := by
  have hwall := call.apply_wall hcall h.wall
  have hactor : (call.apply clocks.js).actor = actor := (call.apply_actor clocks.js).trans h.actor
  have hrust : (step clocks call).rust.stamp = (Rust.saturated (call.apply clocks.js)).stamp :=
    congrArg Clock.stamp (step_rust hcall h.rust)
  have hdart : (step clocks call).dart = (step clocks call).js := by
    rw [step_dart, step_js, h.dart]
  have hsaturated : (Rust.saturated (call.apply clocks.js)).stamp = (call.apply clocks.js).stamp ↔
      (call.apply clocks.js).counter ≤ maxCounter := by
    simp [Rust.saturated, Clock.stamp]
  rw [Agree, hrust, hdart, step_js, hsaturated, Hlc.onWire_iff,
    ← ClockCall.apply_counter_iff hcall h.counter]
  simp only [Clock.stamp, hactor, hwall, true_and]
  constructor
  · rintro ⟨hcounter, -, hname⟩
    exact ⟨hname, hcounter⟩
  · rintro ⟨hname, hcounter⟩
    exact ⟨hcounter, hcounter, hname⟩

theorem Inv.step {actor : String} {clocks : Clocks} {call : ClockCall} (h : Inv actor clocks)
    (hcall : call.OnWire) (hagree : Agree (step clocks call)) : Inv actor (step clocks call) := by
  have hcounter : (call.apply clocks.js).counter ≤ maxCounter := by
    rw [← step_js]
    exact hagree.2.2.counter
  refine ⟨?_, ?_, ?_, ?_, ?_⟩
  · rw [step_rust hcall h.rust, step_js]
    simp [Rust.saturated, hcounter]
  · rw [step_dart, step_js, h.dart]
  · rw [step_js, ClockCall.apply_actor, h.actor]
  · rw [step_js]
    exact call.apply_wall hcall h.wall
  · rw [step_js]
    exact hcounter

/-- On the wire's calls the three fresh clocks give the same stamp after every call,
each one of the wire, exactly when the actor is one of the wire and no call is to
count a stamp's last counter on. -/
theorem clocks_agree_iff (actor : String) (calls : List ClockCall)
    (hcalls : ∀ call ∈ calls, call.OnWire) :
    Run.Along step (fun clocks call => Agree (step clocks call)) (fresh actor) calls ↔
      Run.Along step (fun clocks call =>
        WireActor actor ∧ call.OwnRoom clocks.js ∧ call.RemoteRoom clocks.js)
        (fresh actor) calls := by
  have hsteps (clocks : Clocks) (hinv : Inv actor clocks) :
      Run.Along step (fun clocks call => Agree (step clocks call)) clocks calls ↔
        Run.Along step (fun clocks call =>
          WireActor actor ∧ call.OwnRoom clocks.js ∧ call.RemoteRoom clocks.js) clocks calls := by
    induction calls generalizing clocks with
    | nil => exact Iff.rfl
    | cons call calls ih =>
        have hcall := hcalls call List.mem_cons_self
        have hrest := ih fun later hlater => hcalls later (List.mem_cons_of_mem _ hlater)
        have hnow := agree_step_iff hinv hcall
        constructor
        · rintro ⟨hagree, hlater⟩
          exact ⟨hnow.mp hagree, (hrest _ (hinv.step hcall hagree)).mp hlater⟩
        · rintro ⟨hroom, hlater⟩
          have hagree := hnow.mpr hroom
          exact ⟨hagree, (hrest _ (hinv.step hcall hagree)).mpr hlater⟩
  exact hsteps (fresh actor) (fresh_inv actor)

/-- A tick, a remote of the last counter but one, and a tick in the same millisecond. -/
def countedCalls : List ClockCall :=
  [.tick 5, .observe { wallMs := 7, counter := 4294967293, actor := "b" } 6, .tick 7]

theorem counted_clocks_agree :
    Run.Along step (fun clocks call => Agree (step clocks call)) (fresh "a") countedCalls :=
  (clocks_agree_iff "a" countedCalls (by decide)).mpr (by decide)

/-- At the last counter Rust stays on the wire, and the others leave it. -/
theorem clocks_part_at_the_last_counter :
    let call : ClockCall := .observe { wallMs := 5, counter := 4294967295, actor := "b" } 5
    let after := step (fresh "a") call
    call.OnWire ∧ after.rust.stamp.counter = 4294967295 ∧
      after.js.stamp.counter = 4294967296 ∧ after.dart.stamp.counter = 4294967296 ∧
      ¬ Agree after := by
  intro call after
  have hrust : after.rust.stamp.counter = 4294967295 := by decide
  have hjs : after.js.stamp.counter = 4294967296 := by decide
  refine ⟨by decide, hrust, hjs, by decide, ?_⟩
  rintro ⟨hsame, -⟩
  rw [hsame, hjs] at hrust
  cases hrust

end Clocks

end ZedSync
