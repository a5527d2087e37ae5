import ZedSync.Hlc

/-!
The device-local clocks of the two clients (`sdk/src/hlc.mjs`,
`dart/zed_sync/lib/src/hlc.dart`). `Date.now()` is an argument. The counter is
an exact integer in both languages.
-/

namespace ZedSync

/-- A remote stamp running further ahead of the device than this is ignored. -/
def maxDriftMs : Nat := 300000

structure Clock where
  actor : String
  wallMs : Nat
  counter : Nat
  deriving DecidableEq, Repr, Inhabited

/-- A new clock object. -/
def Clock.fresh (actor : String) : Clock := { actor := actor, wallMs := 0, counter := 0 }

/-- The stamp `tick` and `observe` return. -/
def Clock.stamp (clock : Clock) : Hlc :=
  { wallMs := clock.wallMs, counter := clock.counter, actor := clock.actor }

namespace Js

def tick (clock : Clock) (nowMs : Nat) : Clock :=
  if nowMs > clock.wallMs then { clock with wallMs := nowMs, counter := 0 }
  else { clock with counter := clock.counter + 1 }

def observe (clock : Clock) (remote : Hlc) (nowMs : Nat) : Clock :=
  let remoteOk : Bool := remote.wallMs ≤ nowMs + maxDriftMs
  let maxWall :=
    if remoteOk then max nowMs (max clock.wallMs remote.wallMs)
    else max nowMs clock.wallMs
  let counter :=
    if remoteOk ∧ maxWall = clock.wallMs ∧ maxWall = remote.wallMs then
      max clock.counter remote.counter + 1
    else if maxWall = clock.wallMs then clock.counter + 1
    else if remoteOk ∧ maxWall = remote.wallMs then remote.counter + 1
    else 0
  { clock with wallMs := maxWall, counter := counter }

end Js

namespace Dart

def tick (clock : Clock) (now : Nat) : Clock :=
  if now > clock.wallMs then { clock with wallMs := now, counter := 0 }
  else { clock with counter := clock.counter + 1 }

def observe (clock : Clock) (remote : Hlc) (now : Nat) : Clock :=
  let remoteOk : Bool := remote.wallMs ≤ now + maxDriftMs
  let remoteWall := if remoteOk then remote.wallMs else 0
  let maxWall := max (max now clock.wallMs) remoteWall
  let counter :=
    if remoteOk ∧ maxWall = clock.wallMs ∧ maxWall = remote.wallMs then
      max clock.counter remote.counter + 1
    else if maxWall = clock.wallMs then clock.counter + 1
    else if remoteOk ∧ maxWall = remote.wallMs then remote.counter + 1
    else 0
  { clock with wallMs := maxWall, counter := counter }

theorem tick_eq : tick = Js.tick := rfl

theorem observe_eq : observe = Js.observe := by
  funext clock remote now
  have hwall : max (max now clock.wallMs)
      (if remote.wallMs ≤ now + maxDriftMs then remote.wallMs else 0) =
      if remote.wallMs ≤ now + maxDriftMs then max now (max clock.wallMs remote.wallMs)
      else max now clock.wallMs := by
    split <;> omega
  simp only [observe, Js.observe, decide_eq_true_eq, hwall]

end Dart

@[simp] theorem tick_actor (clock : Clock) (nowMs : Nat) :
    (Js.tick clock nowMs).actor = clock.actor := by
  simp only [Js.tick]
  split <;> rfl

@[simp] theorem observe_actor (clock : Clock) (remote : Hlc) (nowMs : Nat) :
    (Js.observe clock remote nowMs).actor = clock.actor := rfl

/-- A tick returns the later of two stamps: the device reading with a zero
counter, and the successor of the clock's own stamp. -/
theorem tick_stamp (clock : Clock) (nowMs : Nat) :
    (Js.tick clock nowMs).stamp =
      max ⟨nowMs, 0, clock.actor⟩ ⟨clock.wallMs, clock.counter + 1, clock.actor⟩ := by
  by_cases hahead : nowMs > clock.wallMs
  · have hlt : (⟨clock.wallMs, clock.counter + 1, clock.actor⟩ : Hlc) <
        ⟨nowMs, 0, clock.actor⟩ := (Hlc.lt_iff _ _).mpr (Or.inl hahead)
    rw [max_eq_left hlt.le]
    simp [Js.tick, hahead, Clock.stamp]
  · have hlt : (⟨nowMs, 0, clock.actor⟩ : Hlc) <
        ⟨clock.wallMs, clock.counter + 1, clock.actor⟩ := by
      apply (Hlc.lt_iff _ _).mpr
      rcases Nat.lt_or_ge nowMs clock.wallMs with hwall | hwall
      · exact Or.inl hwall
      · exact Or.inr ⟨by simp only; omega, Or.inl (Nat.succ_pos _)⟩
    rw [max_eq_right hlt.le]
    simp [Js.tick, hahead, Clock.stamp]

/-- A clock never goes back to a stamp it gave out. -/
theorem lt_tick (clock : Clock) (nowMs : Nat) : clock.stamp < (Js.tick clock nowMs).stamp := by
  have hsucc : clock.stamp < ⟨clock.wallMs, clock.counter + 1, clock.actor⟩ :=
    (Hlc.lt_iff _ _).mpr (Or.inr ⟨rfl, Or.inl (Nat.lt_succ_self _)⟩)
  rw [tick_stamp]
  exact hsucc.trans_le (le_max_right _ _)

theorem lt_observe (clock : Clock) (remote : Hlc) (nowMs : Nat) :
    clock.stamp < (Js.observe clock remote nowMs).stamp := by
  have hwall : clock.wallMs ≤ (Js.observe clock remote nowMs).wallMs := by
    simp only [Js.observe]
    split <;> omega
  apply (Hlc.lt_iff _ _).mpr
  rcases hwall.lt_or_eq with hlt | heq
  · exact Or.inl hlt
  · refine Or.inr ⟨heq, Or.inl ?_⟩
    simp only [Js.observe, decide_eq_true_eq] at heq
    simp only [Clock.stamp, Js.observe, decide_eq_true_eq, ← heq, true_and]
    split
    · omega
    · simp

end ZedSync
