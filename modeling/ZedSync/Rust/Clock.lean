import ZedSync.Clock
import ZedSync.Lib.Run

/-!
The canonical clock (`src/hlc.rs`): a stamp of a `u64` wall and a `u32` counter
that is its own clock. Its arithmetic saturates. Every call but one kind moves the
stamp up: at the last counter a call that leaves the wall where it is leaves the
whole stamp.
-/

namespace ZedSync

/-- The last counter of a stamp. -/
def maxCounter : Nat := 4294967295

/-- The calls on a device-local clock. -/
inductive ClockCall where
  | tick (nowMs : Nat)
  | observe (remote : Hlc) (nowMs : Nat)
  deriving Repr

/-- The clock's own counter does not stop the call: the wall moves on, or the counter
is not the last. -/
def ClockCall.OwnRoom (clock : Clock) : ClockCall → Prop
  | .tick nowMs => clock.wallMs < nowMs ∨ clock.counter < maxCounter
  | .observe remote nowMs =>
      clock.wallMs < nowMs ∨
        remote.wallMs ≤ nowMs + maxDriftMs ∧ clock.wallMs < remote.wallMs ∨
        clock.counter < maxCounter

/-- Nor does the counter of a remote in range: the wall is past it, or that counter is
not the last. -/
def ClockCall.RemoteRoom (clock : Clock) : ClockCall → Prop
  | .tick _ => True
  | .observe remote nowMs =>
      remote.wallMs ≤ nowMs + maxDriftMs →
        remote.wallMs < nowMs ∨ remote.wallMs < clock.wallMs ∨ remote.counter < maxCounter

/-- What an observation leaves, by the wall it reaches. -/
theorem observe_cases (clock : Clock) (remote : Hlc) (nowMs : Nat) :
    let after := Js.observe clock remote nowMs
    let near := remote.wallMs ≤ nowMs + maxDriftMs
    clock.wallMs ≤ after.wallMs ∧ nowMs ≤ after.wallMs ∧ (near → remote.wallMs ≤ after.wallMs) ∧
      (after.wallMs = clock.wallMs ∨ after.wallMs = nowMs ∨ near ∧ after.wallMs = remote.wallMs) ∧
      after.counter =
        max (if after.wallMs = clock.wallMs then clock.counter + 1 else 0)
          (if near ∧ after.wallMs = remote.wallMs then remote.counter + 1 else 0) := by
  intro after near
  simp only [after, near, ← Dart.observe_eq, Dart.observe, decide_eq_true_eq]
  by_cases hnear : remote.wallMs ≤ nowMs + maxDriftMs
  · simp only [hnear, if_true, true_and, true_implies]
    refine ⟨by omega, by omega, by omega, by omega, ?_⟩
    split_ifs <;> omega
  · simp only [hnear, if_false, false_and, false_implies, or_false, Nat.max_zero]
    exact ⟨by omega, by omega, trivial, by omega, trivial⟩

namespace Rust

/-- `Hlc`, a stamp and the state of a clock. -/
@[ext] structure Hlc where
  wallMs : UInt64
  counter : UInt32
  actor : String
  deriving DecidableEq, Repr

/-- `u64::saturating_add`. -/
def saturatingAdd64 (first second : UInt64) : UInt64 :=
  if first.toNat + second.toNat < UInt64.size then first + second else 18446744073709551615

/-- `u32::saturating_add`. -/
def saturatingAdd32 (first second : UInt32) : UInt32 :=
  if first.toNat + second.toNat < UInt32.size then first + second else 4294967295

/-- `MAX_DRIFT_MS`. -/
def maxDrift : UInt64 := 300000

def Hlc.tick (hlc : Hlc) (physicalNowMs : UInt64) : Hlc :=
  if physicalNowMs > hlc.wallMs then { hlc with wallMs := physicalNowMs, counter := 0 }
  else { hlc with counter := saturatingAdd32 hlc.counter 1 }

def Hlc.observe (hlc remote : Hlc) (physicalNowMs : UInt64) : Hlc :=
  let remoteOk : Bool := remote.wallMs ≤ saturatingAdd64 physicalNowMs maxDrift
  let remoteWall := if remoteOk then remote.wallMs else 0
  let maxWall := max (max physicalNowMs hlc.wallMs) remoteWall
  let counter :=
    if remoteOk ∧ maxWall = hlc.wallMs ∧ maxWall = remote.wallMs then
      saturatingAdd32 (max hlc.counter remote.counter) 1
    else if maxWall = hlc.wallMs then saturatingAdd32 hlc.counter 1
    else if remoteOk ∧ maxWall = remote.wallMs then saturatingAdd32 remote.counter 1
    else 0
  { hlc with wallMs := maxWall, counter := counter }

/-- The stamp on the wire. -/
def Hlc.stamp (hlc : Hlc) : ZedSync.Hlc :=
  { wallMs := hlc.wallMs.toNat, counter := hlc.counter.toNat, actor := hlc.actor }

/-- The clock of the other runtimes in the same state. -/
def Hlc.clock (hlc : Hlc) : Clock :=
  { wallMs := hlc.wallMs.toNat, counter := hlc.counter.toNat, actor := hlc.actor }

/-- A stamp of the wire, decoded. -/
def Hlc.ofStamp (stamp : ZedSync.Hlc) : Hlc :=
  { wallMs := UInt64.ofNat stamp.wallMs, counter := UInt32.ofNat stamp.counter,
    actor := stamp.actor }

/-- A clock whose counter stops at the last one. -/
def saturated (clock : Clock) : Clock := { clock with counter := min clock.counter maxCounter }

section Arithmetic

@[simp] theorem saturatingAdd64_toNat (first second : UInt64) :
    (saturatingAdd64 first second).toNat =
      min (first.toNat + second.toNat) 18446744073709551615 := by
  have hfirst := first.toNat_lt
  have hsecond := second.toNat_lt
  unfold saturatingAdd64
  split
  · rename_i hfits
    simp only [UInt64.size] at hfits
    rw [UInt64.toNat_add, Nat.mod_eq_of_lt (by omega)]
    omega
  · rename_i hfull
    simp only [UInt64.size] at hfull
    have hlast : (18446744073709551615 : UInt64).toNat = 18446744073709551615 := rfl
    omega

@[simp] theorem saturatingAdd32_toNat (first second : UInt32) :
    (saturatingAdd32 first second).toNat = min (first.toNat + second.toNat) maxCounter := by
  have hfirst := first.toNat_lt
  have hsecond := second.toNat_lt
  unfold saturatingAdd32 maxCounter
  split
  · rename_i hfits
    simp only [UInt32.size] at hfits
    rw [UInt32.toNat_add, Nat.mod_eq_of_lt (by omega)]
    omega
  · rename_i hfull
    simp only [UInt32.size] at hfull
    have hlast : (4294967295 : UInt32).toNat = 4294967295 := rfl
    omega

theorem counter_le (hlc : Hlc) : hlc.counter.toNat ≤ maxCounter := by
  have hlt := hlc.counter.toNat_lt
  unfold maxCounter
  omega

@[simp] theorem max64_toNat (first second : UInt64) :
    (max first second).toNat = max first.toNat second.toNat := by
  change (if first ≤ second then second else first).toNat = _
  split
  · rename_i hle
    exact (max_eq_right (UInt64.le_iff_toNat_le.mp hle)).symm
  · rename_i hlt
    exact (max_eq_left (Nat.le_of_not_le fun hle => hlt (UInt64.le_iff_toNat_le.mpr hle))).symm

@[simp] theorem max32_toNat (first second : UInt32) :
    (max first second).toNat = max first.toNat second.toNat := by
  change (if first ≤ second then second else first).toNat = _
  split
  · rename_i hle
    exact (max_eq_right (UInt32.le_iff_toNat_le.mp hle)).symm
  · rename_i hlt
    exact (max_eq_left (Nat.le_of_not_le fun hle => hlt (UInt32.le_iff_toNat_le.mpr hle))).symm

end Arithmetic

/-- A tick is that of the other runtimes, up to the last counter. -/
theorem tick_clock (hlc : Hlc) (physicalNowMs : UInt64) :
    (hlc.tick physicalNowMs).clock = saturated (Js.tick hlc.clock physicalNowMs.toNat) := by
  have hlater : physicalNowMs > hlc.wallMs ↔ physicalNowMs.toNat > hlc.clock.wallMs :=
    UInt64.lt_iff_toNat_lt
  unfold Hlc.tick Js.tick
  by_cases hnow : physicalNowMs > hlc.wallMs
  · rw [if_pos hnow, if_pos (hlater.mp hnow)]
    rfl
  · rw [if_neg hnow, if_neg (hlater.not.mp hnow)]
    simp [Hlc.clock, saturated]

/-- The counter after an observation, at the wall it leaves. -/
theorem observed_counter (hlc remote : Hlc) (remoteOk : Bool) (maxWall : UInt64) :
    (if remoteOk ∧ maxWall = hlc.wallMs ∧ maxWall = remote.wallMs then
        saturatingAdd32 (max hlc.counter remote.counter) 1
      else if maxWall = hlc.wallMs then saturatingAdd32 hlc.counter 1
      else if remoteOk ∧ maxWall = remote.wallMs then saturatingAdd32 remote.counter 1
      else 0).toNat =
    min (if remoteOk ∧ maxWall.toNat = hlc.wallMs.toNat ∧ maxWall.toNat = remote.wallMs.toNat then
        max hlc.counter.toNat remote.counter.toNat + 1
      else if maxWall.toNat = hlc.wallMs.toNat then hlc.counter.toNat + 1
      else if remoteOk ∧ maxWall.toNat = remote.wallMs.toNat then remote.counter.toNat + 1
      else 0) maxCounter := by
  simp only [UInt64.toNat_inj]
  split
  · simp
  · split
    · simp
    · split
      · simp
      · simp

/-- An observation is that of the other runtimes, up to the last counter. -/
theorem observe_clock (hlc remote : Hlc) (physicalNowMs : UInt64) :
    (hlc.observe remote physicalNowMs).clock =
      saturated (Js.observe hlc.clock remote.stamp physicalNowMs.toNat) := by
  have hremote := remote.wallMs.toNat_lt
  have hdrift : maxDrift.toNat = maxDriftMs := rfl
  have hok : decide (remote.wallMs ≤ saturatingAdd64 physicalNowMs maxDrift) =
      decide (remote.wallMs.toNat ≤ physicalNowMs.toNat + maxDriftMs) := by
    rw [decide_eq_decide, UInt64.le_iff_toNat_le, saturatingAdd64_toNat, hdrift]
    omega
  have hremoteWall (remoteOk : Bool) : (if remoteOk then remote.wallMs else 0).toNat =
      if remoteOk then remote.wallMs.toNat else 0 := by
    cases remoteOk <;> rfl
  rw [← Dart.observe_eq]
  unfold Hlc.observe Dart.observe
  simp only [Hlc.clock, saturated, Clock.mk.injEq, true_and, observed_counter, max64_toNat,
    hremoteWall, hok, Hlc.stamp]
  exact ⟨rfl, rfl⟩

theorem strCmp_gt_iff (first second : String) :
    strCmp first second = .gt ↔ utf8Bytes second < utf8Bytes first := by
  unfold strCmp compareOfLessAndEq
  rcases lt_trichotomy (utf8Bytes first) (utf8Bytes second) with hlt | heq | hgt
  · simp [hlt, hlt.le]
  · simp [heq]
  · simp [hgt, hgt.not_gt, hgt.ne']

/-- The order of the canonical stamps. -/
theorem cmp_gt_iff (first second : ZedSync.Hlc) :
    cmp first second = .gt ↔ second.wallMs < first.wallMs ∨ first.wallMs = second.wallMs ∧
      (second.counter < first.counter ∨ first.counter = second.counter ∧
        utf8Bytes second.actor < utf8Bytes first.actor) := by
  simp only [cmp, Ordering.then_eq_gt, compare_gt_iff_gt, compare_eq_iff_eq, strCmp_gt_iff]

inductive HlcCall where
  | tick (physicalNowMs : UInt64)
  | observe (remote : Hlc) (physicalNowMs : UInt64)
  deriving Repr

def HlcCall.clockCall : HlcCall → ClockCall
  | .tick physicalNowMs => .tick physicalNowMs.toNat
  | .observe remote physicalNowMs => .observe remote.stamp physicalNowMs.toNat

def clockStep (hlc : Hlc) : HlcCall → Hlc
  | .tick physicalNowMs => hlc.tick physicalNowMs
  | .observe remote physicalNowMs => hlc.observe remote physicalNowMs

/-- The call leaves the stamp strictly above itself, and above a remote in range. -/
def Advances (hlc : Hlc) (call : HlcCall) : Prop :=
  cmp (clockStep hlc call).stamp hlc.stamp = .gt ∧
    match call with
    | .tick _ => True
    | .observe remote physicalNowMs =>
        remote.wallMs.toNat ≤ physicalNowMs.toNat + maxDriftMs →
          cmp (clockStep hlc call).stamp remote.stamp = .gt

/-- No counter stands at its last value where the call would count on: not the
clock's own, and not the remote's, or else the actors tell the two apart. -/
def HasRoom (hlc : Hlc) (call : HlcCall) : Prop :=
  call.clockCall.OwnRoom hlc.clock ∧
    (call.clockCall.RemoteRoom hlc.clock ∨
      ∃ remote physicalNowMs, call = .observe remote physicalNowMs ∧
        utf8Bytes remote.actor < utf8Bytes hlc.actor)

theorem cmp_own_iff {before after : ZedSync.Hlc} (hactor : after.actor = before.actor) :
    cmp after before = .gt ↔ before.wallMs < after.wallMs ∨
      after.wallMs = before.wallMs ∧ before.counter < after.counter := by
  rw [cmp_gt_iff, hactor]
  simp

theorem tick_advances_iff (hlc : Hlc) (physicalNowMs : UInt64) :
    Advances hlc (.tick physicalNowMs) ↔ HasRoom hlc (.tick physicalNowMs) := by
  have hstamp : (clockStep hlc (.tick physicalNowMs)).stamp =
      (saturated (Js.tick hlc.clock physicalNowMs.toNat)).stamp :=
    congrArg Clock.stamp (tick_clock hlc physicalNowMs)
  have hbound := counter_le hlc
  have hactor : (saturated (Js.tick hlc.clock physicalNowMs.toNat)).stamp.actor = hlc.actor :=
    tick_actor hlc.clock physicalNowMs.toNat
  have hroom : HasRoom hlc (.tick physicalNowMs) ↔
      hlc.clock.wallMs < physicalNowMs.toNat ∨ hlc.clock.counter < maxCounter := by
    simp [HasRoom, HlcCall.clockCall, ClockCall.OwnRoom, ClockCall.RemoteRoom]
  rw [hroom, Advances, hstamp, cmp_own_iff hactor, and_true]
  change hlc.clock.counter ≤ maxCounter at hbound
  change hlc.clock.wallMs < _ ∨ _ = hlc.clock.wallMs ∧ hlc.clock.counter < _ ↔ _
  simp only [Clock.stamp, saturated, Js.tick]
  split_ifs with hlater
  · simp [hlater]
  · simp only [lt_irrefl, false_or, true_and]
    omega

theorem observe_advances_iff (hlc remote : Hlc) (physicalNowMs : UInt64) :
    Advances hlc (.observe remote physicalNowMs) ↔
      HasRoom hlc (.observe remote physicalNowMs) := by
  have hstamp : (clockStep hlc (.observe remote physicalNowMs)).stamp =
      (saturated (Js.observe hlc.clock remote.stamp physicalNowMs.toNat)).stamp :=
    congrArg Clock.stamp (observe_clock hlc remote physicalNowMs)
  have hcases := observe_cases hlc.clock remote.stamp physicalNowMs.toNat
  dsimp only at hcases
  have hbound : hlc.clock.counter ≤ maxCounter := counter_le hlc
  have hremoteBound : remote.stamp.counter ≤ maxCounter := counter_le remote
  have hactor : (Js.observe hlc.clock remote.stamp physicalNowMs.toNat).actor = hlc.actor := rfl
  generalize Js.observe hlc.clock remote.stamp physicalNowMs.toNat = after at *
  obtain ⟨hself, hnow, hnear, hwall, hcounter⟩ := hcases
  have hown : cmp (saturated after).stamp hlc.stamp = .gt ↔
      (HlcCall.observe remote physicalNowMs).clockCall.OwnRoom hlc.clock := by
    rw [cmp_own_iff hactor]
    change hlc.clock.wallMs < _ ∨ _ = hlc.clock.wallMs ∧ hlc.clock.counter < _ ↔ _
    simp only [Clock.stamp, saturated, HlcCall.clockCall, ClockCall.OwnRoom]
    split_ifs at hcounter <;> omega
  have hremote : (remote.stamp.wallMs ≤ physicalNowMs.toNat + maxDriftMs →
      cmp (saturated after).stamp remote.stamp = .gt) ↔
      (HlcCall.observe remote physicalNowMs).clockCall.RemoteRoom hlc.clock ∨
        utf8Bytes remote.actor < utf8Bytes hlc.actor := by
    rw [cmp_gt_iff]
    simp only [Clock.stamp, saturated, HlcCall.clockCall, ClockCall.RemoteRoom, hactor]
    change (_ → _ ∨ _ ∧ (_ ∨ _ ∧ utf8Bytes remote.actor < utf8Bytes hlc.actor)) ↔ _
    by_cases hlt : utf8Bytes remote.actor < utf8Bytes hlc.actor
    · simp only [hlt, and_true, or_true, iff_true]
      split_ifs at hcounter <;> omega
    · simp only [hlt, and_false, or_false]
      split_ifs at hcounter <;> omega
  rw [Advances, HasRoom, hstamp, hown]
  refine and_congr_right fun _ => hremote.trans (or_congr_right ⟨fun hlt => ?_, ?_⟩)
  · exact ⟨remote, physicalNowMs, rfl, hlt⟩
  · rintro ⟨_, _, ⟨⟩, hlt⟩
    exact hlt

/-- From any clock, every call of a run moves the stamp up, and past a remote in
range, exactly when none meets a counter at its last value. -/
theorem stamps_advance_iff (start : Hlc) (calls : List HlcCall) :
    Run.Along clockStep Advances start calls ↔ Run.Along clockStep HasRoom start calls := by
  apply Run.along_congr
  intro hlc call
  cases call with
  | tick physicalNowMs => exact tick_advances_iff hlc physicalNowMs
  | observe remote physicalNowMs => exact observe_advances_iff hlc remote physicalNowMs

/-- A remote with the last counter a stamp may carry. -/
def lastRemote : Hlc := { wallMs := 5, counter := 4294967295, actor := "b" }

/-- Observed at its own wall it is not outranked, and the next tick leaves the stamp
where it is. -/
theorem last_counter_stops_the_clock :
    let start : Hlc := { wallMs := 0, counter := 0, actor := "a" }
    let observed := clockStep start (.observe lastRemote 5)
    cmp observed.stamp lastRemote.stamp = .lt ∧ clockStep observed (.tick 5) = observed ∧
      ¬ Run.Along clockStep Advances start [.observe lastRemote 5, .tick 5] := by
  intro start observed
  have hsame : clockStep observed (.tick 5) = observed := by decide
  refine ⟨by decide, hsame, ?_⟩
  rintro ⟨-, ⟨hgreater, -⟩, -⟩
  rw [hsame] at hgreater
  exact absurd hgreater (by decide)

end Rust

end ZedSync
