import Mathlib.Algebra.Order.Ring.Rat
import Mathlib.Data.Rat.Cast.Order
import ZedSync.Rust.Lifecycle

/-!
The check of a persisted or foreign snapshot (`assertAppLifecycleInvariant` in
`sdk/src/lifecycle.mjs`) on whatever a plain object can hold: any text for the phase and
the operation, any number for the generation and the token. The shapes are the fields of
an object literal, looked up by the phase. A lookup that misses its own fields goes on to
`Object.prototype`, and everything that has a name there is truthy.
-/

namespace ZedSync

def LifecycleOperation.text : LifecycleOperation → String
  | .none => "none"
  | .start => "start"
  | .stop => "stop"
  | .reconcile => "reconcile"

def LifecycleFailure.text : LifecycleFailure → String
  | .start => "start"
  | .runtime => "runtime"
  | .stop => "stop"

def AppPhase.ofText (text : String) : Option AppPhase :=
  [stopped, starting, online, offline, stopping, failed].find? (·.text = text)

def LifecycleOperation.ofText (text : String) : Option LifecycleOperation :=
  [none, start, stop, reconcile].find? (·.text = text)

def LifecycleFailure.ofText (text : String) : Option LifecycleFailure :=
  [start, runtime, stop].find? (·.text = text)

namespace Js

/-- A JavaScript number. -/
inductive Number where
  | nan
  | infinity (negative : Bool)
  | finite (value : ℚ)
  deriving DecidableEq

/-- `Number.isSafeInteger`. -/
def Number.isSafeInteger : Number → Bool
  | .nan | .infinity _ => false
  | .finite value => value.den = 1 && value.num.natAbs ≤ maxSafeInteger

/-- `<` on numbers. -/
def Number.lt : Number → Number → Bool
  | .nan, _ | _, .nan => false
  | .infinity negative, .infinity negative' => negative && !negative'
  | .infinity negative, .finite _ => negative
  | .finite _, .infinity negative => !negative
  | .finite value, .finite value' => value < value'

/-- `===` on numbers. -/
def Number.same : Number → Number → Bool
  | .nan, _ | _, .nan => false
  | .infinity negative, .infinity negative' => negative = negative'
  | .finite value, .finite value' => value = value'
  | _, _ => false

/-- `<=` on numbers. -/
def Number.le (a b : Number) : Bool := a.lt b || a.same b

def Number.ofNat (n : Nat) : Number := .finite n

/-- A plain object with the fields of a snapshot. -/
structure ForeignSnapshot where
  phase : String
  operation : String
  generation : Number
  activeToken : Option Number
  desiredRunning : Bool
  online : Bool
  failure : Option String
  deriving DecidableEq

/-- The names every object inherits from `Object.prototype`. -/
def inheritedMembers : List String :=
  ["constructor", "hasOwnProperty", "isPrototypeOf", "propertyIsEnumerable", "toLocaleString",
    "toString", "valueOf", "__proto__", "__defineGetter__", "__defineSetter__",
    "__lookupGetter__", "__lookupSetter__"]

/-- Whether `{ ...own }[key]` is truthy: an own field's value, or an inherited member. -/
def lookupTruthy (own : List (String × Bool)) (key : String) : Bool :=
  match own.lookup key with
  | some value => value
  | none => inheritedMembers.contains key

namespace ForeignSnapshot

/-- `snapshot.activeToken === snapshot.generation`. -/
def tokenIsGeneration (snapshot : ForeignSnapshot) : Bool :=
  snapshot.activeToken.any fun token => token.same snapshot.generation

def tokenValid (snapshot : ForeignSnapshot) : Bool :=
  match snapshot.activeToken with
  | none => true
  | some token =>
      token.isSafeInteger && (Number.ofNat 0).lt token && token.le snapshot.generation

/-- The first check lets the generation and the token pass. -/
def numbersValid (snapshot : ForeignSnapshot) : Bool :=
  snapshot.generation.isSafeInteger && !snapshot.generation.lt (.ofNat 0) && snapshot.tokenValid

/-- The object literal of the second check. -/
def shapes (snapshot : ForeignSnapshot) : List (String × Bool) :=
  [(AppPhase.stopped.text,
      snapshot.operation = LifecycleOperation.none.text && snapshot.activeToken.isNone &&
        !snapshot.desiredRunning && !snapshot.online && snapshot.failure.isNone),
    (AppPhase.starting.text,
      snapshot.operation = LifecycleOperation.start.text && snapshot.tokenIsGeneration &&
        snapshot.desiredRunning && snapshot.failure.isNone),
    (AppPhase.online.text,
      snapshot.operation = LifecycleOperation.none.text && snapshot.tokenIsGeneration &&
        snapshot.desiredRunning && snapshot.online && snapshot.failure.isNone),
    (AppPhase.offline.text,
      snapshot.operation = LifecycleOperation.none.text && snapshot.tokenIsGeneration &&
        snapshot.desiredRunning && !snapshot.online && snapshot.failure.isNone),
    (AppPhase.stopping.text,
      [LifecycleOperation.stop.text, LifecycleOperation.reconcile.text].contains
          snapshot.operation && snapshot.tokenIsGeneration &&
        !snapshot.desiredRunning && !snapshot.online && snapshot.failure.isNone),
    (AppPhase.failed.text,
      snapshot.operation = LifecycleOperation.none.text && snapshot.activeToken.isNone &&
        !snapshot.desiredRunning && !snapshot.online &&
        snapshot.failure.any fun failure =>
          [LifecycleFailure.start.text, LifecycleFailure.runtime.text,
            LifecycleFailure.stop.text].contains failure)]

end ForeignSnapshot

/-- The snapshot is returned, or a `TypeError` is thrown. -/
def assertAppLifecycleInvariant (snapshot : ForeignSnapshot) : Except String ForeignSnapshot :=
  if !snapshot.numbersValid then
    .error "zed-sync lifecycle: invalid generation or active token"
  else if !lookupTruthy snapshot.shapes snapshot.phase then
    .error
      "zed-sync lifecycle: phase, operation, token, intent, connectivity, and failure disagree"
  else .ok snapshot

end Js

namespace Rust

/-- A JSON number as a `u64`. -/
def u64OfNumber : Js.Number → Option Nat
  | .finite value => if value.den = 1 ∧ 0 ≤ value.num ∧ value.num < 2 ^ 64 then
      some value.num.toNat else none
  | .nan | .infinity _ => none

/-- An optional field: `null` is `None`, everything else has to decode. -/
def decodeOption {α β : Type} (decode : α → Option β) : Option α → Option (Option β)
  | none => some none
  | some value => (decode value).map some

/-- The Rust snapshot with the fields of a foreign one, where it has one. -/
def ofForeign (snapshot : Js.ForeignSnapshot) : Option AppLifecycleSnapshot := do
  let phase ← AppPhase.ofText snapshot.phase
  let operation ← LifecycleOperation.ofText snapshot.operation
  let generation ← u64OfNumber snapshot.generation
  let activeToken ← decodeOption u64OfNumber snapshot.activeToken
  let failure ← decodeOption LifecycleFailure.ofText snapshot.failure
  return { phase, operation, generation, activeToken
           desiredRunning := snapshot.desiredRunning
           online := snapshot.online
           failure }

end Rust

theorem AppPhase.ofText_eq_some_iff {text : String} {phase : AppPhase} :
    AppPhase.ofText text = some phase ↔ text = phase.text := by
  constructor
  · intro h
    have hfound := List.find?_some h
    simpa using (of_decide_eq_true hfound).symm
  · rintro rfl
    cases phase <;> rfl

theorem LifecycleOperation.ofText_eq_some_iff {text : String} {operation : LifecycleOperation} :
    LifecycleOperation.ofText text = some operation ↔ text = operation.text := by
  constructor
  · intro h
    have hfound := List.find?_some h
    simpa using (of_decide_eq_true hfound).symm
  · rintro rfl
    cases operation <;> rfl

theorem LifecycleFailure.ofText_eq_some_iff {text : String} {failure : LifecycleFailure} :
    LifecycleFailure.ofText text = some failure ↔ text = failure.text := by
  constructor
  · intro h
    have hfound := List.find?_some h
    simpa using (of_decide_eq_true hfound).symm
  · rintro rfl
    cases failure <;> rfl

namespace Js

theorem Number.eq_ofNat {value : ℚ} (hden : value.den = 1) (hnum : 0 ≤ value.num) :
    Number.finite value = Number.ofNat value.num.toNat := by
  have hvalue : value = ((value.num.toNat : ℤ) : ℚ) := by
    rw [Int.toNat_of_nonneg hnum]
    exact (Rat.coe_int_num_of_den_eq_one hden).symm
  rw [Number.ofNat, Number.finite.injEq]
  exact_mod_cast hvalue

@[simp] theorem Number.isSafeInteger_ofNat (n : Nat) :
    (Number.ofNat n).isSafeInteger = decide (n ≤ maxSafeInteger) := by
  have hnum : (n : ℚ).num.natAbs = n := by simp
  simp [Number.isSafeInteger, Number.ofNat, -Rat.num_natCast, hnum]

@[simp] theorem Number.lt_ofNat (n m : Nat) :
    (Number.ofNat n).lt (.ofNat m) = decide (n < m) := by
  simp [Number.lt, Number.ofNat]

@[simp] theorem Number.same_ofNat (n m : Nat) :
    (Number.ofNat n).same (.ofNat m) = decide (n = m) := by
  simp [Number.same, Number.ofNat]

@[simp] theorem Number.le_ofNat (n m : Nat) :
    (Number.ofNat n).le (.ofNat m) = decide (n ≤ m) := by
  simp only [Number.le, Number.lt_ofNat, Number.same_ofNat, ← Bool.decide_or,
    Nat.le_iff_lt_or_eq]

/-- A safe integer that is not below zero. -/
theorem Number.eq_ofNat_of_safe {number : Number} (hsafe : number.isSafeInteger = true)
    (hnonneg : number.lt (.ofNat 0) = false) :
    ∃ n, number = .ofNat n ∧ n ≤ maxSafeInteger := by
  cases number with
  | nan => cases hsafe
  | infinity _ => cases hsafe
  | finite value =>
      simp only [Number.isSafeInteger, Bool.and_eq_true, decide_eq_true_eq] at hsafe
      have hnum : 0 ≤ value.num := by
        simpa [Number.lt, Number.ofNat, Rat.num_nonneg] using hnonneg
      exact ⟨value.num.toNat, Number.eq_ofNat hsafe.1 hnum, by omega⟩

theorem ForeignSnapshot.numbersValid_iff (snapshot : ForeignSnapshot) :
    snapshot.numbersValid = true ↔
      ∃ generation token, snapshot.generation = .ofNat generation ∧
        snapshot.activeToken = Option.map Number.ofNat token ∧ generation ≤ maxSafeInteger ∧
        ∀ value ∈ token, 0 < value ∧ value ≤ generation := by
  constructor
  · intro h
    simp only [numbersValid, Bool.and_eq_true, Bool.not_eq_true'] at h
    obtain ⟨⟨hsafe, hnonneg⟩, htoken⟩ := h
    obtain ⟨generation, hgeneration, hle⟩ := Number.eq_ofNat_of_safe hsafe hnonneg
    cases hactive : snapshot.activeToken with
    | none => exact ⟨generation, none, hgeneration, rfl, hle, by simp⟩
    | some token =>
        simp only [tokenValid, hactive, Bool.and_eq_true] at htoken
        obtain ⟨⟨htokenSafe, hpositive⟩, hbelow⟩ := htoken
        have hnegative : token.lt (.ofNat 0) = false := by
          cases token with
          | nan => rfl
          | infinity _ => cases htokenSafe
          | finite value =>
              simp only [Number.lt, Number.ofNat, decide_eq_true_eq] at hpositive
              simpa [Number.lt, Number.ofNat] using le_of_lt hpositive
        obtain ⟨value, rfl, -⟩ := Number.eq_ofNat_of_safe htokenSafe hnegative
        rw [Number.lt_ofNat, decide_eq_true_eq] at hpositive
        rw [hgeneration, Number.le_ofNat, decide_eq_true_eq] at hbelow
        exact ⟨generation, some value, hgeneration, rfl, hle, by simp [hpositive, hbelow]⟩
  · rintro ⟨generation, token, hgeneration, htoken, hle, hvalue⟩
    cases token with
    | none => simp [numbersValid, tokenValid, hgeneration, htoken, hle]
    | some value =>
        have hbounds := hvalue value rfl
        have hsafe : value ≤ maxSafeInteger := by omega
        simp [numbersValid, tokenValid, hgeneration, htoken, hle, hbounds, hsafe]

end Js

theorem Rust.u64OfNumber_eq_some_iff {number : Js.Number} {n : Nat} :
    Rust.u64OfNumber number = some n ↔ number = .ofNat n ∧ n < 2 ^ 64 := by
  constructor
  · intro h
    cases number with
    | nan => cases h
    | infinity _ => cases h
    | finite value =>
        simp only [Rust.u64OfNumber] at h
        split at h
        · rename_i hfits
          cases h
          exact ⟨Js.Number.eq_ofNat hfits.1 hfits.2.1, by omega⟩
        · cases h
  · rintro ⟨rfl, hlt⟩
    have hfits : (n : ℤ) < 18446744073709551616 := by exact_mod_cast hlt
    simp [Rust.u64OfNumber, Js.Number.ofNat, hfits]

namespace Js

/-- Rust's check of the shape, on the texts of a foreign snapshot. -/
def ForeignSnapshot.Shaped (snapshot : ForeignSnapshot) (phase : AppPhase)
    (generation : Nat) (token : Option Nat) : Prop :=
  ∃ operation failure, LifecycleOperation.ofText snapshot.operation = some operation ∧
    Rust.decodeOption LifecycleFailure.ofText snapshot.failure = some failure ∧
    Rust.coherent
      { phase := phase, operation := operation, generation := generation, activeToken := token,
        desiredRunning := snapshot.desiredRunning, online := snapshot.online,
        failure := failure } = true

theorem operation_text_iff (snapshot : ForeignSnapshot) (operation : LifecycleOperation) :
    snapshot.operation = operation.text ↔
      LifecycleOperation.ofText snapshot.operation = some operation :=
  LifecycleOperation.ofText_eq_some_iff.symm

theorem failure_none_iff (failure : Option String) :
    Rust.decodeOption LifecycleFailure.ofText failure = some none ↔ failure = none := by
  cases failure with
  | none => simp [Rust.decodeOption]
  | some text => simp [Rust.decodeOption]

theorem failure_known_iff (failure : Option String) :
    (∃ known, Rust.decodeOption LifecycleFailure.ofText failure = some known ∧
        known.isSome = true) ↔
      ∃ text, failure = some text ∧
        (text = LifecycleFailure.start.text ∨ text = LifecycleFailure.runtime.text ∨
          text = LifecycleFailure.stop.text) := by
  cases failure with
  | none => simp [Rust.decodeOption]
  | some text =>
      simp only [Rust.decodeOption, Option.map_eq_some_iff, Option.some.injEq,
        LifecycleFailure.ofText_eq_some_iff]
      constructor
      · rintro ⟨known, ⟨failure, htext, rfl⟩, -⟩
        refine ⟨text, rfl, ?_⟩
        cases failure with
        | start => exact Or.inl htext
        | runtime => exact Or.inr (Or.inl htext)
        | stop => exact Or.inr (Or.inr htext)
      · rintro ⟨_, rfl, h | h | h⟩
        · exact ⟨some .start, ⟨.start, h, rfl⟩, rfl⟩
        · exact ⟨some .runtime, ⟨.runtime, h, rfl⟩, rfl⟩
        · exact ⟨some .stop, ⟨.stop, h, rfl⟩, rfl⟩

theorem tokenIsGeneration_iff {snapshot : ForeignSnapshot} {generation : Nat}
    {token : Option Nat} (hgeneration : snapshot.generation = .ofNat generation)
    (htoken : snapshot.activeToken = token.map .ofNat) :
    snapshot.tokenIsGeneration = true ↔ token = some generation := by
  cases token with
  | none => simp [ForeignSnapshot.tokenIsGeneration, htoken]
  | some value => simp [ForeignSnapshot.tokenIsGeneration, htoken, hgeneration]

/-- The object literal holds, under each phase, Rust's check for that phase. -/
theorem shapes_iff {snapshot : ForeignSnapshot} {generation : Nat} {token : Option Nat}
    (hgeneration : snapshot.generation = .ofNat generation)
    (htoken : snapshot.activeToken = token.map .ofNat) (phase : AppPhase) :
    lookupTruthy snapshot.shapes phase.text = true ↔
      snapshot.Shaped phase generation token := by
  have hsame := tokenIsGeneration_iff hgeneration htoken
  have hnone : snapshot.activeToken.isNone = token.isNone := by
    rw [htoken, Option.isNone_map]
  cases phase with
  | stopped =>
      simp [lookupTruthy, ForeignSnapshot.shapes, AppPhase.text,
        ForeignSnapshot.Shaped, Rust.coherent, hnone, operation_text_iff, failure_none_iff]
      tauto
  | starting | online | offline =>
      simp [lookupTruthy, ForeignSnapshot.shapes, AppPhase.text, List.lookup_cons,
        ForeignSnapshot.Shaped, Rust.coherent, hsame, operation_text_iff, failure_none_iff]
      tauto
  | stopping =>
      simp [lookupTruthy, ForeignSnapshot.shapes, AppPhase.text, List.lookup_cons,
        ForeignSnapshot.Shaped, Rust.coherent, hsame, operation_text_iff, failure_none_iff]
      constructor
      · rintro ⟨⟨⟨⟨hstop | hreconcile, htoken⟩, hdesired⟩, honline⟩, hfailure⟩
        · exact ⟨.stop, hstop, hfailure, ⟨⟨Or.inl rfl, htoken⟩, hdesired⟩, honline⟩
        · exact ⟨.reconcile, hreconcile, hfailure, ⟨⟨Or.inr rfl, htoken⟩, hdesired⟩, honline⟩
      · rintro ⟨operation, hoperation, hfailure, ⟨⟨rfl | rfl, htoken⟩, hdesired⟩, honline⟩
        · exact ⟨⟨⟨⟨Or.inl hoperation, htoken⟩, hdesired⟩, honline⟩, hfailure⟩
        · exact ⟨⟨⟨⟨Or.inr hoperation, htoken⟩, hdesired⟩, honline⟩, hfailure⟩
  | failed =>
      have hknown := failure_known_iff snapshot.failure
      simp [lookupTruthy, ForeignSnapshot.shapes, AppPhase.text, List.lookup_cons,
        ForeignSnapshot.Shaped, Rust.coherent, hnone, operation_text_iff, Option.any_eq_true]
      constructor
      · rintro ⟨⟨⟨⟨hoperation, htoken⟩, hdesired⟩, honline⟩, text, htext, hnamed⟩
        obtain ⟨known, hdecode, hsome⟩ := hknown.mpr ⟨text, htext, hnamed⟩
        exact ⟨hoperation, known, hdecode, ⟨⟨htoken, hdesired⟩, honline⟩, hsome⟩
      · rintro ⟨hoperation, known, hdecode, ⟨⟨htoken, hdesired⟩, honline⟩, hsome⟩
        obtain ⟨text, htext, hnamed⟩ := hknown.mp ⟨known, hdecode, hsome⟩
        exact ⟨⟨⟨⟨hoperation, htoken⟩, hdesired⟩, honline⟩, text, htext, hnamed⟩

/-- The lookup finds nothing but an inherited member where the text names no phase. -/
theorem lookupTruthy_unknown {snapshot : ForeignSnapshot} {text : String}
    (h : AppPhase.ofText text = none) :
    lookupTruthy snapshot.shapes text = inheritedMembers.contains text := by
  have hother : ∀ phase : AppPhase, text ≠ phase.text := by
    intro phase heq
    rw [AppPhase.ofText_eq_some_iff.mpr heq] at h
    cases h
  have hnone : snapshot.shapes.lookup text = none := by
    rw [List.lookup_eq_none_iff]
    intro entry hentry
    simp only [ForeignSnapshot.shapes, List.mem_cons, List.not_mem_nil, or_false] at hentry
    rcases hentry with rfl | rfl | rfl | rfl | rfl | rfl <;> simpa using hother _
  rw [lookupTruthy, hnone]

theorem text_not_inherited (phase : AppPhase) : phase.text ∉ inheritedMembers := by
  cases phase <;> simp [AppPhase.text, inheritedMembers]

theorem assertAppLifecycleInvariant_ok_iff (snapshot : ForeignSnapshot) :
    assertAppLifecycleInvariant snapshot = .ok snapshot ↔
      snapshot.numbersValid = true ∧ lookupTruthy snapshot.shapes snapshot.phase = true := by
  unfold assertAppLifecycleInvariant
  cases snapshot.numbersValid with
  | false => simp
  | true =>
      cases lookupTruthy snapshot.shapes snapshot.phase with
      | false => simp
      | true => simp

/-- A foreign snapshot is one of the Rust core's, and a valid one. -/
def ForeignSnapshot.RustValid (snapshot : ForeignSnapshot) : Prop :=
  ∃ rust, Rust.ofForeign snapshot = some rust ∧ Rust.validate rust = .ok ()

theorem rustValid_iff (snapshot : ForeignSnapshot) :
    snapshot.RustValid ↔ ∃ phase generation token, AppPhase.ofText snapshot.phase = some phase ∧
      snapshot.generation = .ofNat generation ∧
      snapshot.activeToken = Option.map Number.ofNat token ∧ generation ≤ maxSafeInteger ∧
      (∀ value ∈ token, 0 < value ∧ value ≤ generation) ∧
      snapshot.Shaped phase generation token := by
  constructor
  · rintro ⟨rust, hrust, hvalid⟩
    rw [Rust.validate_iff] at hvalid
    simp only [Rust.ofForeign, Option.bind_eq_bind, Option.bind_eq_some_iff, Option.pure_def,
      Option.some.injEq] at hrust
    obtain ⟨phase, hphase, operation, hoperation, generation, hgeneration, token, htoken,
      failure, hfailure, rfl⟩ := hrust
    rw [Rust.u64OfNumber_eq_some_iff] at hgeneration
    refine ⟨phase, generation, token, hphase, hgeneration.1, ?_, hvalid.bounded,
      hvalid.allocated, operation, failure, hoperation, hfailure, hvalid.coherent⟩
    cases hactive : snapshot.activeToken with
    | none =>
        rw [hactive] at htoken
        cases htoken
        rfl
    | some number =>
        rw [hactive] at htoken
        obtain ⟨value, hvalue, rfl⟩ := Option.map_eq_some_iff.mp htoken
        rw [(Rust.u64OfNumber_eq_some_iff.mp hvalue).1]
        rfl
  · rintro ⟨phase, generation, token, hphase, hgeneration, htoken, hle, hvalue, operation,
      failure, hoperation, hfailure, hcoherent⟩
    have hfits (n : Nat) (hn : n ≤ maxSafeInteger) : n < 2 ^ 64 := by
      simp only [maxSafeInteger] at hn
      omega
    have hgeneration' : Rust.u64OfNumber snapshot.generation = some generation :=
      Rust.u64OfNumber_eq_some_iff.mpr ⟨hgeneration, hfits generation hle⟩
    have htoken' : Rust.decodeOption Rust.u64OfNumber snapshot.activeToken = some token := by
      cases token with
      | none =>
          rw [htoken]
          rfl
      | some value =>
          have hbelow := (hvalue value rfl).2
          rw [htoken, Option.map_some, Rust.decodeOption,
            Rust.u64OfNumber_eq_some_iff.mpr ⟨rfl, hfits value (by omega)⟩, Option.map_some]
    refine ⟨_, ?_, (Rust.validate_iff _).mpr ⟨hle, hvalue, hcoherent⟩⟩
    simp only [Rust.ofForeign, hphase, hoperation, hgeneration', htoken', hfailure]
    rfl

theorem numbersValid_of_rustValid {snapshot : ForeignSnapshot} (h : snapshot.RustValid) :
    snapshot.numbersValid = true := by
  obtain ⟨-, generation, token, -, hgeneration, htoken, hle, hvalue, -⟩ :=
    (rustValid_iff snapshot).mp h
  exact snapshot.numbersValid_iff.mpr ⟨generation, token, hgeneration, htoken, hle, hvalue⟩

/-- The validator agrees with Rust's except on the names of inherited members. -/
theorem validator_agrees_iff (snapshot : ForeignSnapshot) :
    (assertAppLifecycleInvariant snapshot = .ok snapshot ↔ snapshot.RustValid) ↔
      snapshot.phase ∉ inheritedMembers ∨ snapshot.numbersValid = false := by
  rw [assertAppLifecycleInvariant_ok_iff]
  cases hnumbers : snapshot.numbersValid with
  | false =>
      have hinvalid : ¬ snapshot.RustValid := by
        intro hvalid
        rw [numbersValid_of_rustValid hvalid] at hnumbers
        cases hnumbers
      simp [hinvalid]
  | true =>
      rw [rustValid_iff]
      simp only [true_and, Bool.true_eq_false, or_false]
      cases hphase : AppPhase.ofText snapshot.phase with
      | none =>
          rw [lookupTruthy_unknown hphase]
          simp
      | some phase =>
          have htext := AppPhase.ofText_eq_some_iff.mp hphase
          have hfree : snapshot.phase ∉ inheritedMembers := htext ▸ text_not_inherited phase
          simp only [hfree, not_false_eq_true, iff_true, Option.some.injEq]
          rw [htext]
          constructor
          · intro hshape
            obtain ⟨generation, token, hgeneration, htoken, hle, hvalue⟩ :=
              snapshot.numbersValid_iff.mp hnumbers
            exact ⟨phase, generation, token, rfl, hgeneration, htoken, hle, hvalue,
              (shapes_iff hgeneration htoken phase).mp hshape⟩
          · rintro ⟨_, generation, token, rfl, hgeneration, htoken, -, -, hshaped⟩
            exact (shapes_iff hgeneration htoken _).mpr hshaped

/-- A phase called `constructor`, with nothing else wrong. -/
def inheritedPhase : ForeignSnapshot :=
  { phase := "constructor", operation := "none", generation := .ofNat 0, activeToken := none,
    desiredRunning := false, online := false, failure := none }

theorem inherited_phase_accepted :
    ¬ ∀ snapshot : ForeignSnapshot,
      assertAppLifecycleInvariant snapshot = .ok snapshot ↔ snapshot.RustValid := by
  intro hall
  have haccepted : assertAppLifecycleInvariant inheritedPhase = .ok inheritedPhase := by
    rw [assertAppLifecycleInvariant_ok_iff]
    refine ⟨?_, ?_⟩
    · simp [ForeignSnapshot.numbersValid, ForeignSnapshot.tokenValid, inheritedPhase]
    · rw [lookupTruthy_unknown rfl]
      rfl
  obtain ⟨rust, hrust, -⟩ := (hall inheritedPhase).mp haccepted
  cases hrust

end Js

end ZedSync
